import Scout.Lib.Runs
import Scout.Txn.MaxTimestamp

/-!
A new leader takes over (`Service.Start`). The writer and the watchdog run before
`startLeader` moves the HLC past the max timestamp of the entries that the manager
has applied by then; nothing waits for the rest of the log.
-/

namespace Scout.Txn

open Data Mvcc Lib

/-- Where `Service.Start` is. Requests are served at the end of it. -/
inductive Stage where
  /-- The components run. -/
  | started
  /-- `startLeader` has read the max timestamp. -/
  | read (maxTimestamp : Nat)
  /-- The store is empty: the first write is with the writer. -/
  | writing
  /-- The first write is the `n`-th entry of the log. -/
  | written (n : Nat)
  | failed
  | serving
  deriving DecidableEq

/-- `applied` counts the entries of the log that the manager has applied.
`assigned` is history: the timestamps that `prepareBatch` has assigned. -/
structure NewLeader where
  writer : Writer
  applied : Nat
  stage : Stage := .started
  assigned : List Nat := []

inductive StartStep where
  /-- Raft applies one more entry. -/
  | apply
  | getMaxTimestamp
  /-- `UpdateTimestamp(hlc.Now())`. -/
  | firstWrite (drift : Nat)
  /-- `updateHlc`: `hlc.Update` accepts the timestamp, or `hlc.Sleep` returns. -/
  | updateHlc (accepted : Bool) (drift : Nat)
  /-- A request reaches the writer, or the writer goes on to the next batch. -/
  | request (e : Event)

/-- What happens also before requests are served: the watchdog hands over its
commands, batches are sent, and other partitions of the server update the HLC. -/
def Event.beforeServing : Event → Bool
  | .markTimedout _ _ | .observe _ | .flush _ _ => true
  | .autocommit _ | .prepare _ | .commit _ _ | .abort _ | .storeDecision _
  | .updateTimestamp _ => false

def Writer.assigns (w : Writer) : Event → List Nat
  | .flush drift _ => stamps (prepareBatch w.clock drift w.batch).2
  | .autocommit _ | .prepare _ | .commit _ _ | .abort _ | .storeDecision _
  | .markTimedout _ _ | .updateTimestamp _ | .observe _ => []

def Clock.updateHlc (h : Clock) (timestamp : Nat) (accepted : Bool) (drift : Nat) : Clock :=
  if accepted then h.update timestamp
  -- the reading that ends the sleep is above the deadline
  else ⟨max h.last timestamp + 1 + drift, by omega⟩

namespace NewLeader

variable (pid : Nat) (cleanAfter : Int) (log : List Entry)

/-- The manager, over the log of the earlier leaders and the own one. -/
def manager (s : NewLeader) : Manager :=
  (applyLog (newPartition pid cleanAfter) ((log ++ s.writer.log).take s.applied)).1.1

/-- The result of the first write comes with its batch. -/
def stageAfter (s : NewLeader) : Event → Stage
  | .flush _ committed =>
    if s.stage = .writing then
      match committed with
      | some _ => .written (log.length + s.writer.log.length + 1)
      | none => .failed
    else s.stage
  | .autocommit _ | .prepare _ | .commit _ _ | .abort _ | .storeDecision _
  | .markTimedout _ _ | .updateTimestamp _ | .observe _ => s.stage

def step (s : NewLeader) : StartStep → Option NewLeader
  | .apply =>
    if s.applied < (log ++ s.writer.log).length then some { s with applied := s.applied + 1 }
    else none
  | .getMaxTimestamp =>
    if s.stage = .started then
      some { s with stage := .read (s.manager pid cleanAfter log).maxTimestamp }
    else none
  | .firstWrite drift =>
    if s.stage = .read 0 then
      let now := s.writer.clock.now drift
      let batch := { s.writer.batch with maxTimestamp := max s.writer.batch.maxTimestamp now.last }
      some { s with writer := { s.writer with clock := now, batch }, stage := .writing }
    else none
  | .updateHlc accepted drift =>
    let update := fun timestamp =>
      { s with
        writer := { s.writer with clock := s.writer.clock.updateHlc timestamp accepted drift }
        stage := .serving }
    match s.stage with
    | .read timestamp => if timestamp = 0 then none else some (update timestamp)
    | .written n => if n ≤ s.applied then some (update 0) else none
    | .started | .writing | .failed | .serving => none
  | .request e =>
    if s.stage = .serving ∨ e.beforeServing = true then
      some { s with
        writer := s.writer.step e
        stage := s.stageAfter log e
        assigned := s.assigned ++ s.writer.assigns e }
    else none

end NewLeader

/-- A request is only collected: nothing is stamped and the start sequence stays
where it is. -/
theorem Event.flush_or_collected (e : Event) : (∃ drift committed, e = .flush drift committed) ∨
    (∀ w : Writer, w.assigns e = []) ∧ ∀ log (s : NewLeader), s.stageAfter log e = s.stage := by
  cases e with
  | flush drift committed => exact .inl ⟨drift, committed, rfl⟩
  | _ => exact .inr ⟨fun _ => rfl, fun _ _ => rfl⟩

/-! ## The clock -/

/-- The HLC does not go back, and `prepareBatch` assigns timestamps above it. -/
theorem Writer.step_clock (w : Writer) (e : Event) :
    w.clock.last ≤ (w.step e).clock.last ∧ ∀ ts ∈ w.assigns e, w.clock.last < ts := by
  cases e with
  | flush drift committed =>
    obtain ⟨s', hs', h, _⟩ := prepareBatch_stampedBy w.clock drift w.batch
    have hle : w.clock.last ≤ s'.clock.last := h.le
    rw [hs'] at hle
    exact ⟨hle, fun ts hts => (h.fresh ts hts).1⟩
  | autocommit | prepare | abort | markTimedout => exact ⟨le_rfl, by simp [Writer.assigns]⟩
  | commit | storeDecision | updateTimestamp | observe =>
    exact ⟨w.clock.le_update _, by simp [Writer.assigns]⟩

theorem Clock.updateHlc_le (h : Clock) (timestamp : Nat) (accepted : Bool) (drift : Nat) :
    max h.last timestamp + 1 ≤ (h.updateHlc timestamp accepted drift).last := by
  cases accepted with
  | true => exact le_rfl
  | false =>
    simp only [Clock.updateHlc, Bool.false_eq_true, if_false]
    omega

/-! ## Before requests are served -/

/-- Only the watchdog has filled the batch. -/
structure OnlyTimedout (b : TxnBatch) : Prop where
  autocommit : b.autocommit = []
  prepare : b.prepare = []
  abort : b.abort = []
  storeDecision : b.storeDecision = []

theorem OnlyTimedout.step {w : Writer} {e : Event} (h : OnlyTimedout w.batch)
    (he : e.beforeServing = true) : OnlyTimedout (w.step e).batch := by
  cases e with
  | markTimedout id r => exact ⟨h.autocommit, h.prepare, h.abort, h.storeDecision⟩
  | observe t => exact h
  | flush drift committed => exact ⟨rfl, rfl, rfl, rfl⟩
  | autocommit | prepare | abort | commit | storeDecision | updateTimestamp => cases he

/-! ## The hand-over -/

section HandOver

variable (pid : Nat) (cleanAfter : Int) (log : List Entry)

/-- The HLC `n` is not behind a batch of the earlier leaders. -/
def Reaches (n : Nat) : Prop := ∀ e ∈ log, e.batch.maxTimestamp ≤ n
  deriving Decidable

/-- What the start sequence has to wait for. `startLeader` reads a max timestamp that
moves the HLC past all earlier batches, and until it has done so the watchdog's
commands are not stamped by an HLC that is behind them. -/
def Waits (s : NewLeader) : StartStep → Prop
  | .getMaxTimestamp =>
    Reaches log (max s.writer.clock.last (s.manager pid cleanAfter log).maxTimestamp + 1)
  | .request (.flush _ _) => s.stage = .serving ∨ s.writer.batch.markTimedout = [] ∨
    Reaches log s.writer.clock.last
  | .apply | .firstWrite _ | .updateHlc _ _ | .request _ => True

instance Waits.decidable :
    ∀ (s : NewLeader) (a : StartStep), Decidable (Waits pid cleanAfter log s a)
  | _, .getMaxTimestamp => inferInstanceAs (Decidable (Reaches _ _))
  | _, .request (.flush _ _) => inferInstanceAs (Decidable (_ ∨ _ ∨ _))
  | _, .apply | _, .firstWrite _ | _, .updateHlc _ _ => isTrue trivial
  | _, .request (.autocommit _) | _, .request (.prepare _) | _, .request (.commit _ _)
  | _, .request (.abort _) | _, .request (.storeDecision _) | _, .request (.markTimedout _ _)
  | _, .request (.updateTimestamp _) | _, .request (.observe _) => isTrue trivial

def StageReaches (s : NewLeader) : Prop :=
  match s.stage with
  | .started => True
  | .read timestamp => Reaches log (max s.writer.clock.last timestamp + 1)
  | .writing | .written _ | .failed | .serving => Reaches log s.writer.clock.last

structure HandOverInv (s : NewLeader) : Prop where
  above : ∀ ts ∈ s.assigned, ∀ e ∈ log, e.batch.maxTimestamp < ts
  reaches : StageReaches log s
  batch : s.stage ≠ .serving → OnlyTimedout s.writer.batch

variable {pid cleanAfter log}

theorem Reaches.mono {m n : Nat} (h : Reaches log m) (hle : m ≤ n) : Reaches log n :=
  fun e he => (h e he).trans hle

/-- Without a command there is nothing to stamp. -/
theorem OnlyTimedout.assigns {w : Writer} (h : OnlyTimedout w.batch)
    (hn : w.batch.markTimedout = []) (e : Event) : w.assigns e = [] := by
  rcases e.flush_or_collected with ⟨drift, committed, rfl⟩ | ⟨hnone, _⟩
  · exact (stamps_prepareBatch_eq_nil _ _ _).mpr
      ⟨h.autocommit, h.prepare, h.abort, h.storeDecision, hn⟩
  · exact hnone w

variable {s : NewLeader} {e : Event}

theorem HandOverInv.reaches_of_assigns (h : HandOverInv log s)
    (hw : Waits pid cleanAfter log s (.request e)) {ts : Nat} (hts : ts ∈ s.writer.assigns e) :
    Reaches log s.writer.clock.last := by
  by_cases hs : s.stage = .serving
  · have hr := h.reaches
    unfold StageReaches at hr
    rw [hs] at hr
    exact hr
  rcases e.flush_or_collected with ⟨drift, committed, rfl⟩ | ⟨hnone, _⟩
  · rcases hw with hw | hw | hw
    · exact absurd hw hs
    · rw [(h.batch hs).assigns hw] at hts
      cases hts
    · exact hw
  · rw [hnone] at hts
    cases hts

theorem StageReaches.request (h : StageReaches log s) (e : Event) (assigned : List Nat) :
    StageReaches log ⟨s.writer.step e, s.applied, s.stageAfter log e, assigned⟩ := by
  have hle := (s.writer.step_clock e).1
  have same : StageReaches log ⟨s.writer.step e, s.applied, s.stage, assigned⟩ := by
    unfold StageReaches at h ⊢
    cases hs : s.stage with
    | started => trivial
    | read timestamp =>
      rw [hs] at h
      exact Reaches.mono h (Nat.succ_le_succ (max_le_max_right _ hle))
    | writing | written n | failed | serving =>
      rw [hs] at h
      exact Reaches.mono h hle
  rcases e.flush_or_collected with ⟨drift, committed, rfl⟩ | ⟨_, hstage⟩
  · by_cases hs : s.stage = .writing
    · -- the first write is in this batch
      unfold StageReaches at h
      rw [hs] at h
      have hreach := Reaches.mono h hle
      cases committed with
      | some x =>
        have hafter : s.stageAfter log (.flush drift (some x)) = .written _ := if_pos hs
        rw [hafter]
        exact hreach
      | none =>
        have hafter : s.stageAfter log (.flush drift none) = .failed := if_pos hs
        rw [hafter]
        exact hreach
    · have hafter : s.stageAfter log (.flush drift committed) = s.stage := if_neg hs
      rw [hafter]
      exact same
  · rw [hstage]
    exact same

theorem serving_of_stageAfter (h : s.stage = .serving) : s.stageAfter log e = .serving := by
  rcases e.flush_or_collected with ⟨drift, committed, rfl⟩ | ⟨_, hstage⟩
  · simp [NewLeader.stageAfter, h]
  · rw [hstage, h]

theorem HandOverInv.request (h : HandOverInv log s)
    (he : s.stage = .serving ∨ e.beforeServing = true)
    (hw : Waits pid cleanAfter log s (.request e)) :
    HandOverInv log ⟨s.writer.step e, s.applied, s.stageAfter log e,
      s.assigned ++ s.writer.assigns e⟩ where
  above := by
    intro ts hts x hx
    rcases List.mem_append.mp hts with hts | hts
    · exact h.above ts hts x hx
    · have hreach := h.reaches_of_assigns hw hts x hx
      have hlt := (s.writer.step_clock e).2 ts hts
      omega
  reaches := h.reaches.request e _
  batch := by
    intro hs
    have hns : s.stage ≠ .serving := fun hserving => hs (serving_of_stageAfter hserving)
    exact (h.batch hns).step (he.resolve_left hns)

/-- **One step of the hand-over.** -/
theorem HandOverInv.step {s' : NewLeader} {a : StartStep} (h : HandOverInv log s)
    (hw : Waits pid cleanAfter log s a) (hs : s.step pid cleanAfter log a = some s') :
    HandOverInv log s' := by
  cases a with
  | apply =>
    dsimp only [NewLeader.step] at hs
    split at hs
    · cases hs
      exact ⟨h.above, h.reaches, h.batch⟩
    · cases hs
  | getMaxTimestamp =>
    dsimp only [NewLeader.step] at hs
    split at hs
    · rename_i hst
      cases hs
      exact ⟨h.above, hw, fun _ => h.batch (by simp [hst])⟩
    · cases hs
  | firstWrite drift =>
    dsimp only [NewLeader.step] at hs
    split at hs
    · rename_i hst
      cases hs
      have hb := h.batch (by simp [hst])
      have hr := h.reaches
      unfold StageReaches at hr
      rw [hst] at hr
      refine ⟨h.above, Reaches.mono hr ?_, fun _ => ⟨hb.1, hb.2, hb.3, hb.4⟩⟩
      simp only [Clock.now]
      omega
    · cases hs
  | updateHlc accepted drift =>
    have served : ∀ ts, Reaches log (max s.writer.clock.last ts + 1) →
        HandOverInv log { s with
          writer := { s.writer with clock := s.writer.clock.updateHlc ts accepted drift }
          stage := .serving } :=
      fun ts hr => ⟨h.above, Reaches.mono hr (Clock.updateHlc_le _ ts accepted drift),
        fun hne => absurd rfl hne⟩
    have hr := h.reaches
    unfold StageReaches at hr
    dsimp only [NewLeader.step] at hs
    split at hs
    · rename_i ts hst
      rw [hst] at hr
      split at hs
      · cases hs
      · cases hs
        exact served ts hr
    · rename_i n hst
      rw [hst] at hr
      split at hs
      · cases hs
        exact served 0 (Reaches.mono hr ((le_max_left _ _).trans (Nat.le_succ _)))
      · cases hs
    all_goals cases hs
  | request e =>
    dsimp only [NewLeader.step] at hs
    split at hs
    · rename_i he
      cases hs
      exact h.request he hw
    · cases hs

/-- **The new leader goes on above the log.** For every log of earlier leaders, every
HLC value and every applied prefix: when the start sequence waits, every timestamp that
`prepareBatch` assigns, also to the watchdog's commands, is above the max timestamp of
every earlier batch. -/
theorem new_leader_stamps_above (clock : Clock) (applied : Nat) (steps : List StartStep)
    (s : NewLeader)
    (hrun : runSteps (NewLeader.step pid cleanAfter log) ⟨{ clock }, applied, .started, []⟩ steps =
      some s) (hwaits : StepsMeet (NewLeader.step pid cleanAfter log) (Waits pid cleanAfter log)
      ⟨{ clock }, applied, .started, []⟩ steps) :
    ∀ ts ∈ s.assigned, ∀ e ∈ log, e.batch.maxTimestamp < ts := by
  have h₀ : HandOverInv log ⟨{ clock }, applied, .started, []⟩ :=
    ⟨by simp, trivial, fun _ => ⟨rfl, rfl, rfl, rfl⟩⟩
  exact (runSteps_invariant (NewLeader.step pid cleanAfter log) (HandOverInv log)
    (fun _ _ _ h hw hs => h.step hw hs) h₀ hwaits hrun).above

/-- The log of an earlier leader: two writes, at 2 and 5. -/
def twoWrites : List Entry :=
  logOf [.autocommit ⟨⟨1, 1, 1⟩, [⟨0, some (.upsert 16 [0] [])⟩], []⟩, .flush [] (some (1, 0)),
    .autocommit ⟨⟨1, 1, 2⟩, [⟨0, some (.upsert 16 [1] [])⟩], []⟩, .flush [2] (some (2, 0))]

/-- `startLeader` returns, and one more write is served. -/
def startAndWrite : List StartStep :=
  [.getMaxTimestamp, .updateHlc true 0,
    .request (.autocommit ⟨⟨1, 1, 3⟩, [⟨0, some (.upsert 16 [2] [])⟩], []⟩),
    .request (.flush [] (some (3, 0)))]

theorem new_leader_stamps_above_twoWrites :
    ∃ s, runSteps (NewLeader.step 1 0 twoWrites) ⟨{ clock := ⟨1, Nat.one_pos⟩ }, 2, .started, []⟩
        startAndWrite = some s ∧ s.assigned = [7] ∧
      ∀ ts ∈ s.assigned, ∀ e ∈ twoWrites, e.batch.maxTimestamp < ts := by
  have hmap : (runSteps (NewLeader.step 1 0 twoWrites)
      ⟨{ clock := ⟨1, Nat.one_pos⟩ }, 2, .started, []⟩ startAndWrite).map NewLeader.assigned =
      some [7] := by decide
  obtain ⟨s, hs, hassigned⟩ := Option.map_eq_some_iff.mp hmap
  exact ⟨s, hs, hassigned, new_leader_stamps_above _ 2 startAndWrite s hs (by decide)⟩

/-- With only the first of the two writes applied, `startLeader` moves the HLC to 3 and the
third write is stamped before the second. -/
theorem new_leader_stamps_below :
    ¬ ∀ (pid : Nat) (cleanAfter : Int) (log : List Entry) (clock : Clock) (applied : Nat)
      (steps : List StartStep) (s : NewLeader), applied ≤ log.length →
      runSteps (NewLeader.step pid cleanAfter log) ⟨{ clock }, applied, .started, []⟩ steps =
        some s → ∀ ts ∈ s.assigned, ∀ e ∈ log, e.batch.maxTimestamp < ts := by
  intro h
  have hmap : (runSteps (NewLeader.step 1 0 twoWrites)
      ⟨{ clock := ⟨1, Nat.one_pos⟩ }, 1, .started, []⟩ startAndWrite).map NewLeader.assigned =
      some [4] := by decide
  obtain ⟨s, hs, hassigned⟩ := Option.map_eq_some_iff.mp hmap
  have hall := h 1 0 twoWrites ⟨1, Nat.one_pos⟩ 1 startAndWrite s (by decide) hs
  rw [hassigned] at hall
  exact absurd hall (by decide)

-- the watchdog is stamped behind the log before the HLC is updated, also when all of
-- the log is applied
example : (runSteps (NewLeader.step 1 0 twoWrites)
    ⟨{ clock := ⟨1, Nat.one_pos⟩ }, 2, .started, []⟩
    [.request (.markTimedout ⟨1, 1, 1⟩ false), .request (.flush [] (some (3, 0)))]).map
      NewLeader.assigned = some [2] := by decide

-- a max timestamp that went back hides the batch before it
example : (logOf lateCommit).map (fun e => e.batch.maxTimestamp) = [2, 6, 2] ∧
    (runSteps (NewLeader.step 1 0 (logOf lateCommit))
      ⟨{ clock := ⟨1, Nat.one_pos⟩ }, 3, .started, []⟩ startAndWrite).map NewLeader.assigned =
        some [4] := by decide

/-! ## A barrier -/

theorem le_maxTimestamp_of_advances {s₀ : Manager × Store} {pre post : List Entry}
    (h : MaxTimestampAdvances s₀ (pre ++ post)) :
    ∀ e ∈ pre, e.batch.maxTimestamp ≤ (applyLog s₀ pre).1.1.maxTimestamp := by
  induction pre using List.reverseRecOn generalizing post with
  | nil => simp
  | append_singleton pre x ih =>
    rw [List.append_assoc] at h
    have hup := (h pre x post rfl).1
    intro e he
    rcases List.mem_append.mp he with he | he
    · exact (ih h e he).trans hup
    · rw [List.mem_singleton.mp he, applyLog_snoc, applyEntry_maxTimestamp]

/-- **A barrier is enough for `startLeader`** as long as no batch took the max
timestamp back: once the entries of the earlier leaders are applied, the value
that it reads reaches all of them. -/
theorem barrier_waits (happlied : log.length ≤ s.applied)
    (hadv : MaxTimestampAdvances (newPartition pid cleanAfter) (log ++ s.writer.log)) :
    Waits pid cleanAfter log s .getMaxTimestamp := by
  intro e he
  rw [← List.take_append_drop s.applied (log ++ s.writer.log)] at hadv
  refine (le_maxTimestamp_of_advances hadv e ?_).trans
    ((le_max_right _ _).trans (Nat.le_succ _))
  rw [List.take_append, List.take_of_length_le happlied]
  exact List.mem_append.mpr (.inl he)

end HandOver

end Scout.Txn
