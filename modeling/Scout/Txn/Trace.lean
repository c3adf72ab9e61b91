import Scout.Txn.Snapshot

/-!
The run of a replica command by command. A log is cut into micro-steps: one for
each command of each batch, in the order `ApplyBatch` takes them, and one for the
tail of the batch. What a micro-step can do to the record of a txn is said once
(`MicroStep.Valid`), and what holds along whole runs follows by induction over
the trace.
-/

namespace Scout.Txn

open Data Mvcc Lib

/-! ## Traces -/

/-- A command with its outcome, or the tail of a batch (`exec = none`). -/
structure MicroStep where
  before : Manager
  after : Manager
  exec : Option (Cmd × Outcome) := none

def MicroStep.writes (x : MicroStep) : List Record :=
  match x.exec with
  | some (_, o) => o.writes
  | none => []

def cmdTrace (db : Store) (m : Manager) : List Cmd → List MicroStep
  | [] => []
  | c :: cs =>
    { before := m, after := (m.applyCmd db c).1, exec := some (c, (m.applyCmd db c).2) } ::
      cmdTrace db (m.applyCmd db c).1 cs

def entryTrace (s : Manager × Store) (e : Entry) : List MicroStep :=
  cmdTrace s.2 s.1 (batchCmds e.batch) ++
    [{ before := (s.1.runCmds s.2 (batchCmds e.batch)).1, after := (applyEntry s e).1.1 }]

def logTrace (s : Manager × Store) : List Entry → List MicroStep
  | [] => []
  | e :: es => entryTrace s e ++ logTrace (applyEntry s e).1 es

theorem cmdTrace_append (db : Store) (m : Manager) (cs ds : List Cmd) :
    cmdTrace db m (cs ++ ds) = cmdTrace db m cs ++ cmdTrace db (m.runCmds db cs).1 ds := by
  induction cs generalizing m with
  | nil => rfl
  | cons c cs ih => rw [List.cons_append, cmdTrace, ih, cmdTrace, runCmds_cons]; rfl

variable {s : Manager × Store} {x : MicroStep} {c : Cmd} {o : Outcome}

theorem mem_entryTrace {e : Entry} (hx : x ∈ entryTrace s e) (he : x.exec = some (c, o)) :
    c ∈ batchCmds e.batch := by
  have key : ∀ cs m, x ∈ cmdTrace s.2 m cs → c ∈ cs := by
    intro cs
    induction cs with
    | nil => intro m hx; cases hx
    | cons d cs ih =>
      intro m hx
      rcases List.mem_cons.mp hx with rfl | hx
      · cases he
        exact List.mem_cons_self
      · exact List.mem_cons_of_mem _ (ih _ hx)
  rcases List.mem_append.mp hx with hx | hx
  · exact key _ _ hx
  · rw [List.mem_singleton.mp hx] at he
    cases he

theorem cmdTrace_writes (db : Store) (m : Manager) (cs : List Cmd) :
    (cmdTrace db m cs).flatMap MicroStep.writes = (m.runCmds db cs).2.flatMap Outcome.writes := by
  induction cs generalizing m with
  | nil => rfl
  | cons c cs ih => rw [cmdTrace, List.flatMap_cons, ih, runCmds_cons, List.flatMap_cons]; rfl

theorem entryTrace_writes (s : Manager × Store) (e : Entry) :
    (entryTrace s e).flatMap MicroStep.writes = entryWrites s e := by
  rw [entryTrace, List.flatMap_append, cmdTrace_writes]
  exact List.append_nil _

theorem logTrace_writes (s : Manager × Store) (es : List Entry) :
    (logTrace s es).flatMap MicroStep.writes = logWrites s es := by
  induction es generalizing s with
  | nil => rfl
  | cons e es ih => rw [logTrace, List.flatMap_append, entryTrace_writes, ih, logWrites]

/-! ## What a micro-step is -/

/-- What every micro-step keeps of the manager, inside a batch as well. -/
structure Kept (m : Manager) : Prop where
  coherent : Coherent m
  plain : ∀ id, Plain (m.status.lookup id) (m.prepared.lookup id)

variable {m : Manager}

theorem Sound.kept (h : Sound m) : Kept m := ⟨h.coherent, h.plain⟩

theorem Kept.runCmds (h : Kept m) (db : Store) (cs : List Cmd) :
    Kept (m.runCmds db cs).1 := ⟨h.coherent.runCmds db cs, plain_runCmds h.plain db cs⟩

theorem Kept.entry (h : Kept s.1) (e : Entry) : Kept (applyEntry s e).1.1 := by
  refine ⟨h.coherent.entry e, ?_⟩
  rw [applyEntry_manager]
  exact plain_finish (h.runCmds s.2 _).plain _ _ _

inductive MicroStep.Valid : MicroStep → Prop
  | cmd (db : Store) (m : Manager) (c : Cmd) (hm : Kept m) :
      Valid ⟨m, (m.applyCmd db c).1, some (c, (m.applyCmd db c).2)⟩
  | tail (m : Manager) (os : List Outcome) (t : Nat) (now : Int) (hm : Kept m)
      (hf : ∀ id ∈ os.filterMap Outcome.completion,
        ∃ s, m.status.lookup id = some s ∧ s.state = .committed) :
      Valid ⟨m, m.finish os t now, none⟩

def endState (m : Manager) (l : List MicroStep) : Manager :=
  l.foldl (fun _ x => x.after) m

/-- Valid micro-steps, each from the state that the one before it left. -/
def Linked (m : Manager) : List MicroStep → Prop
  | [] => True
  | x :: l => x.before = m ∧ x.Valid ∧ Linked x.after l

variable {l : List MicroStep}

theorem linked_append {r : List MicroStep} :
    Linked m (l ++ r) ↔ Linked m l ∧ Linked (endState m l) r := by
  induction l generalizing m with
  | nil => simp [Linked, endState]
  | cons x l ih =>
    simp only [List.cons_append, Linked, ih, endState, List.foldl_cons, and_assoc]

theorem endState_append (m : Manager) (l r : List MicroStep) :
    endState m (l ++ r) = endState (endState m l) r := List.foldl_append

theorem cmdTrace_linked (h : Kept m) (db : Store) (cs : List Cmd) :
    Linked m (cmdTrace db m cs) ∧ endState m (cmdTrace db m cs) = (m.runCmds db cs).1 := by
  induction cs generalizing m with
  | nil => exact ⟨trivial, rfl⟩
  | cons c cs ih =>
    obtain ⟨h1, h2⟩ := ih (m := (m.applyCmd db c).1) (h.runCmds db [c])
    exact ⟨⟨rfl, .cmd db m c h, h1⟩, h2⟩

theorem entryTrace_linked (h : Kept s.1) (e : Entry) :
    Linked s.1 (entryTrace s e) ∧ endState s.1 (entryTrace s e) = (applyEntry s e).1.1 := by
  obtain ⟨h1, h2⟩ := cmdTrace_linked h s.2 (batchCmds e.batch)
  have htail : MicroStep.Valid ⟨(s.1.runCmds s.2 (batchCmds e.batch)).1,
      (applyEntry s e).1.1, none⟩ := by
    rw [applyEntry_manager]
    exact .tail _ _ _ _ (h.runCmds s.2 _) (runCmds_completion_final s.1 s.2 _)
  rw [entryTrace, linked_append, endState_append, h2]
  exact ⟨⟨h1, rfl, htail, trivial⟩, rfl⟩

/-- **The trace of a log** is linked and ends where the log ends. -/
theorem logTrace_linked (h : Kept s.1) (es : List Entry) :
    Linked s.1 (logTrace s es) ∧ endState s.1 (logTrace s es) = (applyLog s es).1.1 := by
  induction es generalizing s with
  | nil => exact ⟨trivial, rfl⟩
  | cons e es ih =>
    obtain ⟨h1, h2⟩ := entryTrace_linked h e
    obtain ⟨i1, i2⟩ := ih (h.entry e)
    rw [logTrace, linked_append, endState_append, h2]
    exact ⟨⟨h1, i1⟩, i2⟩

theorem Linked.valid (h : Linked m l) : ∀ x ∈ l, x.Valid := by
  induction l generalizing m with
  | nil => intro x hx; cases hx
  | cons y l ih =>
    intro x hx
    rcases List.mem_cons.mp hx with rfl | hx
    · exact h.2.1
    · exact ih h.2.2 x hx

/-- **Run rule.** What every micro-step of the trace preserves holds at its end. -/
theorem Linked.invariant (h : Linked m l) (I : Manager → Prop) (h₀ : I m)
    (hstep : ∀ x ∈ l, x.Valid → I x.before → I x.after) : I (endState m l) := by
  induction l generalizing m with
  | nil => exact h₀
  | cons x l ih =>
    obtain ⟨rfl, hx, hl⟩ := h
    have h₁ : I x.after := hstep x (by simp) hx h₀
    exact ih hl h₁ (fun y hy => hstep y (by simp [hy]))

/-! ## What a micro-step does to a record -/

/-- The moves of the status of a txn, with the commands that make them. -/
inductive StatusMove : Option State → Cmd → State → Prop
  | autocommit (c : Autocommit) : StatusMove none (.autocommit c) .committed
  | prepare (c : Prepare) : StatusMove none (.prepare c) .prepared
  | decide (c : StoreDecision) : StatusMove (some .prepared) (.storeDecision c) .decided
  | commit (c : Commit) : StatusMove (some .prepared) (.commit c) .committed
  | commitDecided (c : Commit) : StatusMove (some .decided) (.commit c) .committed
  | abort (c : Abort) : StatusMove (some .prepared) (.abort c) .aborted
  | timeout (c : MarkTimedout) : StatusMove (some .prepared) (.markTimedout c) .timedout

/-- `cleanup` drops the txn in this step. -/
def MicroStep.forgets (x : MicroStep) (id : TxnId) : Bool :=
  (x.before.status.lookup id).isSome && (x.after.status.lookup id).isNone

def Manager.isCommitted (m : Manager) (id : TxnId) : Bool :=
  (m.status.lookup id).any fun s => s.state == .committed

variable {id : TxnId}

theorem isCommitted_iff : m.isCommitted id = true ↔
    ∃ s, m.status.lookup id = some s ∧ s.state = .committed := by
  unfold Manager.isCommitted
  cases m.status.lookup id <;> simp

def MicroStep.enters (x : MicroStep) (id : TxnId) : Bool :=
  !x.before.isCommitted id && x.after.isCommitted id

variable {db : Store} {m' : Manager}

theorem Change.status_move (h : Change db m c m' o) : m'.status.lookup c.id = m.status.lookup c.id ∨
    ∃ s, m'.status.lookup c.id = some s ∧
      StatusMove ((m.status.lookup c.id).map TxnStatus.state) c s.state := by
  cases h with
  | idle => exact .inl rfl
  | release => exact .inl rfl
  | autocommit c hn =>
    refine .inr ⟨_, AList.lookup_insert _, ?_⟩
    rw [Cmd.id, hn]
    exact .autocommit c
  | prepare c hn =>
    refine .inr ⟨_, AList.lookup_insert _, ?_⟩
    rw [Cmd.id, hn]
    exact .prepare c
  | commit c s p hs hp hg =>
    refine .inr ⟨_, AList.lookup_insert _, ?_⟩
    rw [Cmd.id, hs, Option.map_some]
    rcases hg with ⟨hst, _⟩ | ⟨hst, _⟩
    · rw [hst]
      exact .commit c
    · rw [hst]
      exact .commitDecided c
  | abort c s p hs hp hst =>
    refine .inr ⟨_, AList.lookup_insert _, ?_⟩
    rw [Cmd.id, hs, Option.map_some, hst]
    exact .abort c
  | storeDecision c s p hs hp hpid hst =>
    refine .inr ⟨_, AList.lookup_insert _, ?_⟩
    rw [Cmd.id, hs, Option.map_some, hst]
    exact .decide c
  | markTimedout c s p hs hp hpid hst =>
    refine .inr ⟨_, AList.lookup_insert _, ?_⟩
    rw [Cmd.id, hs, Option.map_some, hst]
    exact .timeout c

theorem finish_status (m : Manager) (os : List Outcome) (t : Nat) (now : Int) (id : TxnId) :
    (m.finish os t now).status.lookup id = m.status.lookup id ∨
      (m.finish os t now).status.lookup id = none := by
  rw [Manager.finish, cleanup_status]
  split
  · exact .inr rfl
  · rw [(releaseAll_rest _ _).1]
    exact .inl rfl

/-- **Status.** A micro-step keeps the status of a txn, moves it by a command of
the txn, or is a tail that forgets it. -/
theorem MicroStep.Valid.status (h : x.Valid) (id : TxnId) :
    x.after.status.lookup id = x.before.status.lookup id ∨
    (∃ c o s, x.exec = some (c, o) ∧ c.id = id ∧ x.after.status.lookup id = some s ∧
      StatusMove ((x.before.status.lookup id).map TxnStatus.state) c s.state) ∨
    (x.exec = none ∧ x.forgets id = true) := by
  cases h with
  | cmd db m c hm =>
    have hch := applyCmd_change db m c
    by_cases hid : id = c.id
    · subst hid
      rcases hch.status_move with he | ⟨s, hs, hmove⟩
      · exact .inl he
      · exact .inr (.inl ⟨c, _, s, rfl, rfl, hs, hmove⟩)
    · exact .inl (hch.frame hid).1
  | tail m os t now hm hf =>
    rcases finish_status m os t now id with he | he
    · exact .inl he
    · cases hb : m.status.lookup id with
      | none => exact .inl he
      | some s => exact .inr (.inr ⟨rfl, by simp [MicroStep.forgets, hb, he]⟩)

theorem StatusMove.not_final {s t : State} (h : StatusMove (some s) c t) : s.isFinal = false := by
  cases h <;> rfl

theorem MicroStep.Valid.final_stays (h : x.Valid) {s : TxnStatus}
    (hs : x.before.status.lookup id = some s) (hf : s.state.isFinal = true)
    (hk : x.forgets id = false) : x.after.status.lookup id = some s := by
  rcases h.status id with he | ⟨c, o, s', _, _, _, hmove⟩ | ⟨_, hforget⟩
  · rw [he, hs]
  · rw [hs, Option.map_some] at hmove
    rw [hmove.not_final] at hf
    cases hf
  · rw [hforget] at hk
    cases hk

/-- The entry of a txn is never exchanged for another: its locks may be released
and a decision may be added to it. -/
structure EntryStays (p q : Prepared) : Prop where
  txn : q.txn = p.txn
  timestamp : q.timestamp = p.timestamp
  released : p.locksReleased = true → q.locksReleased = true
  decision : ∀ d, p.decision = some d → q.decision = some d

theorem EntryStays.refl (p : Prepared) : EntryStays p p := ⟨rfl, rfl, id, fun _ => id⟩

theorem EntryStays.release (p : Prepared) : EntryStays p p.releaseLocks :=
  ⟨rfl, rfl, fun _ => rfl, fun _ => id⟩

theorem Change.entry_stays (hm : Kept m) (h : Change db m c m' o) {p : Prepared}
    (hp : m.prepared.lookup c.id = some p) :
    ∃ q, m'.prepared.lookup c.id = some q ∧ EntryStays p q := by
  cases h with
  | idle => exact ⟨p, hp, .refl p⟩
  | autocommit c => exact ⟨p, hp, .refl p⟩
  | prepare c hn =>
    -- a txn with an entry has a status
    obtain ⟨y, hy⟩ := (hm.coherent.record _).has_status p hp
    rw [Cmd.id, hn] at hy
    cases hy
  | commit c => exact ⟨p, hp, .refl p⟩
  | abort c s q hs hq =>
    rw [Cmd.id, hq] at hp
    cases hp
    exact ⟨_, AList.lookup_insert _, .release _⟩
  | storeDecision c s q hs hq hpid hst =>
    rw [Cmd.id, hq] at hp
    cases hp
    refine ⟨_, AList.lookup_insert _, rfl, rfl, id, ?_⟩
    intro d hd
    rw [(hm.plain _).undecided _ s hq hs hst] at hd
    cases hd
  | markTimedout c => exact ⟨p, hp, .refl p⟩
  | release c s q hs hq =>
    rw [Cmd.id, hq] at hp
    cases hp
    exact ⟨_, AList.lookup_insert _, .release _⟩

theorem MicroStep.Valid.entry_stays (h : x.Valid) {p : Prepared}
    (hp : x.before.prepared.lookup id = some p) (hk : x.forgets id = false) :
    ∃ q, x.after.prepared.lookup id = some q ∧ EntryStays p q := by
  cases h with
  | cmd db m c hm =>
    have hch := applyCmd_change db m c
    by_cases hid : id = c.id
    · subst hid
      exact hch.entry_stays hm hp
    · exact ⟨p, (hch.frame hid).2.trans hp, .refl p⟩
  | tail m os t now hm hf =>
    obtain ⟨s, hs⟩ := (hm.coherent.record id).has_status p hp
    simp only [MicroStep.forgets, hs, Option.isSome_some, Bool.true_and] at hk
    rw [Manager.finish, cleanup_status] at hk
    rw [Manager.finish, cleanup_prepared]
    split
    · rename_i hforget
      rw [if_pos hforget] at hk
      cases hk
    · dsimp only
      rw [releaseAll_prepared, hp]
      split
      · exact ⟨_, rfl, .release p⟩
      · exact ⟨p, rfl, .refl p⟩

/-! ## Decisions -/

def MicroStep.Stores (x : MicroStep) (id : TxnId) (d : Decision) : Prop :=
  ∃ c o p q, x.exec = some (.storeDecision c, o) ∧ c.decision = d ∧ d.id = id ∧
    x.before.prepared.lookup id = some p ∧ p.decision = none ∧
    x.after.prepared.lookup id = some q ∧ q.decision = some d

variable {q : Prepared} {d : Decision}

theorem Change.decision_source (hm : Kept m) (h : Change db m c m' o)
    (hq : m'.prepared.lookup c.id = some q) (hd : q.decision = some d) :
    (∃ p, m.prepared.lookup c.id = some p ∧ p.decision = some d) ∨
      MicroStep.Stores ⟨m, m', some (c, o)⟩ c.id d := by
  cases h with
  | idle => exact .inl ⟨q, hq, hd⟩
  | autocommit c => exact .inl ⟨q, hq, hd⟩
  | prepare c =>
    simp only [Cmd.id, AList.lookup_insert, Option.some.injEq] at hq
    subst hq
    cases hd
  | commit c => exact .inl ⟨q, hq, hd⟩
  | abort c s p hs hp =>
    simp only [Cmd.id, AList.lookup_insert, Option.some.injEq] at hq
    subst hq
    exact .inl ⟨p, hp, hd⟩
  | storeDecision c s p hs hp hpid hst =>
    have hnew := hq
    simp only [Cmd.id, AList.lookup_insert, Option.some.injEq] at hq
    subst hq
    cases hd
    have hnone := (hm.plain _).undecided p s hp hs hst
    exact .inr ⟨c, _, p, _, rfl, rfl, rfl, hp, hnone, hnew, rfl⟩
  | markTimedout c => exact .inl ⟨q, hq, hd⟩
  | release c s p hs hp =>
    simp only [Cmd.id, AList.lookup_insert, Option.some.injEq] at hq
    subst hq
    exact .inl ⟨p, hp, hd⟩

theorem MicroStep.Valid.decision_source (h : x.Valid) (hq : x.after.prepared.lookup id = some q)
    (hd : q.decision = some d) :
    (∃ p, x.before.prepared.lookup id = some p ∧ p.decision = some d) ∨ x.Stores id d := by
  cases h with
  | cmd db m c hm =>
    have hch := applyCmd_change db m c
    by_cases hid : id = c.id
    · subst hid
      exact hch.decision_source hm hq hd
    · exact .inl ⟨q, (hch.frame hid).2.symm.trans hq, hd⟩
  | tail m os t now hm hf =>
    refine .inl ?_
    dsimp only at hq ⊢
    rw [Manager.finish, cleanup_prepared] at hq
    split at hq
    · cases hq
    dsimp only at hq
    rw [releaseAll_prepared] at hq
    split at hq
    · obtain ⟨p, hp, rfl⟩ := Option.map_eq_some_iff.mp hq
      exact ⟨p, hp, hd⟩
    · exact ⟨q, hq, hd⟩

/-- A decision that is kept at the end of a run was kept at its start or stored
in one of its steps. -/
theorem Linked.decision_source (h : Linked m l) (hq : (endState m l).prepared.lookup id = some q)
    (hd : q.decision = some d) :
    (∃ p, m.prepared.lookup id = some p ∧ p.decision = some d) ∨ ∃ x ∈ l, x.Stores id d := by
  induction l generalizing m with
  | nil => exact .inl ⟨q, hq, hd⟩
  | cons x l ih =>
    obtain ⟨rfl, hx, hl⟩ := h
    rcases ih hl hq with ⟨p, hp, hpd⟩ | ⟨y, hy, hst⟩
    · rcases hx.decision_source hp hpd with hold | hst
      · exact .inl hold
      · exact .inr ⟨x, by simp, hst⟩
    · exact .inr ⟨y, by simp [hy], hst⟩

/-! ## Writes -/

def Manager.committing (m : Manager) : Cmd → Option Txn
  | .autocommit c => some c.txn
  | .commit c => (m.prepared.lookup c.id).map Prepared.txn
  | _ => none

/-- **Writes.** A command writes exactly when its txn becomes committed, and then
all records of the txn, at the timestamp of the new status. -/
theorem MicroStep.Valid.writes (h : x.Valid) (hx : x.exec = some (c, o)) :
    (x.enters c.id = true → ∃ s txn, x.after.status.lookup c.id = some s ∧
      x.before.committing c = some txn ∧ txn.id = c.id ∧
      o.writes = buildWriteRecords s.timestamp txn) ∧ (x.enters c.id = false → o.writes = []) := by
  cases h with
  | tail => cases hx
  | cmd db m c' hm =>
    simp only [Option.some.injEq, Prod.mk.injEq] at hx
    obtain ⟨rfl, rfl⟩ := hx
    have hch := applyCmd_change db m c'
    have stays : ∀ n : Manager, n.status.lookup c'.id = m.status.lookup c'.id →
        (!m.isCommitted c'.id && n.isCommitted c'.id) ≠ true := by
      intro n hn
      simp [Manager.isCommitted, hn]
    unfold MicroStep.enters
    generalize (m.applyCmd db c').1 = m', (m.applyCmd db c').2 = o at hch
    cases hch with
    | idle c r => exact ⟨fun he => absurd he (stays m rfl), fun _ => rfl⟩
    | autocommit c hn =>
      refine ⟨fun _ => ⟨_, c.txn, AList.lookup_insert _, rfl, rfl, rfl⟩, fun he => ?_⟩
      simp [Manager.isCommitted, Cmd.id, hn, newStatus] at he
    | prepare c => exact ⟨fun he => by simp [Manager.isCommitted, Cmd.id, newStatus] at he,
        fun _ => rfl⟩
    | commit c s p hs hp hg =>
      refine ⟨fun _ => ⟨_, p.txn, AList.lookup_insert _, ?_, ?_, rfl⟩, fun he => ?_⟩
      · rw [Manager.committing, hp]
        rfl
      · exact (hm.coherent.record c.id).txn_id p hp
      · rcases hg with ⟨hst, _⟩ | ⟨hst, _⟩ <;>
          simp [Manager.isCommitted, Cmd.id, hs, hst, committedStatus, newStatus] at he
    | abort c => exact ⟨fun he => by simp [Manager.isCommitted, Cmd.id, newStatus] at he,
        fun _ => rfl⟩
    | storeDecision c => exact ⟨fun he => by simp [Manager.isCommitted, Cmd.id, newStatus] at he,
        fun _ => rfl⟩
    | markTimedout c => exact ⟨fun he => by simp [Manager.isCommitted, Cmd.id, newStatus] at he,
        fun _ => rfl⟩
    | release c s p => exact ⟨fun he => absurd he (stays _ rfl), fun _ => rfl⟩

/-- A step that commits the txn by a `Commit`: the txn was prepared, not after the
commit timestamp. -/
structure CommitsAt (x : MicroStep) (id : TxnId) (c : Commit) (p : Prepared) : Prop where
  exec : ∃ o, x.exec = some (.commit c, o)
  id_eq : c.id = id
  entry : x.before.prepared.lookup id = some p
  status : x.after.status.lookup id = some (committedStatus c p)
  le : p.timestamp ≤ c.timestamp

theorem MicroStep.Valid.commitsAt (h : x.Valid) (he : x.enters id = true) :
    (∃ c o, x.exec = some (.autocommit c, o) ∧ c.txn.id = id) ∨ ∃ c p, CommitsAt x id c p := by
  obtain ⟨hb, ha⟩ := Bool.and_eq_true_iff.mp he
  have same : ¬x.after.status.lookup id = x.before.status.lookup id := by
    intro e
    rw [Manager.isCommitted, e, ← Manager.isCommitted] at ha
    rw [ha] at hb
    cases hb
  rcases h.status id with e | ⟨c, o, s, hx, rfl, hs, _⟩ | ⟨_, hforget⟩
  · exact absurd e same
  · obtain ⟨s', hs', hst⟩ := isCommitted_iff.mp ha
    cases hs.symm.trans hs'
    cases h with
    | tail => cases hx
    | cmd db m c' hm =>
      simp only [Option.some.injEq, Prod.mk.injEq] at hx
      obtain ⟨rfl, rfl⟩ := hx
      have hch := applyCmd_change db m c'
      generalize (m.applyCmd db c').1 = m', (m.applyCmd db c').2 = o at hch same hs
      cases hch with
      | idle => exact absurd rfl same
      | release => exact absurd rfl same
      | autocommit c => exact .inl ⟨c, _, rfl, rfl⟩
      | commit c s₀ p hs₀ hp hg =>
        refine .inr ⟨c, p, ⟨_, rfl⟩, rfl, hp, AList.lookup_insert _, ?_⟩
        exact (hg.le hm.coherent hs₀ hp).2
      | _ =>
        simp only [Cmd.id, AList.lookup_insert, Option.some.injEq] at hs
        subst hs
        cases hst
  · obtain ⟨s, hs, _⟩ := isCommitted_iff.mp ha
    rw [MicroStep.forgets, hs] at hforget
    simp at hforget

/-- As long as the txn is not forgotten, it is committed once and for all. -/
theorem Linked.enters_once (h : Linked m l) (id : TxnId) (hk : ∀ x ∈ l, x.forgets id = false) :
    (m.isCommitted id).toNat + l.countP (fun x => x.enters id) =
      ((endState m l).isCommitted id).toNat := by
  induction l generalizing m with
  | nil => rfl
  | cons x l ih =>
    obtain ⟨rfl, hx, hl⟩ := h
    have ih := ih hl (fun y hy => hk y (by simp [hy]))
    have stays : x.before.isCommitted id = true → x.after.isCommitted id = true := by
      intro hc
      obtain ⟨s, hs, hst⟩ := isCommitted_iff.mp hc
      have hf : s.state.isFinal = true := by
        rw [hst]
        rfl
      exact isCommitted_iff.mpr ⟨s, hx.final_stays hs hf (hk x (by simp)), hst⟩
    have hend : endState x.before (x :: l) = endState x.after l := rfl
    rw [List.countP_cons, hend, ← ih]
    unfold MicroStep.enters
    cases hb : x.before.isCommitted id with
    | true => simp [stays hb]
    | false =>
      cases x.after.isCommitted id with
      | true => simp [Nat.add_comm]
      | false => simp

/-! ## The status machine -/

structure RecordStep (x : MicroStep) (id : TxnId) : Prop where
  status : x.after.status.lookup id = x.before.status.lookup id ∨
    (∃ c o s, x.exec = some (c, o) ∧ c.id = id ∧ x.after.status.lookup id = some s ∧
      StatusMove ((x.before.status.lookup id).map TxnStatus.state) c s.state) ∨
    (x.exec = none ∧ x.forgets id = true)
  final : ∀ s, x.before.status.lookup id = some s → s.state.isFinal = true →
    x.forgets id = false → x.after.status.lookup id = some s
  decision : ∀ p d, x.before.prepared.lookup id = some p → p.decision = some d →
    x.forgets id = false → ∃ q, x.after.prepared.lookup id = some q ∧ q.decision = some d
  writes : ∀ c o, x.exec = some (c, o) →
    (x.enters c.id = true → ∃ s txn, x.after.status.lookup c.id = some s ∧
      x.before.committing c = some txn ∧ txn.id = c.id ∧
      o.writes = buildWriteRecords s.timestamp txn) ∧
    (x.enters c.id = false → o.writes = [])

theorem MicroStep.Valid.recordStep (h : x.Valid) (id : TxnId) : RecordStep x id where
  status := h.status id
  final := fun _ hs hf hk => h.final_stays hs hf hk
  decision := by
    intro p d hp hd hk
    obtain ⟨q, hq, hs⟩ := h.entry_stays hp hk
    exact ⟨q, hq, hs.decision d hd⟩
  writes := fun _ _ hx => h.writes hx

/-- **The status machine of a txn**, along every run of batches from every
reachable state: each step of the run keeps to `RecordStep`; in every part of the
run in which the txn is not forgotten it becomes committed at most once, namely
if it is committed at the end of the part and was not at its start; and the store
holds exactly the records that the steps wrote. -/
theorem txn_status_machine {pid : Nat} {s : Manager × Store} (hs : Reachable pid s.1)
    (es : List Entry) (id : TxnId) : (∀ x ∈ logTrace s es, RecordStep x id) ∧
    (∀ l part r, logTrace s es = l ++ (part ++ r) → (∀ x ∈ part, x.forgets id = false) →
      ((endState s.1 l).isCommitted id).toNat + part.countP (fun x => x.enters id) =
        ((endState s.1 (l ++ part)).isCommitted id).toNat) ∧
    endState s.1 (logTrace s es) = (applyLog s es).1.1 ∧
    (applyLog s es).1.2.records = overwriteAll Record.address Record.timestamp s.2.records
      ((logTrace s es).flatMap MicroStep.writes) := by
  obtain ⟨hl, hend⟩ := logTrace_linked hs.sound.kept es
  refine ⟨fun x hx => (hl.valid x hx).recordStep id, ?_, hend, ?_⟩
  · intro l part r he hk
    rw [he, linked_append, linked_append] at hl
    rw [endState_append]
    exact hl.2.1.enters_once id hk
  · rw [logTrace_writes, applyLog_records]

/-- A txn is prepared, and its commit comes twice in one batch and again in the
next one. -/
def repeatedCommit : List Entry :=
  [⟨1, 0, { prepare := [⟨2, ⟨⟨1, 1, 1⟩, [⟨0, some (.upsert 16 [0] [])⟩], [1, 2]⟩⟩],
            maxTimestamp := 2 }⟩,
    ⟨2, 0, { commit := [⟨3, ⟨1, 1, 1⟩⟩, ⟨3, ⟨1, 1, 1⟩⟩], maxTimestamp := 3 }⟩,
    ⟨3, 0, { commit := [⟨3, ⟨1, 1, 1⟩⟩], maxTimestamp := 3 }⟩]

theorem txn_status_machine_repeatedCommit :
    (∀ x ∈ logTrace (newPartition 1 0) repeatedCommit, x.forgets ⟨1, 1, 1⟩ = false) ∧
    (logTrace (newPartition 1 0) repeatedCommit).countP (fun x => x.enters ⟨1, 1, 1⟩) = 1 := by
  have hk : ∀ x ∈ logTrace (newPartition 1 0) repeatedCommit, x.forgets ⟨1, 1, 1⟩ = false := by
    decide
  have hs : Reachable 1 (newPartition 1 0).1 := .new 0
  have h := (txn_status_machine hs repeatedCommit ⟨1, 1, 1⟩).2.1 [] _ [] (by simp) hk
  have h₀ : ((endState (newPartition 1 0).1 []).isCommitted ⟨1, 1, 1⟩).toNat = 0 := by decide
  have h₁ : ((endState (newPartition 1 0).1
      ([] ++ logTrace (newPartition 1 0) repeatedCommit)).isCommitted ⟨1, 1, 1⟩).toNat = 1 := by
    decide
  rw [h₀, h₁, Nat.zero_add] at h
  exact ⟨hk, h⟩

end Scout.Txn
