import Scout.Txn.Coherent
import Scout.Txn.Watchdog

/-!
The leader of the principal partition: the state machine, the `Service` calls
that report each applied status to the watchdog, and the watchdog's main loop.
A record handed to a resolver carries the participants only if it was reported
by `Prepare`: `getRunning` reads them from the status, where they are set by the
commit, and the report after `StoreDecision` has none.
-/

namespace Scout.Txn

open Data Mvcc Lib

/-! ## Statuses and participants -/

/-- Participants are recorded in committed statuses only, and between batches a
committed txn holds no locks. -/
structure PidsRecorded (m : Manager) : Prop where
  none_open : ∀ id s, m.status.lookup id = some s → s.state ≠ .committed → s.participantPids = []
  released : ∀ id s p, m.status.lookup id = some s → s.state = .committed →
    m.prepared.lookup id = some p → p.locksReleased = true

/-- The same inside a batch, where the committed txns are still to release their
locks. -/
structure PidsPending (m : Manager) (os : List Outcome) : Prop where
  coherent : Coherent m
  none_open : ∀ id s, m.status.lookup id = some s → s.state ≠ .committed → s.participantPids = []
  released : ∀ id s p, m.status.lookup id = some s → s.state = .committed →
    m.prepared.lookup id = some p →
    p.locksReleased = true ∨ id ∈ os.filterMap Outcome.completion

variable {m : Manager} {db : Store} {m' : Manager} {c : Cmd} {o : Outcome}

theorem PidsPending.step {os : List Outcome} (h : PidsPending m os) (hch : Change db m c m' o) :
    PidsPending m' (os ++ [o]) := by
  have grow : ∀ id, id ∈ os.filterMap Outcome.completion →
      id ∈ (os ++ [o]).filterMap Outcome.completion := by
    intro id hid
    rw [List.filterMap_append]
    exact List.mem_append.mpr (.inl hid)
  have old : ∀ id s p, m.status.lookup id = some s → s.state = .committed →
      m.prepared.lookup id = some p →
      p.locksReleased = true ∨ id ∈ (os ++ [o]).filterMap Outcome.completion :=
    fun id s p hs hst hp => (h.released id s p hs hst hp).imp_right (grow id)
  refine ⟨h.coherent.step hch, ?_, ?_⟩
  · intro id s hs hst
    by_cases hid : id = c.id
    · subst hid
      cases hch with
      | idle => exact h.none_open _ s hs hst
      | release => exact h.none_open _ s hs hst
      | _ =>
        simp only [Cmd.id, AList.lookup_insert, Option.some.injEq] at hs
        subst hs
        first
          | rfl
          | exact absurd rfl hst
    · rw [(hch.frame hid).1] at hs
      exact h.none_open id s hs hst
  · intro id s p hs hst hp
    by_cases hid : id = c.id
    · subst hid
      cases hch with
      | idle => exact old _ s p hs hst hp
      | autocommit c hn =>
        -- a txn without status has no entry either
        obtain ⟨y, hy⟩ := (h.coherent.record _).has_status p hp
        rw [Cmd.id, hn] at hy
        cases hy
      | commit c =>
        refine .inr ?_
        rw [List.filterMap_append]
        exact List.mem_append.mpr (.inr (by simp [Cmd.id]))
      | release c s' q hs' _ _ hst' =>
        simp only [Cmd.id] at hs
        rw [hs'] at hs
        cases hs
        rw [hst'] at hst
        cases hst
      | _ =>
        simp only [Cmd.id, AList.lookup_insert, Option.some.injEq] at hs
        subst hs
        cases hst
    · obtain ⟨h1, h2⟩ := hch.frame hid
      rw [h1] at hs
      rw [h2] at hp
      exact old id s p hs hst hp

variable {s : Manager × Store}

theorem PidsRecorded.entry (hm : Coherent s.1) (h : PidsRecorded s.1) (e : Entry) :
    PidsRecorded (applyEntry s e).1.1 := by
  have hr := loop_invariant (Manager.applyCmd s.2) PidsPending (batchCmds e.batch) s.1 []
    ⟨hm, h.none_open, fun id st p hs hst hp => .inl (h.released id st p hs hst hp)⟩
    (fun m os c _ ih => ih.step (applyCmd_change s.2 m c))
  rw [List.nil_append] at hr
  refine ⟨fun id st hs hst => hr.none_open id st (applyEntry_status hs) hst, ?_⟩
  intro id st p hs hst hp
  rw [applyEntry_manager, Manager.finish, cleanup_prepared] at hp
  split at hp
  · cases hp
  rw [releaseAll_prepared] at hp
  split at hp
  · obtain ⟨q, _, rfl⟩ := Option.map_eq_some_iff.mp hp
    rfl
  · rename_i hc
    exact (hr.released id st p (applyEntry_status hs) hst hp).resolve_right hc

/-- **`getRunning` knows no participants.** -/
theorem getRunning_participantPids (h : PidsRecorded m) :
    ∀ r ∈ m.getRunning, r.participantPids = [] := by
  intro r hr
  obtain ⟨e, he, hr⟩ := List.mem_filterMap.mp hr
  split at hr
  · cases hr
  rename_i hc
  obtain ⟨s, hs, rfl⟩ := Option.map_eq_some_iff.mp hr
  refine h.none_open e.1 s hs ?_
  intro hst
  have hrel := h.released e.1 s e.2 hs hst ((mem_entries_iff _ _ _).mp he)
  simp [hrel] at hc

/-! ## Statuses carry the id they are kept under -/

def StatusIds (m : Manager) : Prop := ∀ id s, m.status.lookup id = some s → s.id = id

theorem StatusIds.step (h : StatusIds m) (hch : Change db m c m' o) : StatusIds m' := by
  intro id s hs
  by_cases hid : id = c.id
  · subst hid
    cases hch with
    | idle => exact h _ s hs
    | release => exact h _ s hs
    | _ =>
      simp only [Cmd.id, AList.lookup_insert, Option.some.injEq] at hs
      subst hs
      rfl
  · rw [(hch.frame hid).1] at hs
    exact h id s hs

theorem StatusIds.runCmds (h : StatusIds m) (db : Store) (cs : List Cmd) :
    StatusIds (m.runCmds db cs).1 :=
  loop_invariant _ (fun m _ => StatusIds m) cs m [] h
    (fun m _ c _ ih => ih.step (applyCmd_change db m c))

theorem StatusIds.entry (h : StatusIds s.1) (e : Entry) : StatusIds (applyEntry s e).1.1 := by
  intro id st hs
  exact h.runCmds s.2 _ id st (applyEntry_status hs)

theorem Change.result_id (hch : Change db m c m' o) (h : StatusIds m) {s : TxnStatus}
    (hs : o.result = .ok s) : s.id = c.id := by
  cases hch with
  | idle c r hi =>
    cases hi with
    | missing => cases hs
    | refused => cases hs
    | repeated s' hs' =>
      cases hs
      exact h _ _ hs'
    | failed s' _ _ _ hid =>
      cases hs
      exact hid
  | release c s' p hs' =>
    cases hs
    exact h _ _ hs'
  | _ =>
    cases hs
    rfl

variable {e : Entry}

theorem applyEntry_result_id (h : StatusIds s.1) {x : Cmd × BatchResult}
    (hx : x ∈ (batchCmds e.batch).zip (applyEntry s e).2.all) {st : TxnStatus}
    (hst : x.2 = .ok st) : st.id = x.1.id := by
  obtain ⟨pre, _, _, hr⟩ := mem_applyEntry_zip hx
  exact (applyCmd_change s.2 _ x.1).result_id (h.runCmds s.2 pre) (hr.symm.trans hst)

/-! ## The leader -/

/-- The reports of `Service` for the commands of one kind: one for each status
that was returned without error. -/
def reports {α : Type} (pid : Nat) (prepared : α → Option Txn) (decision : α → Option Decision)
    (cmds : List α) (results : List BatchResult) : List Running :=
  (cmds.zip results).filterMap fun x =>
    match x.2 with
    | .ok status => updateStatus pid (some status) (prepared x.1) (decision x.1)
    | .error _ => none

def prepareReports (pid : Nat) (b : TxnBatch) (r : BatchResults) : List Running :=
  reports pid (fun x => some x.txn) (fun _ => none) b.prepare r.prepare

def otherReports (pid : Nat) (b : TxnBatch) (r : BatchResults) : List Running :=
  reports pid (fun _ => none) (fun _ => none) b.commit r.commit ++
    reports pid (fun _ => none) (fun _ => none) b.abort r.abort ++
    reports pid (fun _ => none) (fun x => some x.decision) b.storeDecision r.storeDecision

/-- `afterPrepare` is history: the records that `Service.Prepare` reported. -/
structure Leader where
  state : Manager × Store
  dog : Dog := {}
  requestCh : List Running := []
  afterPrepare : List Running := []

inductive LeaderEvent where
  | applied (e : Entry)
  /-- The main loop takes one of the reports that wait, in any order. -/
  | receive (i : Nat)
  | tickerPhase1 (now : Int)
  | tickerPhase2 (now : Int)
  /-- Another replica takes over and loads the running txns. -/
  | newLeader

def Leader.step (t : Timeouts) (l : Leader) : LeaderEvent → Leader × List (Resolver × Running)
  | .applied e =>
    let r := applyEntry l.state e
    let prepares := prepareReports l.state.1.pid e.batch r.2
    ({ l with state := r.1,
              requestCh := l.requestCh ++ prepares ++ otherReports l.state.1.pid e.batch r.2,
              afterPrepare := l.afterPrepare ++ prepares }, [])
  | .receive i =>
    match l.requestCh[i]? with
    | none => (l, [])
    | some r =>
      let x := l.dog.step t (.status r)
      ({ l with dog := x.1, requestCh := l.requestCh.eraseIdx i }, x.2)
  | .tickerPhase1 now =>
    let x := l.dog.step t (.tickerPhase1 now)
    ({ l with dog := x.1 }, x.2)
  | .tickerPhase2 now =>
    let x := l.dog.step t (.tickerPhase2 now)
    ({ l with dog := x.1 }, x.2)
  | .newLeader =>
    ({ l with dog := loadRunning l.state.1.getRunning, requestCh := [] }, [])

def Leader.run (t : Timeouts) (pid : Nat) (cleanAfter : Int) (es : List LeaderEvent) :
    Leader × List (List (Resolver × Running)) :=
  loop (Leader.step t) { state := newPartition pid cleanAfter } es

/-! ## Records that are handed over -/

section Participants

variable (sent : TxnId → List Nat)

/-- Every `Prepare` of a txn carries the list that its coordinator sent. -/
def SendsParticipants (pid : Nat) (e : LeaderEvent) : Prop :=
  ∀ entry, e = .applied entry → ∀ x ∈ entry.batch.prepare, x.txn.id.principalPid = pid →
    x.txn.participantPids = sent x.txn.id

structure KnowsPids (pid : Nat) (l : Leader) : Prop where
  pid_eq : l.state.1.pid = pid
  coherent : Coherent l.state.1
  recorded : PidsRecorded l.state.1
  ids : StatusIds l.state.1
  reported : ∀ r ∈ l.afterPrepare, r.participantPids = sent r.id
  known : ∀ r, r ∈ l.requestCh ∨ r ∈ l.dog.prepared ∨ r ∈ l.dog.decided →
    r ∈ l.afterPrepare ∨ r.participantPids = []

end Participants

theorem dog_step_mem (t : Timeouts) (d : Dog) (e : DogEvent) (r : Running)
    (h : r ∈ (d.step t e).1.prepared ∨ r ∈ (d.step t e).1.decided ∨ ∃ k, (k, r) ∈ (d.step t e).2) :
    (r ∈ d.prepared ∨ r ∈ d.decided) ∨ e = .status r := by
  cases e with
  | status x =>
    obtain ⟨h1, h2, h3⟩ := @step_status_queues t d x
    rw [h1, h2, h3] at h
    rcases h with h | h | ⟨k, h⟩
    · split at h
      · rcases List.mem_append.mp h with h | h
        · exact .inl (.inl h)
        · exact .inr (by rw [List.mem_singleton.mp h])
      · exact .inl (.inl h)
    · split at h
      · rcases List.mem_append.mp h with h | h
        · exact .inl (.inr h)
        · exact .inr (by rw [List.mem_singleton.mp h])
      · exact .inl (.inr h)
    · cases h
  | tickerPhase1 now =>
    refine .inl ?_
    rcases h with h | h | ⟨k, h⟩
    · exact .inl ((checkTimedout_suffix _ _ _ _).subset h)
    · exact .inr h
    · obtain ⟨x, hx, he⟩ := List.mem_map.mp h
      cases he
      exact .inl (checkTimedout_mem _ _ _ _ _ hx)
  | tickerPhase2 now =>
    refine .inl ?_
    rcases h with h | h | ⟨k, h⟩
    · exact .inl h
    · exact .inr ((checkTimedout_suffix _ _ _ _).subset h)
    · obtain ⟨x, hx, he⟩ := List.mem_map.mp h
      cases he
      exact .inr (checkTimedout_mem _ _ _ _ _ hx)

variable {r : Running}

theorem mem_loadRunning {rs : List Running}
    (h : r ∈ (loadRunning rs).prepared ∨ r ∈ (loadRunning rs).decided) : r ∈ rs := by
  rcases h with h | h
  · exact List.mem_of_mem_filter ((List.mem_insertionSort _).mp h)
  · exact List.mem_of_mem_filter ((List.mem_insertionSort _).mp h)

variable {pid : Nat}

theorem mem_reports {α : Type} {prepared : α → Option Txn} {decision : α → Option Decision}
    {cmds : List α} {results : List BatchResult} (k : α → Cmd)
    (h : r ∈ reports pid prepared decision cmds results) :
    ∃ x st, (k x, .ok st) ∈ (cmds.map k).zip results ∧ x ∈ cmds ∧ st.id.principalPid = pid ∧
      r = { id := st.id, timestamp := st.timestamp, state := st.state, decision := decision x,
            participantPids := ((prepared x).map Txn.participantPids).getD [] } := by
  obtain ⟨x, hx, hr⟩ := List.mem_filterMap.mp h
  split at hr
  · rename_i st hst
    unfold updateStatus at hr
    dsimp only at hr
    split at hr
    · cases hr
    rename_i hp
    cases hr
    refine ⟨x.1, st, ?_, (List.of_mem_zip hx).1, not_not.mp hp, rfl⟩
    rw [List.zip_map_left, ← hst]
    exact List.mem_map.mpr ⟨x, hx, rfl⟩
  · cases hr

theorem otherReports_pids {b : TxnBatch} {rs : BatchResults} (h : r ∈ otherReports pid b rs) :
    r.participantPids = [] := by
  simp only [otherReports, List.mem_append] at h
  rcases h with (h | h) | h
  · obtain ⟨_, _, _, _, _, rfl⟩ := mem_reports .commit h
    rfl
  · obtain ⟨_, _, _, _, _, rfl⟩ := mem_reports .abort h
    rfl
  · obtain ⟨_, _, _, _, _, rfl⟩ := mem_reports .storeDecision h
    rfl

theorem reports_answer (h : r ∈ prepareReports pid e.batch (applyEntry s e).2 ∨
      r ∈ otherReports pid e.batch (applyEntry s e).2) :
    ∃ c st, (c, .ok st) ∈ (batchCmds e.batch).zip (applyEntry s e).2.all ∧
      r.id = st.id ∧ r.state = st.state := by
  simp only [applyEntry_zip, List.mem_append]
  rcases h with h | h
  · obtain ⟨x, st, hx, _, _, rfl⟩ := mem_reports .prepare h
    exact ⟨_, st, .inl (.inr hx), rfl, rfl⟩
  · simp only [otherReports, List.mem_append] at h
    rcases h with (h | h) | h
    · obtain ⟨x, st, hx, _, _, rfl⟩ := mem_reports .commit h
      exact ⟨_, st, .inl (.inl (.inl (.inr hx))), rfl, rfl⟩
    · obtain ⟨x, st, hx, _, _, rfl⟩ := mem_reports .abort h
      exact ⟨_, st, .inl (.inl (.inl (.inl (.inl hx)))), rfl, rfl⟩
    · obtain ⟨x, st, hx, _, _, rfl⟩ := mem_reports .storeDecision h
      exact ⟨_, st, .inr hx, rfl, rfl⟩

variable {sent : TxnId → List Nat}

theorem prepareReports_pids (hids : StatusIds s.1)
    (hsent : ∀ x ∈ e.batch.prepare, x.txn.id.principalPid = s.1.pid →
      x.txn.participantPids = sent x.txn.id)
    (h : r ∈ prepareReports s.1.pid e.batch (applyEntry s e).2) :
    r.participantPids = sent r.id := by
  obtain ⟨x, st, hx, hmem, hp, rfl⟩ := mem_reports .prepare h
  have hall : (.prepare x, .ok st) ∈ (batchCmds e.batch).zip (applyEntry s e).2.all := by
    simp only [applyEntry_zip, List.mem_append]
    exact .inl (.inr hx)
  have hid : st.id = x.txn.id := applyEntry_result_id hids hall rfl
  dsimp only [Option.map_some, Option.getD_some]
  rw [hid] at hp ⊢
  exact hsent x hmem hp

theorem finish_pid (m : Manager) (os : List Outcome) (t : Nat) (now : Int) :
    (m.finish os t now).pid = m.pid := (releaseAll_rest m (os.filterMap Outcome.completion)).2.1

theorem applyEntry_pid (s : Manager × Store) (e : Entry) : (applyEntry s e).1.1.pid = s.1.pid := by
  have hrun : (s.1.runCmds s.2 (batchCmds e.batch)).1.pid = s.1.pid :=
    loop_invariant (Manager.applyCmd s.2) (fun m _ => m.pid = s.1.pid) _ _ [] rfl
      (fun m _ c _ h => (applyCmd_pid s.2 m c).trans h)
  rw [applyEntry_manager, finish_pid, hrun]

/-- What the leader does between applied entries: an iteration of the main loop
that reads a report or a ticker, or a load by a new leader. -/
theorem leader_step_cases (t : Timeouts) (l : Leader) (e : LeaderEvent)
    (hne : ∀ entry, e ≠ .applied entry) :
    (∃ d rest, (∀ r ∈ rest, r ∈ l.requestCh) ∧ (∀ r, d = .status r → r ∈ l.requestCh) ∧
      l.step t e = ({ l with dog := (l.dog.step t d).1, requestCh := rest }, (l.dog.step t d).2)) ∨
    l.step t e = (l, []) ∨
    l.step t e = ({ l with dog := loadRunning l.state.1.getRunning, requestCh := [] }, []) := by
  cases e with
  | applied entry => exact absurd rfl (hne entry)
  | receive i =>
    cases hi : l.requestCh[i]? with
    | none => exact .inr (.inl (by simp only [Leader.step, hi]))
    | some r =>
      refine .inl ⟨.status r, l.requestCh.eraseIdx i, ?_, ?_, by simp only [Leader.step, hi]⟩
      · intro x hx
        exact List.mem_of_mem_eraseIdx hx
      · rintro x ⟨⟩
        exact List.mem_of_getElem? hi
  | tickerPhase1 now => exact .inl ⟨.tickerPhase1 now, _, fun _ hr => hr, by rintro _ ⟨⟩, rfl⟩
  | tickerPhase2 now => exact .inl ⟨.tickerPhase2 now, _, fun _ hr => hr, by rintro _ ⟨⟩, rfl⟩
  | newLeader => exact .inr (.inr rfl)

theorem leader_between_state (t : Timeouts) (l : Leader) (e : LeaderEvent)
    (hne : ∀ entry, e ≠ .applied entry) :
    (l.step t e).1.state = l.state ∧ (l.step t e).1.afterPrepare = l.afterPrepare := by
  rcases leader_step_cases t l e hne with ⟨d, rest, _, _, he⟩ | he | he <;> rw [he] <;>
    exact ⟨rfl, rfl⟩

/-- Every record that the leader has satisfies `P`. -/
def Leader.Records (P : Running → Prop) (l : Leader) : Prop :=
  ∀ r, r ∈ l.requestCh ∨ r ∈ l.dog.prepared ∨ r ∈ l.dog.decided → P r

variable {l : Leader}

/-- **Records rule.** Between applied entries the leader has and hands over only
records that it had, or that `getRunning` returns to a new leader. -/
theorem Leader.Records.between {P : Running → Prop} (h : l.Records P) (t : Timeouts)
    (e : LeaderEvent) (hne : ∀ entry, e ≠ .applied entry)
    (hload : ∀ r ∈ l.state.1.getRunning, P r) :
    (l.step t e).1.Records P ∧ ∀ x ∈ (l.step t e).2, P x.2 := by
  rcases leader_step_cases t l e hne with ⟨d, rest, hrest, hd, he⟩ | he | he
  · have hmem : ∀ r, (r ∈ (l.dog.step t d).1.prepared ∨ r ∈ (l.dog.step t d).1.decided ∨
        ∃ k, (k, r) ∈ (l.dog.step t d).2) → P r := by
      intro r hr
      rcases dog_step_mem t l.dog d r hr with hr | hr
      · exact h r (.inr hr)
      · exact h r (.inl (hd r hr))
    rw [he]
    refine ⟨?_, fun x hx => hmem x.2 (.inr (.inr ⟨x.1, hx⟩))⟩
    rintro r (hr | hr)
    · exact h r (.inl (hrest r hr))
    · exact hmem r (hr.imp_right .inl)
  · rw [he]
    exact ⟨h, fun x hx => by cases hx⟩
  · rw [he]
    refine ⟨?_, fun x hx => by cases hx⟩
    rintro r (hr | hr)
    · cases hr
    · exact hload r (mem_loadRunning hr)

theorem KnowsPids.applied (t : Timeouts) (h : KnowsPids sent pid l) (e : Entry)
    (hsent : SendsParticipants sent pid (.applied e)) :
    KnowsPids sent pid (l.step t (.applied e)).1 := by
  refine ⟨?_, h.coherent.entry e, h.recorded.entry h.coherent e, h.ids.entry e, ?_, ?_⟩
  · exact (applyEntry_pid l.state e).trans h.pid_eq
  · intro r hr
    rcases List.mem_append.mp hr with hr | hr
    · exact h.reported r hr
    · refine prepareReports_pids h.ids ?_ hr
      rw [h.pid_eq]
      exact hsent e rfl
  · rintro r (hr | hr)
    · simp only [Leader.step, List.mem_append] at hr ⊢
      rcases hr with (hr | hr) | hr
      · exact (h.known r (.inl hr)).imp_left .inl
      · exact .inl (.inr hr)
      · exact .inr (otherReports_pids hr)
    · exact (h.known r (.inr hr)).imp_left (fun hm => List.mem_append.mpr (.inl hm))

theorem KnowsPids.between (t : Timeouts) (h : KnowsPids sent pid l) (e : LeaderEvent)
    (hne : ∀ entry, e ≠ .applied entry) : KnowsPids sent pid (l.step t e).1 ∧
      ∀ x ∈ (l.step t e).2, x.2 ∈ (l.step t e).1.afterPrepare ∨ x.2.participantPids = [] := by
  obtain ⟨hstate, hhist⟩ := leader_between_state t l e hne
  have hrec : l.Records fun r => r ∈ l.afterPrepare ∨ r.participantPids = [] := h.known
  obtain ⟨h1, h2⟩ := hrec.between t e hne
    fun r hr => .inr (getRunning_participantPids h.recorded r hr)
  rw [← hhist] at h1 h2
  refine ⟨⟨?_, ?_, ?_, ?_, ?_, h1⟩, h2⟩
  · rw [hstate]
    exact h.pid_eq
  · rw [hstate]
    exact h.coherent
  · rw [hstate]
    exact h.recorded
  · rw [hstate]
    exact h.ids
  · rw [hhist]
    exact h.reported

/-- **Step.** -/
theorem KnowsPids.step (t : Timeouts) (h : KnowsPids sent pid l) (e : LeaderEvent)
    (hsent : SendsParticipants sent pid e) : KnowsPids sent pid (l.step t e).1 ∧
      ∀ x ∈ (l.step t e).2, x.2 ∈ (l.step t e).1.afterPrepare ∨ x.2.participantPids = [] := by
  cases e with
  | applied e => exact ⟨h.applied t e hsent, fun x hx => by cases hx⟩
  | _ => exact h.between t _ (by simp)

theorem afterPrepare_grows (t : Timeouts) (l : Leader) (e : LeaderEvent) :
    ∀ r ∈ l.afterPrepare, r ∈ (l.step t e).1.afterPrepare := by
  intro r hr
  cases e with
  | applied e => exact List.mem_append.mpr (.inl hr)
  | receive i =>
    unfold Leader.step
    dsimp only
    split <;> exact hr
  | _ => exact hr

/-- **Participants of the records handed over.** In every run of a partition and
its leaders, a record handed to a resolver carries the list of the principal's
`Prepare` exactly if it was reported by `Prepare`, or the list is empty. -/
theorem handed_participants_iff (t : Timeouts) (pid : Nat) (cleanAfter : Int)
    (sent : TxnId → List Nat) (es : List LeaderEvent)
    (hsent : ∀ e ∈ es, SendsParticipants sent pid e) :
    ∀ out ∈ (Leader.run t pid cleanAfter es).2, ∀ x ∈ out, (x.2.participantPids = sent x.2.id ↔
        x.2 ∈ (Leader.run t pid cleanAfter es).1.afterPrepare ∨ sent x.2.id = []) := by
  have h₀ : KnowsPids sent pid { state := newPartition pid cleanAfter } := by
    refine ⟨rfl, coherent_new pid cleanAfter, ⟨?_, ?_⟩, ?_, ?_, ?_⟩
    · intro id s hs
      cases hs
    · intro id s p hs
      cases hs
    · intro id s hs
      cases hs
    · intro r hr
      cases hr
    · rintro r (hr | hr | hr) <;> cases hr
  have hrun := loop_invariant (Leader.step t)
    (fun l outs => KnowsPids sent pid l ∧ ∀ out ∈ outs, ∀ x ∈ out,
      x.2 ∈ l.afterPrepare ∨ x.2.participantPids = [])
    es { state := newPartition pid cleanAfter } [] ⟨h₀, fun _ hout => by cases hout⟩ ?_
  · obtain ⟨hk, hout⟩ := hrun
    rw [List.nil_append] at hout
    intro out ho x hx
    constructor
    · intro he
      rcases hout out ho x hx with hm | hm
      · exact .inl hm
      · exact .inr (he.symm.trans hm)
    · rintro (hm | hm)
      · exact hk.reported _ hm
      · rcases hout out ho x hx with hm' | hm'
        · exact hk.reported _ hm'
        · rw [hm', hm]
  · rintro l outs e he ⟨hk, hout⟩
    obtain ⟨h1, h2⟩ := hk.step t e (hsent e he)
    refine ⟨h1, ?_⟩
    intro out ho x hx
    rcases List.mem_append.mp ho with ho | ho
    · exact (hout out ho x hx).imp_left (afterPrepare_grows t l e _)
    · rw [List.mem_singleton.mp ho] at hx
      exact h2 x hx

/-! ## A leader change between `Prepare` and the time-out -/

/-- A txn of partitions 1 and 2, with principal 1. -/
def pairTxn : Txn := ⟨⟨1, 1, 1⟩, [⟨0, some (.upsert 16 [0] [])⟩], [1, 2]⟩

def preparePair : LeaderEvent :=
  .applied ⟨1, 0, { prepare := [⟨2, pairTxn⟩], maxTimestamp := 2 }⟩

theorem preparePair_sends : ∀ e ∈ [preparePair, .newLeader, .tickerPhase1 10],
    SendsParticipants (fun _ => [1, 2]) 1 e := by
  intro e he entry hentry x hx _
  subst hentry
  simp only [preparePair, List.mem_cons, LeaderEvent.applied.injEq, reduceCtorEq,
    List.not_mem_nil, or_false] at he
  subst he
  rw [List.mem_singleton.mp hx]
  rfl

/-- The new leader hands the txn to `abort` without its participants. -/
theorem handed_without_participants :
    ¬ ∀ (t : Timeouts) (pid : Nat) (cleanAfter : Int) (sent : TxnId → List Nat)
      (es : List LeaderEvent), (∀ e ∈ es, SendsParticipants sent pid e) →
      ∀ out ∈ (Leader.run t pid cleanAfter es).2, ∀ x ∈ out, x.2.participantPids = sent x.2.id := by
  intro h
  have hx := h ⟨5, 5⟩ 1 0 (fun _ => [1, 2]) _ preparePair_sends
    [(.abort, { id := pairTxn.id, timestamp := 2, state := .prepared })] (by decide)
    (.abort, { id := pairTxn.id, timestamp := 2, state := .prepared }) (by decide)
  exact absurd hx (by decide)

theorem handed_participants_iff_preparePair : (∀ e ∈ [preparePair, .newLeader, .tickerPhase1 10],
      SendsParticipants (fun _ => [1, 2]) 1 e) ∧
    ∀ out ∈ (Leader.run ⟨5, 5⟩ 1 0 [preparePair, .newLeader, .tickerPhase1 10]).2, ∀ x ∈ out,
      (x.2.participantPids = [1, 2] ↔ x.2 ∈ (Leader.run ⟨5, 5⟩ 1 0
          [preparePair, .newLeader, .tickerPhase1 10]).1.afterPrepare ∨ [1, 2] = []) :=
  ⟨preparePair_sends,
    handed_participants_iff ⟨5, 5⟩ 1 0 (fun _ => [1, 2]) _ preparePair_sends⟩

end Scout.Txn
