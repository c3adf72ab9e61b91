import Scout.TwoPhase.System

/-!
What the partitions have reported about the txn, and how a batch at one partition
adds to it. The principal decides: it either stores the decision or times the txn
out, and a participant commits only after the one and aborts only after the other
or on the coordinator's own `abort`.
-/

namespace Scout.TwoPhase

open Data Mvcc Txn Lib

/-! ## Histories -/

section Histories

variable (id : TxnId) (aborting sent : Prop) (R : List (Nat × State))

def Decided : Prop := (id.principalPid, .decided) ∈ R
  deriving Decidable

def TimedOut : Prop := (id.principalPid, .timedout) ∈ R

/-- Consistency of what the partitions have reported, given whether the
coordinator has called `abort` and whether it has sent a decision. -/
structure Consistent : Prop where
  committed : ∀ p, (p, .committed) ∈ R → Decided id R
  aborted : ∀ p, (p, .aborted) ∈ R → aborting ∨ TimedOut id R
  timedout : ∀ p, (p, .timedout) ∈ R → p = id.principalPid
  decided : ∀ p, (p, .decided) ∈ R → p = id.principalPid ∧ sent
  one_outcome : Decided id R → ¬TimedOut id R
  not_aborting : Decided id R → ¬aborting

end Histories

section Reports

variable {id : TxnId} {aborting sent : Prop} {R : List (Nat × State)} {pid : Nat} {st : State}

theorem Consistent.report (h : Consistent id aborting sent R)
    (hc : st = .committed → Decided id R) (ha : st = .aborted → aborting ∨ TimedOut id R)
    (ht : st = .timedout → pid = id.principalPid ∧ ¬Decided id R)
    (hd : st = .decided → pid = id.principalPid ∧ sent ∧ ¬TimedOut id R ∧ ¬aborting) :
    Consistent id aborting sent (R ++ [(pid, st)]) where
  committed := by
    intro p hp
    refine List.mem_append.mpr (.inl ?_)
    rcases List.mem_append.mp hp with hp | hp
    · exact h.committed p hp
    · cases List.mem_singleton.mp hp
      exact hc rfl
  aborted := by
    intro p hp
    have key : aborting ∨ TimedOut id R := by
      rcases List.mem_append.mp hp with hp | hp
      · exact h.aborted p hp
      · cases List.mem_singleton.mp hp
        exact ha rfl
    exact key.imp_right fun k => List.mem_append.mpr (.inl k)
  timedout := by
    intro p hp
    rcases List.mem_append.mp hp with hp | hp
    · exact h.timedout p hp
    · cases List.mem_singleton.mp hp
      exact (ht rfl).1
  decided := by
    intro p hp
    rcases List.mem_append.mp hp with hp | hp
    · exact h.decided p hp
    · cases List.mem_singleton.mp hp
      exact ⟨(hd rfl).1, (hd rfl).2.1⟩
  one_outcome := by
    intro h1 h2
    rcases List.mem_append.mp h1 with k1 | k1 <;> rcases List.mem_append.mp h2 with k2 | k2
    · exact h.one_outcome k1 k2
    · cases List.mem_singleton.mp k2
      exact (ht rfl).2 k1
    · cases List.mem_singleton.mp k1
      exact (hd rfl).2.2.1 k2
    · cases (List.mem_singleton.mp k1).trans (List.mem_singleton.mp k2).symm
  not_aborting := by
    intro h1
    rcases List.mem_append.mp h1 with h1 | h1
    · exact h.not_aborting h1
    · cases List.mem_singleton.mp h1
      exact (hd rfl).2.2.2

theorem consistent_nil (id : TxnId) (aborting sent : Prop) : Consistent id aborting sent [] where
  committed := fun p hp => by cases hp
  aborted := fun p hp => by cases hp
  timedout := fun p hp => by cases hp
  decided := fun p hp => by cases hp
  one_outcome := fun h => by cases h
  not_aborting := fun h => by cases h

theorem Consistent.again (h : Consistent id aborting sent R) (hm : (pid, st) ∈ R) :
    Consistent id aborting sent (R ++ [(pid, st)]) := by
  refine h.report ?_ ?_ ?_ ?_
  · rintro rfl
    exact h.committed pid hm
  · rintro rfl
    exact h.aborted pid hm
  · rintro rfl
    have hp := h.timedout pid hm
    subst hp
    exact ⟨rfl, fun hd => h.one_outcome hd hm⟩
  · rintro rfl
    obtain ⟨hp, hs⟩ := h.decided pid hm
    subst hp
    exact ⟨rfl, hs, h.one_outcome hm, h.not_aborting hm⟩

end Reports

/-! ## A batch at one partition -/

/-- What allows a command about the txn to be in a batch. -/
def Licensed (id : TxnId) (aborting sent : Prop) (R : List (Nat × State)) : Cmd → Prop
  | .commit _ => Decided id R
  | .abort _ => aborting ∨ TimedOut id R
  | .storeDecision _ => sent
  | .autocommit _ => False
  | .prepare _ | .markTimedout _ => True

theorem Licensed.mono {id : TxnId} {aborting sent : Prop} {R R' : List (Nat × State)} {c : Cmd}
    (h : Licensed id aborting sent R c) (hR : ∀ x ∈ R, x ∈ R') :
    Licensed id aborting sent R' c := by
  cases c with
  | commit c => exact hR _ h
  | abort c => exact Or.imp_right (hR _) h
  | _ => exact h

/-- The invariant inside a batch at partition `pid`. `blocked` says that the batch
has a decision that the principal must not store any more. -/
structure Within (id : TxnId) (aborting sent blocked : Prop) (pid : Nat) (cs : List Cmd)
    (R : List (Nat × State)) (m : Manager) : Prop where
  pid_eq : m.pid = pid
  consistent : Consistent id aborting sent R
  licensed : ∀ c ∈ cs, c.id = id → Licensed id aborting sent R c
  seen : ∀ s, m.status.lookup id = some s → (pid, s.state) ∈ R
  undecided : pid = id.principalPid → ∀ s, m.status.lookup id = some s → s.state = .prepared →
    ¬Decided id R ∧ ¬TimedOut id R
  fresh : pid = id.principalPid → prepares id cs = true → m.status.lookup id = none →
    ∀ x ∈ R, x.1 = pid → x.2 = .failed
  blocked : blocked → m.status.lookup id = none ∧ prepares id cs = false ∨
    ∃ s, m.status.lookup id = some s ∧ s.state.isFinal = true

namespace Within

variable {id : TxnId} {aborting sent blocked : Prop} {pid : Nat} {cs : List Cmd}
  {R : List (Nat × State)} {m m' : Manager}

theorem frame (h : Within id aborting sent blocked pid cs R m) (hpid : m'.pid = m.pid)
    (hst : m'.status.lookup id = m.status.lookup id) :
    Within id aborting sent blocked pid cs R m' where
  pid_eq := hpid.trans h.pid_eq
  consistent := h.consistent
  licensed := h.licensed
  seen := hst ▸ h.seen
  undecided := hst ▸ h.undecided
  fresh := hst ▸ h.fresh
  blocked := hst ▸ h.blocked

theorem again (h : Within id aborting sent blocked pid cs R m) {s : TxnStatus}
    (hs : m.status.lookup id = some s) :
    Within id aborting sent blocked pid cs (R ++ [(pid, s.state)]) m := by
  have hm := h.seen s hs
  have old : ∀ x, x ∈ R ++ [(pid, s.state)] → x ∈ R := by
    intro x hx
    rcases List.mem_append.mp hx with hx | hx
    · exact hx
    · rwa [List.mem_singleton.mp hx]
  refine ⟨h.pid_eq, h.consistent.again hm, ?_, ?_, ?_, ?_, h.blocked⟩
  · intro c hc hid
    exact (h.licensed c hc hid).mono fun x hx => List.mem_append.mpr (.inl hx)
  · intro s' hs'
    exact List.mem_append.mpr (.inl (h.seen s' hs'))
  · intro hp s' hs' hst
    obtain ⟨h1, h2⟩ := h.undecided hp s' hs' hst
    exact ⟨fun k => h1 (old _ k), fun k => h2 (old _ k)⟩
  · intro hp hc hn
    rw [hs] at hn
    cases hn

theorem record (h : Within id aborting sent blocked pid cs R m) {s : TxnStatus}
    (hpid : m'.pid = m.pid) (hs : m'.status.lookup id = some s)
    (hR : Consistent id aborting sent (R ++ [(pid, s.state)]))
    (hprep : pid = id.principalPid → s.state = .prepared → ¬Decided id R ∧ ¬TimedOut id R)
    (hfin : blocked → s.state.isFinal = true) :
    Within id aborting sent blocked pid cs (R ++ [(pid, s.state)]) m' := by
  refine ⟨hpid.trans h.pid_eq, hR, ?_, ?_, ?_, ?_, fun hb => .inr ⟨s, hs, hfin hb⟩⟩
  · intro c hc hid
    exact (h.licensed c hc hid).mono fun x hx => List.mem_append.mpr (.inl hx)
  · intro s' hs'
    cases hs.symm.trans hs'
    exact List.mem_append.mpr (.inr (List.mem_singleton.mpr rfl))
  · intro hp s' hs' hst
    cases hs.symm.trans hs'
    obtain ⟨h1, h2⟩ := hprep hp hst
    constructor
    · intro k
      rcases List.mem_append.mp k with k | k
      · exact h1 k
      · cases (Prod.mk.inj (List.mem_singleton.mp k)).2.trans hst
    · intro k
      rcases List.mem_append.mp k with k | k
      · exact h2 k
      · cases (Prod.mk.inj (List.mem_singleton.mp k)).2.trans hst
  · intro hp hc hn
    rw [hs] at hn
    cases hn

theorem not_blocked (h : Within id aborting sent blocked pid cs R m) {s : TxnStatus}
    (hs : m.status.lookup id = some s) (hst : s.state = .prepared) : ¬blocked := by
  intro hb
  rcases h.blocked hb with ⟨hn, _⟩ | ⟨s', hs', hf⟩
  · rw [hs] at hn
    cases hn
  · cases hs.symm.trans hs'
    rw [hst] at hf
    cases hf

/-- **Step** for a command about the txn. -/
theorem step {db : Store} {c : Cmd} {o : Outcome}
    (h : Within id aborting sent blocked pid cs R m) (hch : Change db m c m' o) (hc : c ∈ cs)
    (hid : c.id = id)
    (hdec : storesDecision id cs = true → pid = id.principalPid → aborting → blocked) :
    Within id aborting sent blocked pid cs (R ++ reportsOf pid [(c, o.result)]) m' := by
  have hl := h.licensed c hc hid
  subst hid
  cases hch with
  | idle c r hi =>
    cases hi with
    | missing => simpa [reportsOf] using h
    | refused => simpa [reportsOf] using h
    | repeated s hs => exact h.again hs
    | failed s hnew hn hf =>
      -- nothing is recorded, and the report is no outcome
      have hR : Consistent c.id aborting sent (R ++ [(pid, s.state)]) := by
        rw [hf]
        exact h.consistent.report (by simp) (by simp) (by simp) (by simp)
      refine ⟨h.pid_eq, hR, ?_, ?_, ?_, ?_, h.blocked⟩
      · intro c' hc' hid'
        exact (h.licensed c' hc' hid').mono fun x hx => List.mem_append.mpr (.inl hx)
      · intro s' hs'
        rw [hn] at hs'
        cases hs'
      · intro _ s' hs'
        rw [hn] at hs'
        cases hs'
      · intro hp hpr _ x hx hxp
        rcases List.mem_append.mp hx with hx | hx
        · exact h.fresh hp hpr hn x hx hxp
        · rw [List.mem_singleton.mp hx]
          exact hf
  | autocommit c => exact hl.elim
  | prepare c hn =>
    have hpr : prepares c.txn.id cs = true := hasCmd_of_mem hc rfl rfl
    refine h.record rfl (AList.lookup_insert _) ?_ ?_ ?_
    · exact h.consistent.report (by simp [newStatus]) (by simp [newStatus]) (by simp [newStatus])
        (by simp [newStatus])
    · intro hp _
      have hf := h.fresh hp hpr hn
      constructor
      · intro k
        cases hf _ k hp.symm
      · intro k
        cases hf _ k hp.symm
    · intro hb
      rcases h.blocked hb with ⟨_, hno⟩ | ⟨s, hs, _⟩
      · rw [Cmd.id, hpr] at hno
        cases hno
      · rw [Cmd.id, hn] at hs
        cases hs
  | commit c s p hs hp hg =>
    refine h.record rfl (AList.lookup_insert _) ?_ (fun _ k => by cases k) (fun _ => rfl)
    exact h.consistent.report (fun _ => hl) (by simp [committedStatus, newStatus])
      (by simp [committedStatus, newStatus]) (by simp [committedStatus, newStatus])
  | abort c s p hs hp hst =>
    refine h.record rfl (AList.lookup_insert _) ?_ (fun _ k => by cases k) (fun _ => rfl)
    exact h.consistent.report (by simp [newStatus]) (fun _ => hl) (by simp [newStatus])
      (by simp [newStatus])
  | storeDecision c s p hs hp hpid hst =>
    have hprin : pid = c.decision.id.principalPid := h.pid_eq.symm.trans hpid.symm
    obtain ⟨hnd, hnt⟩ := h.undecided hprin s hs hst
    have hb := h.not_blocked hs hst
    have hmem : storesDecision c.decision.id cs = true := hasCmd_of_mem hc rfl rfl
    refine h.record rfl (AList.lookup_insert _) ?_ (fun _ k => by cases k) (fun k => absurd k hb)
    exact h.consistent.report (by simp [newStatus]) (by simp [newStatus]) (by simp [newStatus])
      (fun _ => ⟨hprin, hl, hnt, fun ha => hb (hdec hmem hprin ha)⟩)
  | markTimedout c s p hs hp hpid hst =>
    have hprin : pid = c.id.principalPid := h.pid_eq.symm.trans hpid.symm
    refine h.record rfl (AList.lookup_insert _) ?_ (fun _ k => by cases k) (fun _ => rfl)
    exact h.consistent.report (by simp [newStatus]) (by simp [newStatus])
      (fun _ => ⟨hprin, (h.undecided hprin s hs hst).1⟩) (by simp [newStatus])
  | release c s p hs => exact (h.again hs).frame rfl rfl

theorem runCmds (db : Store) (h : Within id aborting sent blocked pid cs R m)
    (hdec : storesDecision id cs = true → pid = id.principalPid → aborting → blocked) :
    Within id aborting sent blocked pid cs
      (R ++ reportsOf pid (answersTo id cs ((m.runCmds db cs).2.map Outcome.result)))
      (m.runCmds db cs).1 := by
  refine answers_invariant id db
    (fun m as => Within id aborting sent blocked pid cs (R ++ reportsOf pid as) m) cs m ?_ ?_ ?_
  · simpa [reportsOf] using h
  · intro m as c _ hid ih
    exact ih.frame (applyCmd_pid db m c) ((applyCmd_change db m c).frame (Ne.symm hid)).1
  · intro m as c hc hid ih
    have hs := ih.step (applyCmd_change db m c) hc hid hdec
    unfold reportsOf at hs ⊢
    rwa [List.filterMap_append, ← List.append_assoc]

end Within

end Scout.TwoPhase
