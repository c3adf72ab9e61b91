import Scout.TwoPhase.System

/-!
Locks after the end of the protocol. An `Abort` of a txn that a participant does
not know leaves no trace there, so a `Prepare` that arrives later is accepted and
its locks are held: nobody is left to release them. Without such a late `Prepare`
a participant that has answered an `Abort` holds no locks once the principal has
finished the txn.
-/

namespace Scout.TwoPhase

open Data Mvcc Txn Lib

/-! ## Locks held by a partition -/

def holdsLocks (m : Manager) (id : TxnId) : Bool :=
  match m.prepared.lookup id with
  | some p => !p.locksReleased
  | none => false

theorem holdsLocks_iff {m : Manager} {id : TxnId} : holdsLocks m id = true ↔
    ∃ p, m.prepared.lookup id = some p ∧ p.locksReleased = false := by
  unfold holdsLocks
  cases h : m.prepared.lookup id <;> simp

/-- An answer to `Abort`: the txn is not known, aborted or timed out. -/
def settles : BatchResult → Bool
  | .ok s => s.state == .aborted || s.state == .timedout
  | .error e => e == .notFound

section Batch

variable {db : Store} {m m' : Manager} {c : Cmd} {o : Outcome} {id : TxnId}

/-- Locks come from an accepted `Prepare` of a txn that was not known. -/
theorem change_holds (h : Change db m c m' o) (hh : holdsLocks m' id = true) :
    holdsLocks m id = true ∨ (∃ x, c = .prepare x ∧ x.txn.id = id) ∧ m.status.lookup id = none := by
  by_cases hid : id = c.id
  · subst hid
    obtain ⟨p, hp, hr⟩ := holdsLocks_iff.mp hh
    cases h with
    | prepare c hn => exact .inr ⟨⟨c, rfl, rfl⟩, hn⟩
    | storeDecision c s q hs hq =>
      simp only [Cmd.id, AList.lookup_insert, Option.some.injEq] at hp
      subst hp
      exact .inl (holdsLocks_iff.mpr ⟨q, hq, hr⟩)
    | abort c s q hs hq =>
      simp only [Cmd.id, AList.lookup_insert, Option.some.injEq] at hp
      subst hp
      cases hr
    | release c s q hs hq =>
      simp only [Cmd.id, AList.lookup_insert, Option.some.injEq] at hp
      subst hp
      cases hr
    | _ => exact .inl (holdsLocks_iff.mpr ⟨p, hp, hr⟩)
  · refine .inl ?_
    unfold holdsLocks at hh ⊢
    rwa [(h.frame hid).2] at hh

theorem change_known (h : Change db m c m' o) (hk : m'.status.lookup id = none) :
    m.status.lookup id = none := by
  by_cases hid : id = c.id
  · subst hid
    cases h with
    | idle => exact hk
    | release => exact hk
    | _ => simp [Cmd.id] at hk
  · rwa [(h.frame hid).1] at hk

theorem runCmds_known {cs : List Cmd} (hk : (m.runCmds db cs).1.status.lookup id = none) :
    m.status.lookup id = none := by
  refine loop_invariant (Manager.applyCmd db)
    (fun m' _ => m'.status.lookup id = none → m.status.lookup id = none) cs m [] (fun k => k) ?_ hk
  intro m' _ c _ ih k
  exact ih (change_known (applyCmd_change db m' c) k)

theorem runCmds_holds {cs : List Cmd} (hh : holdsLocks (m.runCmds db cs).1 id = true) :
    holdsLocks m id = true ∨ prepares id cs = true ∧ m.status.lookup id = none := by
  refine (loop_invariant (Manager.applyCmd db)
    (fun m' _ => (m'.status.lookup id = none → m.status.lookup id = none) ∧
      (holdsLocks m' id = true →
        holdsLocks m id = true ∨ prepares id cs = true ∧ m.status.lookup id = none))
    cs m [] ⟨fun k => k, .inl⟩ ?_).2 hh
  rintro m' _ c hc ⟨hk, hl⟩
  have hch := applyCmd_change db m' c
  refine ⟨fun k => hk (change_known hch k), ?_⟩
  intro k
  rcases change_holds hch k with k | ⟨⟨x, rfl, hid⟩, hn⟩
  · exact hl k
  · exact .inr ⟨hasCmd_of_mem hc rfl hid, hk hn⟩

/-- An `Abort` that is answered leaves no locks, unless the txn is timed out. -/
theorem abort_releases {a : Data.Abort} (hm : Coherent m) (h : Change db m (.abort a) m' o)
    (hno : ∀ s, m.status.lookup a.id = some s → s.state ≠ .timedout)
    (hr : settles o.result = true) : holdsLocks m' a.id = false := by
  rw [Bool.eq_false_iff]
  intro hh
  obtain ⟨p, hp, hrel⟩ := holdsLocks_iff.mp hh
  cases h with
  | abort a s q =>
    simp only [AList.lookup_insert, Option.some.injEq] at hp
    subst hp
    cases hrel
  | idle _ _ hi =>
    obtain ⟨s, hs⟩ := (hm.record a.id).has_status p hp
    cases hi with
    | missing _ hnone =>
      rcases hnone with hnone | hnone
      · rw [Cmd.id, hs] at hnone
        cases hnone
      · rw [Cmd.id, hp] at hnone
        cases hnone
    | refused e _ _ hne => simp [settles, hne] at hr
    | repeated s' hs' =>
      have hst : s'.state = .aborted := by simpa [settles, hno s' hs'] using hr
      rw [(hm.record a.id).aborted_released p s' hp hs' hst] at hrel
      cases hrel
    | failed _ hnew => cases hnew

/-- Only the principal times the txn out. -/
theorem change_timedout (h : Change db m c m' o) (hpid : m.pid ≠ id.principalPid)
    (hm : ∀ s, m.status.lookup id = some s → s.state ≠ .timedout) :
    ∀ s, m'.status.lookup id = some s → s.state ≠ .timedout := by
  intro s hs
  by_cases hid : id = c.id
  · subst hid
    cases h with
    | idle => exact hm s hs
    | release c s' p _ _ hp => exact absurd hp.symm hpid
    | markTimedout c s' p _ _ hp => exact absurd hp.symm hpid
    | _ =>
      simp only [Cmd.id, AList.lookup_insert, Option.some.injEq] at hs
      subst hs
      simp [newStatus, committedStatus]
  · rw [(h.frame hid).1] at hs
    exact hm s hs

theorem runCmds_timedout (cs : List Cmd) (hpid : m.pid ≠ id.principalPid)
    (hm : ∀ s, m.status.lookup id = some s → s.state ≠ .timedout) :
    ∀ s, (m.runCmds db cs).1.status.lookup id = some s → s.state ≠ .timedout := by
  refine (loop_invariant (Manager.applyCmd db)
    (fun m' _ => m'.pid = m.pid ∧ ∀ s, m'.status.lookup id = some s → s.state ≠ .timedout)
    cs m [] ⟨rfl, hm⟩ ?_).2
  rintro m' _ c _ ⟨hp, ih⟩
  exact ⟨(applyCmd_pid db m' c).trans hp,
    change_timedout (applyCmd_change db m' c) (hp ▸ hpid) ih⟩

end Batch

theorem applyEntry_holds {p : Manager × Store} {e : Entry} {id : TxnId}
    (h : holdsLocks (applyEntry p e).1.1 id = true) :
    holdsLocks (p.1.runCmds p.2 (batchCmds e.batch)).1 id = true := by
  obtain ⟨x, hx, hr⟩ := holdsLocks_iff.mp h
  rw [applyEntry_manager, Manager.finish, cleanup_prepared] at hx
  split at hx
  · cases hx
  rw [releaseAll_prepared] at hx
  split at hx
  · obtain ⟨q, _, rfl⟩ := Option.map_eq_some_iff.mp hx
    cases hr
  · exact holdsLocks_iff.mpr ⟨x, hx, hr⟩

/-! ## The protocol -/

/-- The partition has answered an `Abort` of the txn. -/
def Answered (s : System) (pid : Nat) : Prop :=
  ∃ x ∈ s.responses, x.1 = .abort pid ∧ settles x.2 = true
  deriving Decidable

/-- A batch brings a `Prepare` of the txn to a partition that does not know it
only if the principal has not finished it there, and if a participant has not
answered an `Abort` of it, also not in the same batch. -/
def NotRevived (t : MultiTxn) (s : System) : Step → Prop
  | .apply pid e => prepares t.id (batchCmds e.batch) = true →
      (s.partition t pid).1.status.lookup t.id = none →
      if pid = t.principal then s.finished = false
      else ¬Answered s pid ∧ aborts t.id (batchCmds e.batch) = false
  | _ => True

instance (t : MultiTxn) (s : System) (a : Step) : Decidable (NotRevived t s a) :=
  match a with
  | .begin => isTrue trivial
  | .coordinator _ _ => isTrue trivial
  | .apply pid _ => inferInstanceAs (Decidable (_ → _ → if pid = t.principal then _ else _ ∧ _))
  | .watchdog _ => isTrue trivial
  | .resolution _ _ _ => isTrue trivial

structure LockInv (t : MultiTxn) (s : System) : Prop where
  pids : ∀ p, (s.partition t p).1.pid = p
  coherent : ∀ p, Coherent (s.partition t p).1
  no_timeout : ∀ p, p ≠ t.principal → ∀ st,
    (s.partition t p).1.status.lookup t.id = some st → st.state ≠ .timedout
  answered : ∀ p, p ≠ t.principal → Answered s p →
    holdsLocks (s.partition t p).1 t.id = false
  finished : s.finished = true → holdsLocks (s.partition t t.principal).1 t.id = false

theorem lockInv_initial (t : MultiTxn) (cleanAfter : Int) :
    LockInv t (System.initial t cleanAfter) := by
  have hpart := System.initial_partition t cleanAfter
  refine ⟨?_, ?_, ?_, ?_, fun k => by cases k⟩
  · intro p
    rw [hpart]
    rfl
  · intro p
    rw [hpart]
    exact coherent_new p cleanAfter
  · intro p _ st hs
    rw [hpart] at hs
    cases hs
  · rintro p _ ⟨x, hx, _⟩
    cases hx

namespace LockInv

variable {t : MultiTxn} {times : Timeouts} {s : System} {pid : Nat} {e : Entry}

theorem answered_now (h : LockInv t s) (hok : NotRevived t s (.apply pid e))
    (hpid : pid ≠ t.principal) {r : BatchResult} (hr : (.abort pid, r) ∈ responsesOf t pid
      (answersTo t.id (batchCmds e.batch) (applyEntry (s.partition t pid) e).2.all))
    (hset : settles r = true) :
    holdsLocks ((s.partition t pid).1.runCmds (s.partition t pid).2 (batchCmds e.batch)).1 t.id =
      false := by
  rw [Bool.eq_false_iff]
  intro hh
  obtain ⟨⟨c, r'⟩, hx, hq⟩ := List.mem_filterMap.mp hr
  obtain ⟨q, hcarried, he⟩ := Option.map_eq_some_iff.mp hq
  cases he
  obtain ⟨hmem, hid⟩ := List.mem_filter.mp hx
  obtain ⟨pre, post, hcs, hres⟩ := mem_applyEntry_zip hmem
  cases c with
  | abort a =>
    have hid : a.id = t.id := of_decide_eq_true hid
    rw [hcs, runCmds_append, runCmds_cons] at hh
    have hprincipal : (s.partition t pid).1.pid ≠ t.id.principalPid := by
      rw [h.pids]
      exact hpid
    have hno := @runCmds_timedout (s.partition t pid).2 _ t.id pre hprincipal
      (h.no_timeout pid hpid)
    have hch := applyCmd_change (s.partition t pid).2
      ((s.partition t pid).1.runCmds (s.partition t pid).2 pre).1 (.abort a)
    have hrel := abort_releases ((h.coherent pid).runCmds _ pre) hch (hid ▸ hno) (hres ▸ hset)
    rw [hid] at hrel
    -- the locks would have to come from a `Prepare` after the `Abort` in this batch
    rcases runCmds_holds hh with k | ⟨hprep, hnone⟩
    · rw [hrel] at k
      cases k
    · have hprep' : prepares t.id (batchCmds e.batch) = true := by
        obtain ⟨x, hx, hk⟩ := List.any_eq_true.mp hprep
        exact List.any_eq_true.mpr ⟨x, by rw [hcs]; simp [hx], hk⟩
      have hok' := hok hprep' (runCmds_known (change_known hch hnone))
      rw [if_neg hpid] at hok'
      have hab : aborts t.id (batchCmds e.batch) = true :=
        hasCmd_of_mem (c := .abort a) (by rw [hcs]; simp) rfl hid
      rw [hab] at hok'
      exact absurd hok'.2 (by decide)
  | _ => exact (carriedOut_kind hcarried).elim

theorem apply (h : LockInv t s) (hok : NotRevived t s (.apply pid e)) :
    LockInv t (s.apply t times pid e) := by
  refine ⟨?_, ?_, ?_, ?_, ?_⟩
  · intro p
    rw [System.apply_partition]
    split
    · rename_i hp
      rw [applyEntry_pid, h.pids, hp]
    · exact h.pids p
  · intro p
    rw [System.apply_partition]
    split
    · exact (h.coherent pid).entry e
    · exact h.coherent p
  · intro p hp st hs
    rw [System.apply_partition] at hs
    split at hs
    · rename_i hpp
      subst hpp
      refine runCmds_timedout _ ?_ (h.no_timeout p hp) st (applyEntry_status hs)
      rw [h.pids]
      exact hp
    · exact h.no_timeout p hp st hs
  · rintro p hp ⟨⟨q, r⟩, hx, rfl, hset⟩
    rw [System.apply_partition]
    rcases List.mem_append.mp hx with hbefore | hnew
    · have hold := h.answered p hp ⟨_, hbefore, rfl, hset⟩
      split
      · rename_i hpp
        subst hpp
        rw [Bool.eq_false_iff]
        intro hh
        rcases runCmds_holds (applyEntry_holds hh) with k | ⟨hprep, hnone⟩
        · rw [hold] at k
          cases k
        · have hok' := hok hprep hnone
          rw [if_neg hp] at hok'
          exact hok'.1 ⟨_, hbefore, rfl, hset⟩
      · exact hold
    · have hpp : p = pid := by
        obtain ⟨y, _, hq⟩ := List.mem_filterMap.mp hnew
        obtain ⟨q', hcarried, he⟩ := Option.map_eq_some_iff.mp hq
        cases he
        exact carriedOut_target hcarried
      subst hpp
      rw [if_pos rfl, Bool.eq_false_iff]
      intro hh
      have hnow := h.answered_now hok hp hnew hset
      rw [applyEntry_holds hh] at hnow
      cases hnow
  · intro hfin
    rw [System.apply_partition]
    split
    · rename_i hpp
      subst hpp
      rw [Bool.eq_false_iff]
      intro hh
      have hrun := applyEntry_holds hh
      simp only [System.apply, beq_self_eq_true, Bool.true_and, Bool.or_eq_true] at hfin
      rcases hfin with hfin | hend
      · rcases runCmds_holds hrun with k | ⟨hprep, hnone⟩
        · rw [h.finished hfin] at k
          cases k
        · have hok' := hok hprep hnone
          rw [if_pos rfl, hfin] at hok'
          cases hok'
      · obtain ⟨x, hx, hrel⟩ := holdsLocks_iff.mp hrun
        unfold endedIn at hend
        rw [hx] at hend
        split at hend
        · rename_i y _ he
          cases he
          simp [hrel] at hend
        · cases hend
    · rename_i hpp
      have hne : (pid == t.principal) = false := by simpa using Ne.symm hpp
      simp only [System.apply, hne, Bool.false_and, Bool.or_false] at hfin
      exact h.finished hfin

/-- **Every step that revives nothing keeps the invariant.** -/
theorem step {s' : System} {a : Step} (h : LockInv t s) (hok : NotRevived t s a)
    (hs : s.step t times a = some s') : LockInv t s' := by
  cases System.step_moves hs with
  | begin | coordinator | resolution =>
    exact ⟨h.pids, h.coherent, h.no_timeout, h.answered, h.finished⟩
  | apply pid e => exact h.apply hok
  | watchdog e hne =>
    have hpart := System.watch_partition t times s hne
    refine ⟨?_, ?_, ?_, ?_, ?_⟩ <;> simp only [hpart]
    · exact h.pids
    · exact h.coherent
    · exact h.no_timeout
    · exact h.answered
    · exact h.finished

end LockInv

/-! ## No lock is leaked -/

/-- A partition that has answered an `Abort` of the txn, which the principal has
finished, holds no locks for it. -/
def NoLeak (t : MultiTxn) (s : System) : Prop :=
  ∀ pid, Answered s pid → s.finished = true → holdsLocks (s.partition t pid).1 t.id = false

theorem LockInv.noLeak {t : MultiTxn} {s : System} (h : LockInv t s) : NoLeak t s := by
  intro pid hans hfin
  by_cases hp : pid = t.principal
  · rw [hp]
    exact h.finished hfin
  · exact h.answered pid hp hans

/-- **Presumed abort leaks no lock** in a run in which no `Prepare` revives the
txn. -/
theorem aborted_holds_no_locks (t : MultiTxn) (times : Timeouts) (cleanAfter : Int)
    (steps : List Step) (s : System)
    (hok : StepsMeet (System.step t times) (NotRevived t) (System.initial t cleanAfter) steps)
    (hrun : runSteps (System.step t times) (System.initial t cleanAfter) steps = some s) :
    NoLeak t s :=
  (runSteps_invariant (System.step t times) (LockInv t)
    (fun _ _ _ h hok hs => h.step hok hs) (lockInv_initial t cleanAfter) hok hrun).noLeak

/-! ## A `Prepare` that arrives after the `Abort` -/

/-- The `Prepare` to partition 2 is delayed. The coordinator sees an error and
aborts: partition 2 answers `NotFound`, the principal aborts. -/
def abortUnprepared : List Step :=
  [.begin,
    .apply 1 ⟨1, 0, { prepare := [⟨2, pair.txnFor 1⟩], maxTimestamp := 2 }⟩,
    .coordinator 1 (.ok (newStatus pair.id 2 .prepared)),
    .coordinator 2 (.error .unavailable),
    .apply 2 ⟨1, 0, { abort := [⟨3, pair.id⟩], maxTimestamp := 3 }⟩,
    .coordinator 2 (.error .notFound),
    .apply 1 ⟨2, 0, { abort := [⟨4, pair.id⟩], maxTimestamp := 4 }⟩]

def latePrepare : Step :=
  .apply 2 ⟨2, 0, { prepare := [⟨5, pair.txnFor 2⟩], maxTimestamp := 5 }⟩

theorem aborted_holds_locks :
    ¬ ∀ (t : MultiTxn) (times : Timeouts) (cleanAfter : Int) (steps : List Step) (s : System),
      runSteps (System.step t times) (System.initial t cleanAfter) steps = some s → NoLeak t s := by
  intro h
  have hmap : (runSteps (System.step pair ⟨5, 5⟩) (System.initial pair 0)
      (abortUnprepared ++ [latePrepare])).map (fun s => (decide (Answered s 2), s.finished,
        holdsLocks (s.partition pair 2).1 pair.id)) = some (true, true, true) := by decide
  obtain ⟨s, hs, hleak⟩ := Option.map_eq_some_iff.mp hmap
  simp only [Prod.mk.injEq, decide_eq_true_eq] at hleak
  have hno := h pair ⟨5, 5⟩ 0 _ s hs 2 hleak.1 hleak.2.1
  rw [hleak.2.2] at hno
  cases hno

theorem aborted_holds_no_locks_abortUnprepared :
    ∃ s, runSteps (System.step pair ⟨5, 5⟩) (System.initial pair 0) abortUnprepared = some s ∧
      StepsMeet (System.step pair ⟨5, 5⟩) (NotRevived pair) (System.initial pair 0)
        abortUnprepared ∧ Answered s 2 ∧ s.finished = true ∧ NoLeak pair s := by
  have hmap : (runSteps (System.step pair ⟨5, 5⟩) (System.initial pair 0)
      abortUnprepared).map (fun s => (decide (Answered s 2), s.finished)) = some (true, true) := by
    decide
  obtain ⟨s, hs, hend⟩ := Option.map_eq_some_iff.mp hmap
  simp only [Prod.mk.injEq, decide_eq_true_eq] at hend
  have hok : StepsMeet (System.step pair ⟨5, 5⟩) (NotRevived pair) (System.initial pair 0)
      abortUnprepared := by decide
  exact ⟨s, hs, hok, hend.1, hend.2,
    aborted_holds_no_locks pair ⟨5, 5⟩ 0 abortUnprepared s hok hs⟩

end Scout.TwoPhase
