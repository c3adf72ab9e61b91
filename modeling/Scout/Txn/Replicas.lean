import Scout.Txn.Replay

/-!
Replicas that apply one log at different times. Only `cleanup` reads the wall
clock, so two replicas differ only in which finished txns they still remember
(`Sim`). They answer alike as long as no command names a txn that one of them
has forgotten and the other has not.
-/

namespace Scout.Txn

open Data Mvcc Lib

/-! ## Replicas up to forgotten txns -/

def Agree (m n : Manager) (id : TxnId) : Prop :=
  m.status.lookup id = n.status.lookup id ∧ m.prepared.lookup id = n.prepared.lookup id

/-- `m` has forgotten the txn, which is finished and without locks in `n`. -/
structure Forgot (m n : Manager) (id : TxnId) : Prop where
  status : m.status.lookup id = none
  prepared : m.prepared.lookup id = none
  final : ∃ s, n.status.lookup id = some s ∧ s.state.isFinal = true
  released : ∀ p, n.prepared.lookup id = some p → p.locksReleased = true

structure Sim (m n : Manager) : Prop where
  pid : m.pid = n.pid
  cleanAfter : m.cleanAfter = n.cleanAfter
  maxTimestamp : m.maxTimestamp = n.maxTimestamp
  record : ∀ id, Agree m n id ∨ Forgot m n id ∨ Forgot n m id

theorem Sim.refl (m : Manager) : Sim m m := ⟨rfl, rfl, rfl, fun _ => .inl ⟨rfl, rfl⟩⟩

variable {m n : Manager}

theorem Sim.symm (h : Sim m n) : Sim n m where
  pid := h.pid.symm
  cleanAfter := h.cleanAfter.symm
  maxTimestamp := h.maxTimestamp.symm
  record := by
    intro id
    rcases h.record id with h | h | h
    · exact .inl ⟨h.1.symm, h.2.symm⟩
    · exact .inr (.inr h)
    · exact .inr (.inl h)

variable {id : TxnId}

theorem Sim.agree (h : Sim m n) (hk : (m.status.lookup id).isSome = (n.status.lookup id).isSome) :
    Agree m n id := by
  rcases h.record id with h | h | h
  · exact h
  · obtain ⟨s, hs, _⟩ := h.final
    rw [h.status, hs] at hk
    cases hk
  · obtain ⟨s, hs, _⟩ := h.final
    rw [h.status, hs] at hk
    cases hk

theorem Sim.held (h : Sim m n) {p : Prepared} (hp : m.prepared.lookup id = some p)
    (hr : p.locksReleased = false) : n.prepared.lookup id = some p := by
  rcases h.record id with h | h | h
  · rw [← h.2]
    exact hp
  · rw [h.prepared] at hp
    cases hp
  · rw [h.released p hp] at hr
    cases hr

theorem Sim.checkLock (h : Sim m n) (l : Lock) : m.checkLock l = n.checkLock l := by
  rw [Bool.eq_iff_iff, checkLock_iff, checkLock_iff]
  constructor
  · intro hl id p hp hr
    exact hl id p (h.symm.held hp hr) hr
  · intro hl id p hp hr
    exact hl id p (h.held hp hr) hr

theorem Sim.checkLocks (h : Sim m n) (id : TxnId) (t : Nat) (ls : List Lock) :
    m.checkLocks id t ls = n.checkLocks id t ls := by
  unfold Manager.checkLocks
  simp only [h.checkLock]

/-! ## One command -/

theorem Change.rest {db : Store} {m' : Manager} {c : Cmd} {o : Outcome} (h : Change db m c m' o) :
    m'.cleanAfter = m.cleanAfter ∧ m'.maxTimestamp = m.maxTimestamp := by
  cases h <;> exact ⟨rfl, rfl⟩

theorem applyEntry_cleanAfter (s : Manager × Store) (e : Entry) :
    (applyEntry s e).1.1.cleanAfter = s.1.cleanAfter := by
  have hrun : (s.1.runCmds s.2 (batchCmds e.batch)).1.cleanAfter = s.1.cleanAfter := by
    refine loop_invariant (Manager.applyCmd s.2) (fun m _ => m.cleanAfter = s.1.cleanAfter) _ _ []
      rfl ?_
    intro m os c _ ih
    exact (applyCmd_change s.2 m c).rest.1.trans ih
  rw [applyEntry_manager]
  exact (releaseAll_rest _ _).2.2.trans hrun

section Commands

variable {m n : Manager}

/-- Two new txns or none: what the commands that bring one depend on. -/
theorem applyAutocommit_agree (h : Sim m n) (db : Store) (x : Autocommit)
    (ha : Agree m n x.txn.id) : (m.applyAutocommit db x).2 = (n.applyAutocommit db x).2 ∧
      Agree (m.applyAutocommit db x).1 (n.applyAutocommit db x).1 x.txn.id := by
  obtain ⟨hs, hp⟩ := ha
  simp only [Manager.applyAutocommit, ← hs, ← h.checkLocks]
  split
  · split <;> exact ⟨rfl, hs, hp⟩
  split
  · exact ⟨rfl, hs, hp⟩
  · split
    · exact ⟨rfl, hs, hp⟩
    · exact ⟨rfl, by simp only [AList.lookup_insert], hp⟩

theorem applyPrepare_agree (h : Sim m n) (db : Store) (x : Prepare) (ha : Agree m n x.txn.id) :
    (m.applyPrepare db x).2 = (n.applyPrepare db x).2 ∧
      Agree (m.applyPrepare db x).1 (n.applyPrepare db x).1 x.txn.id := by
  obtain ⟨hs, hp⟩ := ha
  simp only [Manager.applyPrepare, ← hs, ← h.checkLocks]
  split
  · split <;> exact ⟨rfl, hs, hp⟩
  split
  · exact ⟨rfl, hs, hp⟩
  · split
    · exact ⟨rfl, hs, hp⟩
    · exact ⟨rfl, by simp only [AList.lookup_insert], by simp only [AList.lookup_insert]⟩

theorem applyAbort_agree (x : Abort) (ha : Agree m n x.id) :
    (m.applyAbort x).2 = (n.applyAbort x).2 ∧ Agree (m.applyAbort x).1 (n.applyAbort x).1 x.id := by
  obtain ⟨hs, hp⟩ := ha
  simp only [Manager.applyAbort, ← hs, ← hp]
  split
  · exact ⟨rfl, hs, hp⟩
  split
  · exact ⟨rfl, hs, hp⟩
  split
  · exact ⟨rfl, hs, hp⟩
  · exact ⟨rfl, hs, hp⟩
  · exact ⟨rfl, by simp only [AList.lookup_insert], by simp only [AList.lookup_insert]⟩
  · exact ⟨rfl, hs, hp⟩

theorem applyCommit_agree (x : Commit) (ha : Agree m n x.id) :
    (m.applyCommit x).2 = (n.applyCommit x).2 ∧
      Agree (m.applyCommit x).1 (n.applyCommit x).1 x.id := by
  obtain ⟨hs, hp⟩ := ha
  simp only [Manager.applyCommit, ← hs, ← hp]
  split
  · exact ⟨rfl, hs, hp⟩
  split
  · exact ⟨rfl, hs, hp⟩
  split
  · exact ⟨rfl, hs, hp⟩
  · split
    · exact ⟨rfl, hs, hp⟩
    · exact ⟨rfl, by simp only [AList.lookup_insert], hp⟩
  · split
    · exact ⟨rfl, hs, hp⟩
    · exact ⟨rfl, by simp only [AList.lookup_insert], hp⟩
  · exact ⟨rfl, hs, hp⟩

theorem applyStoreDecision_agree (h : Sim m n) (x : StoreDecision) (ha : Agree m n x.decision.id) :
    (m.applyStoreDecision x).2 = (n.applyStoreDecision x).2 ∧
      Agree (m.applyStoreDecision x).1 (n.applyStoreDecision x).1 x.decision.id := by
  obtain ⟨hs, hp⟩ := ha
  simp only [Manager.applyStoreDecision, ← hs, ← hp, ← h.pid]
  split
  · exact ⟨rfl, hs, hp⟩
  split
  · exact ⟨rfl, hs, hp⟩
  split
  · exact ⟨rfl, hs, hp⟩
  split
  · split <;> exact ⟨rfl, hs, hp⟩
  · exact ⟨rfl, hs, hp⟩
  · split
    · exact ⟨rfl, hs, hp⟩
    · exact ⟨rfl, by simp only [AList.lookup_insert], by simp only [AList.lookup_insert]⟩
  · exact ⟨rfl, hs, hp⟩

theorem applyMarkTimedout_agree (h : Sim m n) (x : MarkTimedout) (ha : Agree m n x.id) :
    (m.applyMarkTimedout x).2 = (n.applyMarkTimedout x).2 ∧
      Agree (m.applyMarkTimedout x).1 (n.applyMarkTimedout x).1 x.id := by
  obtain ⟨hs, hp⟩ := ha
  simp only [Manager.applyMarkTimedout, ← hs, ← hp, ← h.pid]
  split
  · exact ⟨rfl, hs, hp⟩
  split
  · exact ⟨rfl, hs, hp⟩
  split
  · exact ⟨rfl, hs, hp⟩
  split
  · split
    · exact ⟨rfl, hs, by simp only [AList.lookup_insert]⟩
    · exact ⟨rfl, hs, hp⟩
  · exact ⟨rfl, by simp only [AList.lookup_insert], hp⟩
  · exact ⟨rfl, hs, hp⟩

/-- **Replicas answer a command alike when they agree on its txn.** -/
theorem applyCmd_agree (h : Sim m n) (db : Store) (c : Cmd) (ha : Agree m n c.id) :
    (m.applyCmd db c).2 = (n.applyCmd db c).2 ∧
      Agree (m.applyCmd db c).1 (n.applyCmd db c).1 c.id := by
  cases c with
  | autocommit x => exact applyAutocommit_agree h db x ha
  | prepare x => exact applyPrepare_agree h db x ha
  | abort x => exact applyAbort_agree x ha
  | commit x => exact applyCommit_agree x ha
  | storeDecision x => exact applyStoreDecision_agree h x ha
  | markTimedout x => exact applyMarkTimedout_agree h x ha

theorem Sim.frame {m' n' : Manager} {db : Store} {c : Cmd} {o o' : Outcome} (h : Sim m n)
    (hm : Change db m c m' o) (hn : Change db n c n' o')
    (hat : Agree m' n' c.id ∨ Forgot m' n' c.id ∨ Forgot n' m' c.id) : Sim m' n' := by
  refine ⟨?_, ?_, ?_, ?_⟩
  · rw [hm.pid, hn.pid, h.pid]
  · rw [hm.rest.1, hn.rest.1, h.cleanAfter]
  · rw [hm.rest.2, hn.rest.2, h.maxTimestamp]
  · intro id
    by_cases hid : id = c.id
    · subst hid
      exact hat
    · obtain ⟨m1, m2⟩ := hm.frame hid
      obtain ⟨n1, n2⟩ := hn.frame hid
      rcases h.record id with h | h | h
      · exact .inl ⟨by rw [m1, n1, h.1], by rw [m2, n2, h.2]⟩
      · exact .inr (.inl ⟨m1 ▸ h.status, m2 ▸ h.prepared, n1 ▸ h.final, n2 ▸ h.released⟩)
      · exact .inr (.inr ⟨n1 ▸ h.status, n2 ▸ h.prepared, m1 ▸ h.final, m2 ▸ h.released⟩)

theorem Agree.frame {m' n' : Manager} {db : Store} {c : Cmd} {o o' : Outcome} {id : TxnId}
    (h : Agree m n id) (hm : Change db m c m' o) (hn : Change db n c n' o') (hid : id ≠ c.id) :
    Agree m' n' id := by
  obtain ⟨m1, m2⟩ := hm.frame hid
  obtain ⟨n1, n2⟩ := hn.frame hid
  exact ⟨by rw [m1, n1, h.1], by rw [m2, n2, h.2]⟩

/-- **Step.** Equal answers, and the replicas stay related; agreement on other
txns is kept. -/
theorem Sim.step (h : Sim m n) (db : Store) (c : Cmd) (ha : Agree m n c.id) :
    (m.applyCmd db c).2 = (n.applyCmd db c).2 ∧ Sim (m.applyCmd db c).1 (n.applyCmd db c).1 ∧
    ∀ id, Agree m n id → Agree (m.applyCmd db c).1 (n.applyCmd db c).1 id := by
  obtain ⟨ho, hat⟩ := applyCmd_agree h db c ha
  have hm := applyCmd_change db m c
  have hn := applyCmd_change db n c
  refine ⟨ho, h.frame hm hn (.inl hat), ?_⟩
  intro id hag
  by_cases hid : id = c.id
  · subst hid
    exact hat
  · exact hag.frame hm hn hid

end Commands

theorem Sim.runCmds (h : Sim m n) (db : Store) (cs : List Cmd) (ha : ∀ c ∈ cs, Agree m n c.id) :
    (m.runCmds db cs).2 = (n.runCmds db cs).2 ∧ Sim (m.runCmds db cs).1 (n.runCmds db cs).1 := by
  induction cs generalizing m n with
  | nil => exact ⟨rfl, h⟩
  | cons c cs ih =>
    obtain ⟨h1, h2, h3⟩ := h.step db c (ha c (by simp))
    obtain ⟨i1, i2⟩ := ih h2 (fun d hd => h3 _ (ha d (by simp [hd])))
    rw [runCmds_cons, runCmds_cons, h1, i1]
    exact ⟨rfl, i2⟩

/-! ## The tail of a batch -/

theorem Sim.releaseAll (h : Sim m n) (ids : List TxnId) :
    Sim (ids.foldl Manager.releaseLocks m) (ids.foldl Manager.releaseLocks n) := by
  obtain ⟨ms, mp, mc⟩ := releaseAll_rest m ids
  obtain ⟨ns, np, nc⟩ := releaseAll_rest n ids
  have keep : ∀ a b : Manager, ∀ id, Forgot a b id →
      Forgot (ids.foldl Manager.releaseLocks a) (ids.foldl Manager.releaseLocks b) id := by
    intro a b id hf
    refine ⟨by rw [(releaseAll_rest a ids).1]; exact hf.status, ?_,
      by rw [(releaseAll_rest b ids).1]; exact hf.final, ?_⟩
    · rw [releaseAll_prepared, hf.prepared]
      split <;> rfl
    · intro p hp
      rw [releaseAll_prepared] at hp
      split at hp
      · obtain ⟨q, _, rfl⟩ := Option.map_eq_some_iff.mp hp
        rfl
      · exact hf.released p hp
  refine ⟨by rw [mp, np, h.pid], by rw [mc, nc, h.cleanAfter], ?_, ?_⟩
  · rw [releaseAll_maxTimestamp, releaseAll_maxTimestamp, h.maxTimestamp]
  · intro id
    rcases h.record id with h | h | h
    · exact .inl ⟨by rw [ms, ns, h.1], by rw [releaseAll_prepared, releaseAll_prepared, h.2]⟩
    · exact .inr (.inl (keep m n id h))
    · exact .inr (.inr (keep n m id h))

theorem Sim.withMax (h : Sim m n) (t : Nat) :
    Sim { m with maxTimestamp := t } { n with maxTimestamp := t } := by
  refine ⟨h.pid, h.cleanAfter, rfl, ?_⟩
  intro id
  rcases h.record id with h | h | h
  · exact .inl h
  · exact .inr (.inl ⟨h.status, h.prepared, h.final, h.released⟩)
  · exact .inr (.inr ⟨h.status, h.prepared, h.final, h.released⟩)

theorem cleanup_record (m : Manager) (now : Int) (id : TxnId) :
    Agree (m.cleanup now) m id ∨ Forgot (m.cleanup now) m id := by
  unfold Agree
  rw [cleanup_status, cleanup_prepared]
  cases hf : m.forgets now id with
  | false => exact .inl ⟨rfl, rfl⟩
  | true =>
    obtain ⟨s, hs, hfin, hrel⟩ := forgets_final hf
    refine .inr ⟨?_, ?_, ⟨s, hs, hfin⟩, hrel⟩
    · rw [cleanup_status, hf]
      rfl
    · rw [cleanup_prepared, hf]
      rfl

theorem Sim.cleanup (h : Sim m n) (now now' : Int) : Sim (m.cleanup now) (n.cleanup now') := by
  refine ⟨h.pid, h.cleanAfter, h.maxTimestamp, ?_⟩
  -- a txn that `a` has forgotten stays forgotten, and `b` may forget it too
  have lost : ∀ a b : Manager, ∀ t t' id, Forgot a b id →
      Agree (a.cleanup t) (b.cleanup t') id ∨ Forgot (a.cleanup t) (b.cleanup t') id := by
    intro a b t t' id hf
    have h1 : (a.cleanup t).status.lookup id = none := by
      rw [cleanup_status, hf.status]
      split <;> rfl
    have h2 : (a.cleanup t).prepared.lookup id = none := by
      rw [cleanup_prepared, hf.prepared]
      split <;> rfl
    rcases cleanup_record b t' id with hb | hb
    · exact .inr ⟨h1, h2, hb.1 ▸ hf.final, hb.2 ▸ hf.released⟩
    · exact .inl ⟨h1.trans hb.status.symm, h2.trans hb.prepared.symm⟩
  intro id
  rcases h.record id with h | h | h
  · -- both remember it alike before; each forgets it or not
    rcases cleanup_record m now id with hm | hm
    · rcases cleanup_record n now' id with hn | hn
      · exact .inl ⟨by rw [hm.1, hn.1, h.1], by rw [hm.2, hn.2, h.2]⟩
      · refine .inr (.inr ⟨hn.status, hn.prepared, ?_, ?_⟩)
        · rw [hm.1, h.1]
          exact hn.final
        · rw [hm.2, h.2]
          exact hn.released
    · rcases cleanup_record n now' id with hn | hn
      · refine .inr (.inl ⟨hm.status, hm.prepared, ?_, ?_⟩)
        · rw [hn.1, ← h.1]
          exact hm.final
        · rw [hn.2, ← h.2]
          exact hm.released
      · exact .inl ⟨hm.status.trans hn.status.symm, hm.prepared.trans hn.prepared.symm⟩
  · rcases lost m n now now' id h with h | h
    · exact .inl h
    · exact .inr (.inl h)
  · rcases lost n m now' now id h with h | h
    · exact .inl ⟨h.1.symm, h.2.symm⟩
    · exact .inr (.inr h)

theorem Sim.finish {os os' : List Outcome} (h : Sim m n)
    (hos : os.filterMap Outcome.completion = os'.filterMap Outcome.completion) (t : Nat)
    (now now' : Int) : Sim (m.finish os t now) (n.finish os' t now') := by
  rw [Manager.finish, Manager.finish, hos]
  exact ((h.releaseAll _).withMax t).cleanup now now'

/-! ## Logs -/

def SameLog (es es' : List Entry) : Prop :=
  List.Forall₂ (fun e e' => e.index = e'.index ∧ e.batch = e'.batch) es es'

/-- Before each entry, each txn that a command of the batch names is remembered
by both replicas or by neither. -/
def SameKnown : Manager × Store → Manager × Store → List Entry → List Entry → Prop
  | s, s', e :: es, e' :: es' =>
    (∀ c ∈ batchCmds e.batch,
      (s.1.status.lookup c.id).isSome = (s'.1.status.lookup c.id).isSome) ∧
    SameKnown (applyEntry s e).1 (applyEntry s' e').1 es es'
  | _, _, _, _ => True

def Manager.heldLocks (m : Manager) (id : TxnId) : List Lock :=
  match m.prepared.lookup id with
  | some p => if p.locksReleased then [] else p.locks
  | none => []

theorem Sim.heldLocks (h : Sim m n) (id : TxnId) : m.heldLocks id = n.heldLocks id := by
  have none_held : ∀ a b : Manager, Forgot a b id → a.heldLocks id = b.heldLocks id := by
    intro a b hf
    unfold Manager.heldLocks
    rw [hf.prepared]
    cases hp : b.prepared.lookup id with
    | none => rfl
    | some p => simp [hf.released p hp]
  rcases h.record id with h | h | h
  · unfold Manager.heldLocks
    rw [h.2]
  · exact none_held m n h
  · exact (none_held n m h).symm

variable {e : Entry}

/-- **Batch.** -/
theorem Sim.entry {e' : Entry} (h : Sim m n) (db : Store) (hi : e.index = e'.index)
    (hb : e.batch = e'.batch) (hk : ∀ c ∈ batchCmds e.batch,
      (m.status.lookup c.id).isSome = (n.status.lookup c.id).isSome) :
    (applyEntry (m, db) e).2 = (applyEntry (n, db) e').2 ∧
    (applyEntry (m, db) e).1.2 = (applyEntry (n, db) e').1.2 ∧
    Sim (applyEntry (m, db) e).1.1 (applyEntry (n, db) e').1.1 := by
  obtain ⟨ho, hs⟩ := h.runCmds db (batchCmds e.batch) (fun c hc => h.agree (hk c hc))
  refine ⟨?_, ?_, ?_⟩
  · refine applyEntry_results_congr hb ?_
    rw [applyEntry_results, applyEntry_results, ← hb, ho]
  · change (m.applyBatch db e.index e.now e.batch).2.1 =
      (n.applyBatch db e'.index e'.now e'.batch).2.1
    rw [applyBatch_store, applyBatch_store, ← hb, ← hi, ho]
  · rw [applyEntry_manager, applyEntry_manager, ← hb]
    exact hs.finish (by rw [ho]) _ _ _

/-- Two runs that differ only in the clock readings of `cleanup`: equal answers,
equal stores and equal locks. -/
def ReplicasAgree (s : Manager × Store) (es es' : List Entry) : Prop :=
  (applyLog s es).2 = (applyLog s es').2 ∧
  (applyLog s es).1.2 = (applyLog s es').1.2 ∧
  ∀ id, (applyLog s es).1.1.heldLocks id = (applyLog s es').1.1.heldLocks id

theorem Sim.next {e' : Entry} {es es' : List Entry} (h : Sim m n) (db : Store)
    (he : e.index = e'.index ∧ e.batch = e'.batch)
    (hk : SameKnown (m, db) (n, db) (e :: es) (e' :: es')) :
    ∃ m' n' db', (applyEntry (m, db) e).1 = (m', db') ∧ (applyEntry (n, db) e').1 = (n', db') ∧
      (applyEntry (m, db) e).2 = (applyEntry (n, db) e').2 ∧ Sim m' n' ∧
      SameKnown (m', db') (n', db') es es' := by
  obtain ⟨hres, hstore, hsim⟩ := h.entry db he.1 he.2 hk.1
  have hstate : (applyEntry (n, db) e').1 =
      ((applyEntry (n, db) e').1.1, (applyEntry (m, db) e).1.2) := Prod.ext rfl hstore.symm
  have hk' := hk.2
  rw [hstate] at hk'
  exact ⟨_, _, _, rfl, hstate, hres, hsim, hk'⟩

theorem Sim.log {db : Store} {es es' : List Entry} (h : Sim m n) (hl : SameLog es es')
    (hk : SameKnown (m, db) (n, db) es es') : (applyLog (m, db) es).2 = (applyLog (n, db) es').2 ∧
    (applyLog (m, db) es).1.2 = (applyLog (n, db) es').1.2 ∧
    Sim (applyLog (m, db) es).1.1 (applyLog (n, db) es').1.1 := by
  induction hl generalizing m n db with
  | nil => exact ⟨rfl, rfl, h⟩
  | @cons e e' es es' he _ ih =>
    obtain ⟨m', n', db', hm, hn, hres, hsim, hk'⟩ := h.next db he hk
    obtain ⟨i1, i2, i3⟩ := ih hsim hk'
    rw [applyLog_cons, applyLog_cons, hm, hn, hres]
    exact ⟨congrArg (List.cons (applyEntry (n, db) e').2) i1, i2, i3⟩

/-- **Replica determinism**, from any state and for any log: replicas that apply
the log at different times agree, if no command ever names a txn that only one
of them has forgotten. -/
theorem replicas_agree (s : Manager × Store) (es es' : List Entry) (hl : SameLog es es')
    (hk : SameKnown s s es es') : ReplicasAgree s es es' := by
  obtain ⟨h1, h2, h3⟩ := (Sim.refl s.1).log hl hk
  exact ⟨h1, h2, h3.heldLocks⟩

/-! ## Commands on a forgotten txn

A command that brings no txn changes nothing that matters where its txn is finished, and
nothing at all where it is unknown. So replicas write the same as long as they agree on the
txns that are brought, even if their answers differ. -/

/-- The command writes nothing and releases no locks. -/
structure Outcome.Quiet (o : Outcome) : Prop where
  writes : o.writes = []
  completion : o.completion = none

section Quiet

variable {db : Store} {m m' n : Manager} {c : Cmd} {o : Outcome}

theorem Change.unknown (h : Change db m c m' o) (hc : c.newTxn = none)
    (hs : m.status.lookup c.id = none) : m' = m ∧ o.Quiet := by
  cases h with
  | idle => exact ⟨rfl, rfl, rfl⟩
  | autocommit => cases hc
  | prepare => cases hc
  | commit _ _ _ hs' => cases hs.symm.trans hs'
  | abort _ _ _ hs' => cases hs.symm.trans hs'
  | storeDecision _ _ _ hs' => cases hs.symm.trans hs'
  | markTimedout _ _ _ hs' => cases hs.symm.trans hs'
  | release _ _ _ hs' => cases hs.symm.trans hs'

theorem Change.finished (h : Change db m c m' o) (hc : c.newTxn = none) {s : TxnStatus}
    (hs : m.status.lookup c.id = some s) (hf : s.state.isFinal = true)
    (hr : ∀ p, m.prepared.lookup c.id = some p → p.locksReleased = true) :
    o.Quiet ∧ m'.status.lookup c.id = some s ∧
      ∀ p, m'.prepared.lookup c.id = some p → p.locksReleased = true := by
  cases h with
  | idle => exact ⟨⟨rfl, rfl⟩, hs, hr⟩
  | autocommit => cases hc
  | prepare => cases hc
  | commit _ _ _ hs' _ hg =>
    cases hs.symm.trans hs'
    rcases hg with ⟨hst, _⟩ | ⟨hst, _⟩ <;> rw [hst] at hf <;> cases hf
  | abort _ _ _ hs' _ hst =>
    cases hs.symm.trans hs'
    rw [hst] at hf
    cases hf
  | storeDecision _ _ _ hs' _ _ hst =>
    cases hs.symm.trans hs'
    rw [hst] at hf
    cases hf
  | markTimedout _ _ _ hs' _ _ hst =>
    cases hs.symm.trans hs'
    rw [hst] at hf
    cases hf
  | release =>
    refine ⟨⟨rfl, rfl⟩, hs, ?_⟩
    intro p hp
    simp only [Cmd.id, AList.lookup_insert, Option.some.injEq] at hp
    subst hp
    rfl

theorem Forgot.step (h : Forgot m n c.id) (db : Store) (hc : c.newTxn = none) :
    (m.applyCmd db c).2.Quiet ∧ (n.applyCmd db c).2.Quiet ∧
      Forgot (m.applyCmd db c).1 (n.applyCmd db c).1 c.id := by
  obtain ⟨s, hs, hf⟩ := h.final
  obtain ⟨hm, hq⟩ := (applyCmd_change db m c).unknown hc h.status
  obtain ⟨hq', hs', hr'⟩ := (applyCmd_change db n c).finished hc hs hf h.released
  rw [hm]
  exact ⟨hq, hq', h.status, h.prepared, ⟨s, hs', hf⟩, hr'⟩

/-- **Step.** Equal writes and releases, whether or not both replicas remember the txn. -/
theorem Sim.step_writes (h : Sim m n) (db : Store) (c : Cmd)
    (hc : c.newTxn = none ∨ Agree m n c.id) :
    (m.applyCmd db c).2.writes = (n.applyCmd db c).2.writes ∧
    (m.applyCmd db c).2.completion = (n.applyCmd db c).2.completion ∧
    Sim (m.applyCmd db c).1 (n.applyCmd db c).1 ∧
    ∀ id, Agree m n id → Agree (m.applyCmd db c).1 (n.applyCmd db c).1 id := by
  have hm := applyCmd_change db m c
  have hn := applyCmd_change db n c
  by_cases ha : Agree m n c.id
  · obtain ⟨ho, hs, hag⟩ := h.step db c ha
    exact ⟨by rw [ho], by rw [ho], hs, hag⟩
  · have hnew := hc.resolve_right ha
    have keep : ∀ id, Agree m n id → Agree (m.applyCmd db c).1 (n.applyCmd db c).1 id := by
      intro id hag
      refine hag.frame hm hn ?_
      rintro rfl
      exact ha hag
    rcases h.record c.id with hag | hf | hf
    · exact absurd hag ha
    · obtain ⟨hq, hq', hf'⟩ := hf.step db hnew
      exact ⟨hq.writes.trans hq'.writes.symm, hq.completion.trans hq'.completion.symm,
        h.frame hm hn (.inr (.inl hf')), keep⟩
    · obtain ⟨hq, hq', hf'⟩ := hf.step db hnew
      exact ⟨hq'.writes.trans hq.writes.symm, hq'.completion.trans hq.completion.symm,
        h.frame hm hn (.inr (.inr hf')), keep⟩

end Quiet

theorem Sim.runCmds_writes (h : Sim m n) (db : Store) (cs : List Cmd)
    (hc : ∀ c ∈ cs, c.newTxn = none ∨ Agree m n c.id) :
    (m.runCmds db cs).2.flatMap Outcome.writes = (n.runCmds db cs).2.flatMap Outcome.writes ∧
    (m.runCmds db cs).2.filterMap Outcome.completion =
      (n.runCmds db cs).2.filterMap Outcome.completion ∧
    Sim (m.runCmds db cs).1 (n.runCmds db cs).1 := by
  induction cs generalizing m n with
  | nil => exact ⟨rfl, rfl, h⟩
  | cons c cs ih =>
    obtain ⟨hw, hcomp, hs, hag⟩ := h.step_writes db c (hc c (by simp))
    obtain ⟨i1, i2, i3⟩ := ih hs fun d hd => (hc d (by simp [hd])).imp_right (hag _)
    rw [runCmds_cons, runCmds_cons]
    refine ⟨?_, ?_, i3⟩
    · rw [List.flatMap_cons, List.flatMap_cons, hw, i1]
    · rw [List.filterMap_cons, List.filterMap_cons, hcomp, i2]

/-- **Batch.** Replicas that agree on the txns that a batch brings write the same records. -/
theorem Sim.entry_writes {e' : Entry} (h : Sim m n) (db : Store) (hb : e.batch = e'.batch)
    (hc : ∀ c ∈ batchCmds e.batch, c.newTxn = none ∨ Agree m n c.id) :
    entryWrites (m, db) e = entryWrites (n, db) e' ∧
      Sim (applyEntry (m, db) e).1.1 (applyEntry (n, db) e').1.1 := by
  obtain ⟨hw, hcomp, hs⟩ := h.runCmds_writes db (batchCmds e.batch) hc
  refine ⟨?_, ?_⟩
  · rw [entryWrites, entryWrites, ← hb]
    exact hw
  · rw [applyEntry_manager, applyEntry_manager, ← hb]
    exact hs.finish hcomp _ _ _

/-! ## Known txns were brought -/

/-- An `Autocommit` or `Prepare` of the batch brings the txn. -/
def Brings (b : TxnBatch) (id : TxnId) : Prop :=
  ∃ c ∈ batchCmds b, ∃ u, c.newTxn = some u ∧ u.id = id

theorem Change.known {db : Store} {m' : Manager} {c : Cmd} {o : Outcome} (h : Change db m c m' o)
    (hk : (m'.status.lookup id).isSome = true) :
    (m.status.lookup id).isSome = true ∨ ∃ u, c.newTxn = some u ∧ u.id = id := by
  by_cases hid : id = c.id
  · subst hid
    cases h with
    | idle => exact .inl hk
    | autocommit => exact .inr ⟨_, rfl, rfl⟩
    | prepare => exact .inr ⟨_, rfl, rfl⟩
    | commit _ _ _ hs => exact .inl (Option.isSome_of_eq_some hs)
    | abort _ _ _ hs => exact .inl (Option.isSome_of_eq_some hs)
    | storeDecision _ _ _ hs => exact .inl (Option.isSome_of_eq_some hs)
    | markTimedout _ _ _ hs => exact .inl (Option.isSome_of_eq_some hs)
    | release => exact .inl hk
  · rw [(h.frame hid).1] at hk
    exact .inl hk

theorem applyEntry_known {s : Manager × Store}
    (hk : ((applyEntry s e).1.1.status.lookup id).isSome = true) :
    (s.1.status.lookup id).isSome = true ∨ Brings e.batch id := by
  obtain ⟨st, hst⟩ := Option.isSome_iff_exists.mp hk
  have hrun := Option.isSome_of_eq_some (applyEntry_status hst)
  have key := loop_invariant (Manager.applyCmd s.2)
    (fun m _ => (m.status.lookup id).isSome = true →
      (s.1.status.lookup id).isSome = true ∨ Brings e.batch id)
    (batchCmds e.batch) s.1 [] .inl ?_
  · exact key hrun
  · intro m os c hc ih hk'
    rcases (applyCmd_change s.2 m c).known hk' with hm | ⟨u, hu, hid⟩
    · exact ih hm
    · exact .inr ⟨c, hc, u, hu, hid⟩

/-! ## A duplicate of a forgotten txn -/

/-- An upsert is delivered twice, in two batches; the replica applies the first
one at time `now`. -/
def duplicateLog (now : Int) : List Entry :=
  let txn : Txn := ⟨⟨1, 1, 1⟩, [⟨0, some (.upsert 16 [0] [])⟩], []⟩
  [⟨1, now, { autocommit := [⟨2, txn⟩], maxTimestamp := 2 }⟩,
    ⟨2, 0, { autocommit := [⟨3, txn⟩], maxTimestamp := 3 }⟩]

/-- The replica that has already forgotten the txn executes it again. -/
theorem replicas_disagree :
    ¬ ∀ (s : Manager × Store) (es es' : List Entry), SameLog es es' → ReplicasAgree s es es' := by
  intro h
  have hstore := (h (newPartition 1 0) (duplicateLog 0) (duplicateLog 5)
    (.cons ⟨rfl, rfl⟩ (.cons ⟨rfl, rfl⟩ .nil))).2.1
  exact absurd (congrArg (fun s : Store => s.records.length) hstore) (by decide)

theorem replicas_agree_duplicateLog : (SameLog (duplicateLog 0) (duplicateLog 1) ∧
      SameKnown (newPartition 1 0) (newPartition 1 0) (duplicateLog 0) (duplicateLog 1)) ∧
    ReplicasAgree (newPartition 1 0) (duplicateLog 0) (duplicateLog 1) := by
  have hl : SameLog (duplicateLog 0) (duplicateLog 1) :=
    .cons ⟨rfl, rfl⟩ (.cons ⟨rfl, rfl⟩ .nil)
  have hk : SameKnown (newPartition 1 0) (newPartition 1 0) (duplicateLog 0) (duplicateLog 1) :=
    ⟨by decide, by decide, trivial⟩
  exact ⟨⟨hl, hk⟩, replicas_agree _ _ _ hl hk⟩

end Scout.Txn
