import Scout.Txn.Snapshot
import Scout.Txn.Reader

/-!
A replica that was restored from a snapshot behaves as the replica the snapshot
was taken of. The two hold equal records, possibly in another order in the maps
(`Same`); every batch keeps that and is answered alike, and everything that is
read from the manager depends on the records only.
-/

namespace Scout.Txn

open Data Mvcc Lib

/-- Equal managers, up to the order of the entries in their maps. -/
structure Same (m n : Manager) : Prop where
  pid : m.pid = n.pid
  cleanAfter : m.cleanAfter = n.cleanAfter
  maxTimestamp : m.maxTimestamp = n.maxTimestamp
  record : ∀ id, Agree m n id

variable {m n : Manager}

theorem Same.sim (h : Same m n) : Sim m n :=
  ⟨h.pid, h.cleanAfter, h.maxTimestamp, fun id => .inl (h.record id)⟩

/-! ## Batches -/

theorem Same.step (h : Same m n) (db : Store) (c : Cmd) :
    (m.applyCmd db c).2 = (n.applyCmd db c).2 ∧ Same (m.applyCmd db c).1 (n.applyCmd db c).1 := by
  obtain ⟨ho, hs, ha⟩ := h.sim.step db c (h.record c.id)
  exact ⟨ho, hs.pid, hs.cleanAfter, hs.maxTimestamp, fun id => ha id (h.record id)⟩

theorem Same.runCmds (h : Same m n) (db : Store) (cs : List Cmd) :
    (m.runCmds db cs).2 = (n.runCmds db cs).2 ∧ Same (m.runCmds db cs).1 (n.runCmds db cs).1 := by
  induction cs generalizing m n with
  | nil => exact ⟨rfl, h⟩
  | cons c cs ih =>
    obtain ⟨ho, hs⟩ := h.step db c
    obtain ⟨ho', hs'⟩ := ih hs
    rw [runCmds_cons, runCmds_cons, ho, ho']
    exact ⟨rfl, hs'⟩

theorem Same.releaseAll (h : Same m n) (ids : List TxnId) :
    Same (ids.foldl Manager.releaseLocks m) (ids.foldl Manager.releaseLocks n) := by
  have hs := h.sim.releaseAll ids
  refine ⟨hs.pid, hs.cleanAfter, hs.maxTimestamp, fun id => ⟨?_, ?_⟩⟩
  · rw [(releaseAll_rest m ids).1, (releaseAll_rest n ids).1]
    exact (h.record id).1
  · rw [releaseAll_prepared, releaseAll_prepared, (h.record id).2]

theorem Same.withMax (h : Same m n) (t : Nat) :
    Same { m with maxTimestamp := t } { n with maxTimestamp := t } :=
  ⟨h.pid, h.cleanAfter, rfl, h.record⟩

theorem Same.cleanup (h : Same m n) (now : Int) : Same (m.cleanup now) (n.cleanup now) := by
  have forgets : ∀ id, m.forgets now id = n.forgets now id := by
    intro id
    unfold Manager.forgets Manager.removable
    rw [(h.record id).1, (h.record id).2, h.cleanAfter]
  refine ⟨h.pid, h.cleanAfter, h.maxTimestamp, fun id => ⟨?_, ?_⟩⟩
  · rw [cleanup_status, cleanup_status, forgets, (h.record id).1]
  · rw [cleanup_prepared, cleanup_prepared, forgets, (h.record id).2]

theorem Same.entry (h : Same m n) (db : Store) (e : Entry) :
    (applyEntry (m, db) e).2 = (applyEntry (n, db) e).2 ∧
    (applyEntry (m, db) e).1.2 = (applyEntry (n, db) e).1.2 ∧
    Same (applyEntry (m, db) e).1.1 (applyEntry (n, db) e).1.1 := by
  obtain ⟨ho, hs⟩ := h.runCmds db (batchCmds e.batch)
  refine ⟨?_, ?_, ?_⟩
  · refine applyEntry_results_congr rfl ?_
    rw [applyEntry_results, applyEntry_results, ho]
  · change (m.applyBatch db e.index e.now e.batch).2.1 =
      (n.applyBatch db e.index e.now e.batch).2.1
    rw [applyBatch_store, applyBatch_store, ho]
  · rw [applyEntry_manager, applyEntry_manager]
    rw [ho]
    have hr := hs.releaseAll ((n.runCmds db (batchCmds e.batch)).2.filterMap Outcome.completion)
    exact (hr.withMax e.batch.maxTimestamp).cleanup e.now

theorem Same.log (h : Same m n) (db : Store) (es : List Entry) :
    (applyLog (m, db) es).2 = (applyLog (n, db) es).2 ∧
    (applyLog (m, db) es).1.2 = (applyLog (n, db) es).1.2 ∧
    Same (applyLog (m, db) es).1.1 (applyLog (n, db) es).1.1 := by
  induction es generalizing m n db with
  | nil => exact ⟨rfl, rfl, h⟩
  | cons e es ih =>
    obtain ⟨h1, h2, h3⟩ := h.entry db e
    obtain ⟨i1, i2, i3⟩ := ih h3 (applyEntry (m, db) e).1.2
    have hstate : (applyEntry (n, db) e).1 =
        ((applyEntry (n, db) e).1.1, (applyEntry (m, db) e).1.2) := Prod.ext rfl h2.symm
    rw [applyLog_cons, applyLog_cons, hstate, h1]
    exact ⟨congrArg (List.cons _) i1, i2, i3⟩

/-! ## Reads of the manager -/

theorem Same.conflicts (h : Same m n) {ls : List Lock} {id : TxnId} {p : Prepared}
    (hc : Conflicts m ls id p) : Conflicts n ls id p := by
  obtain ⟨⟨hp, s, hs, hf⟩, hclash⟩ := hc
  refine ⟨⟨?_, s, ?_, hf⟩, hclash⟩
  · rw [← (h.record id).2]
    exact hp
  · rw [← (h.record id).1]
    exact hs

theorem Same.symm (h : Same m n) : Same n m :=
  ⟨h.pid.symm, h.cleanAfter.symm, h.maxTimestamp.symm,
    fun id => ⟨(h.record id).1.symm, (h.record id).2.symm⟩⟩

theorem Same.safeTimestamp (h : Same m n) (hm : Coherent m) (hn : Coherent n) (txn : Txn) :
    m.getSafeTimestamp txn = n.getSafeTimestamp txn := by
  have lock : ∀ l, m.safeTimestampForLock l = n.safeTimestampForLock l := by
    intro l
    refine eq_of_forall_le_iff fun x => ?_
    rw [le_safeTimestampForLock hm, le_safeTimestampForLock hn]
    refine and_congr_right fun _ => ⟨?_, ?_⟩
    · intro hx id p hc
      exact hx id p (h.symm.conflicts hc)
    · intro hx id p hc
      exact hx id p (h.conflicts hc)
  unfold Manager.getSafeTimestamp Manager.safeTimestampForLocks
  simp only [lock, h.maxTimestamp]

theorem mem_getRunning {r : Running} : r ∈ m.getRunning ↔
    ∃ id p s, m.prepared.lookup id = some p ∧ m.status.lookup id = some s ∧
      id.principalPid = m.pid ∧ p.locksReleased = false ∧
      r = { id, timestamp := s.timestamp, state := s.state,
            participantPids := s.participantPids, decision := p.decision } := by
  unfold Manager.getRunning
  rw [List.mem_filterMap]
  constructor
  · rintro ⟨e, he, hr⟩
    split at hr
    · cases hr
    rename_i hc
    obtain ⟨s, hs, rfl⟩ := Option.map_eq_some_iff.mp hr
    simp only [Bool.or_eq_true, decide_eq_true_eq, not_or, not_not, Bool.not_eq_true] at hc
    exact ⟨e.1, e.2, s, (mem_entries_iff _ _ _).mp he, hs, hc.1, hc.2, rfl⟩
  · rintro ⟨id, p, s, hp, hs, hpid, hrel, rfl⟩
    refine ⟨⟨id, p⟩, (mem_entries_iff _ _ _).mpr hp, ?_⟩
    simp [hpid, hrel, hs]

theorem Same.getRunning (h : Same m n) {r : Running} (hr : r ∈ m.getRunning) :
    r ∈ n.getRunning := by
  obtain ⟨id, p, s, hp, hs, hpid, hrel, e⟩ := mem_getRunning.mp hr
  refine mem_getRunning.mpr ⟨id, p, s, ?_, ?_, ?_, hrel, e⟩
  · rw [← (h.record id).2]
    exact hp
  · rw [← (h.record id).1]
    exact hs
  · rw [← h.pid]
    exact hpid

/-! ## Snapshots -/

theorem restore_same (h : Sound m) :
    Same ((newManager m.pid m.cleanAfter).restore m.snapshot.roundTrip) m :=
  ⟨rfl, rfl, rfl, restore_agree h _⟩

/-- **Snapshots are transparent**: after any batches over the same store a
manager restored from the snapshot has given the same answers and left the same
store and state as the manager that went on. -/
theorem snapshot_transparent {pid : Nat} {m : Manager} (hm : Reachable pid m) (db : Store)
    (es : List Entry) :
    let restored := applyLog ((newManager m.pid m.cleanAfter).restore m.snapshot.roundTrip, db) es
    let continued := applyLog (m, db) es
    restored.2 = continued.2 ∧ restored.1.2 = continued.1.2 ∧
    (∀ txn, restored.1.1.getSafeTimestamp txn = continued.1.1.getSafeTimestamp txn) ∧
    (∀ r, r ∈ restored.1.1.getRunning ↔ r ∈ continued.1.1.getRunning) ∧
    Same restored.1.1 continued.1.1 := by
  have hs := restore_same hm.sound
  obtain ⟨h1, h2, h3⟩ := hs.log db es
  have hc : Coherent (applyLog (m, db) es).1.1 := Coherent.log (s := (m, db)) hm.sound.coherent es
  have hr := Coherent.log (s := (_, db)) (hm.sound.congr hs.record).coherent es
  exact ⟨h1, h2, h3.safeTimestamp hr hc, fun r => ⟨h3.getRunning, h3.symm.getRunning⟩, h3⟩

/-- The prepared txns of the snapshot are committed after it. -/
theorem snapshot_transparent_twoPrepared : twoPrepared.prepared.entries.length = 2 ∧
    (applyLog ((newManager 1 0).restore twoPrepared.snapshot.roundTrip, Store.empty)
      [⟨2, 0, { commit := [⟨4, ⟨1, 1, 1⟩⟩], maxTimestamp := 4 }⟩]).1.2 =
    (applyLog (twoPrepared, Store.empty)
      [⟨2, 0, { commit := [⟨4, ⟨1, 1, 1⟩⟩], maxTimestamp := 4 }⟩]).1.2 :=
  ⟨by decide, (snapshot_transparent twoPrepared_reachable Store.empty _).2.1⟩

end Scout.Txn
