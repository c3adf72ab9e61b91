import Scout.Txn.Batch

/-!
The invariant of the `Manager` that every command sequence keeps, whatever
timestamps the commands carry: each record is consistent in itself
(`RecordOk`) and the locks held by different txns are compatible.
-/

namespace Scout.Txn

open Data Mvcc Lib

/-- Consistency of what is kept about one txn: its status and its entry in
`prepared`. -/
structure RecordOk (id : TxnId) (s : Option TxnStatus) (p : Option Prepared) : Prop where
  has_status : ∀ x, p = some x → ∃ y, s = some y
  has_entry : ∀ y, s = some y → y.state.isFinal = false → ∃ x, p = some x
  held : ∀ x, p = some x → x.locksReleased = false → x.locks = x.txn.buildLocks
  open_held : ∀ x y, p = some x → s = some y → y.state.isFinal = false → x.locksReleased = false
  prepared_ts : ∀ x y, p = some x → s = some y → y.state = .prepared → y.timestamp = x.timestamp
  decided_ts : ∀ x y, p = some x → s = some y → y.state = .decided →
    ∃ d, x.decision = some d ∧ x.timestamp ≤ d.commitTimestamp
  aborted_released : ∀ x y, p = some x → s = some y → y.state = .aborted → x.locksReleased = true
  txn_id : ∀ x, p = some x → x.txn.id = id

theorem RecordOk.absent (id : TxnId) : RecordOk id none none := by
  constructor <;> intros <;> simp_all

variable {id : TxnId} {s : TxnStatus}

theorem RecordOk.closed {p : Option Prepared} (hf : s.state.isFinal = true)
    (hi : ∀ x, p = some x → x.txn.id = id)
    (hl : ∀ x, p = some x → x.locksReleased = false → x.locks = x.txn.buildLocks)
    (ha : s.state = .aborted → ∀ x, p = some x → x.locksReleased = true) :
    RecordOk id (some s) p where
  has_status := fun _ _ => ⟨s, rfl⟩
  has_entry := by
    intro y hy hn
    cases hy
    rw [hf] at hn
    cases hn
  held := hl
  open_held := by
    intro x y _ hy hn
    cases hy
    rw [hf] at hn
    cases hn
  prepared_ts := by
    intro x y _ hy hst
    cases hy
    rw [hst] at hf
    cases hf
  decided_ts := by
    intro x y _ hy hst
    cases hy
    rw [hst] at hf
    cases hf
  aborted_released := by
    intro x y hx hy hst
    cases hy
    exact ha hst x hx
  txn_id := hi

structure Coherent (m : Manager) : Prop where
  record : ∀ id, RecordOk id (m.status.lookup id) (m.prepared.lookup id)
  exclusive : ∀ i j p q, i ≠ j → m.prepared.lookup i = some p → m.prepared.lookup j = some q →
    p.locksReleased = false → q.locksReleased = false → Compatible p.locks q.locks

theorem coherent_new (pid : Nat) (cleanAfter : Int) : Coherent (newManager pid cleanAfter) where
  record := fun id => RecordOk.absent id
  exclusive := by
    intro i j p q _ hp
    cases hp

variable {db : Reads} {m m' : Manager} {c : Cmd} {o : Outcome}

theorem Change.recordOk (h : Change db m c m' o)
    (hc : RecordOk c.id (m.status.lookup c.id) (m.prepared.lookup c.id)) :
    RecordOk c.id (m'.status.lookup c.id) (m'.prepared.lookup c.id) := by
  cases h with
  | idle => exact hc
  | autocommit c hn =>
    -- no status means no entry either
    have hp : m.prepared.lookup c.txn.id = none := by
      cases hp : m.prepared.lookup c.txn.id with
      | none => rfl
      | some x =>
        obtain ⟨y, hy⟩ := hc.has_status x hp
        rw [Cmd.id, hn] at hy
        cases hy
    simp only [Cmd.id, AList.lookup_insert, hp]
    exact RecordOk.closed rfl (by simp) (by simp) (by simp)
  | prepare c =>
    simp only [Cmd.id, AList.lookup_insert]
    constructor <;> intros <;> simp_all [newStatus] <;> subst_vars <;> simp_all
  | commit c s p hs hp =>
    simp only [Cmd.id, AList.lookup_insert, hp] at hc ⊢
    exact RecordOk.closed rfl hc.txn_id hc.held (fun k => by cases k)
  | abort c s p hs hp =>
    simp only [Cmd.id, AList.lookup_insert, hp] at hc ⊢
    refine RecordOk.closed rfl ?_ ?_ ?_
    · intro x hx
      cases hx
      exact hc.txn_id p rfl
    · intro x hx hr
      cases hx
      cases hr
    · intro _ x hx
      cases hx
      rfl
  | storeDecision c s p hs hp _ hst ht =>
    simp only [Cmd.id, AList.lookup_insert, hp, hs] at hc ⊢
    have hts : s.timestamp = p.timestamp := hc.prepared_ts p s rfl rfl hst
    have hop : p.locksReleased = false := hc.open_held p s rfl rfl (by rw [hst]; rfl)
    refine ⟨fun _ _ => ⟨_, rfl⟩, fun _ _ _ => ⟨_, rfl⟩, ?_, ?_, ?_, ?_, ?_, ?_⟩
    · intro x hx hr
      cases hx
      exact hc.held p rfl hr
    · intro x y hx _ _
      cases hx
      exact hop
    · intro x y _ hy hsy
      cases hy
      cases hsy
    · intro x y hx _ _
      cases hx
      exact ⟨c.decision, rfl, hts ▸ ht⟩
    · intro x y _ hy hsy
      cases hy
      cases hsy
    · intro x hx
      cases hx
      exact hc.txn_id p rfl
  | markTimedout c s p hs hp =>
    simp only [Cmd.id, AList.lookup_insert, hp] at hc ⊢
    exact RecordOk.closed rfl hc.txn_id hc.held (fun k => by cases k)
  | release c s p hs hp _ hst =>
    simp only [Cmd.id, AList.lookup_insert, hp, hs] at hc ⊢
    refine RecordOk.closed (by rw [hst]; rfl) ?_ ?_ ?_
    · intro x hx
      cases hx
      exact hc.txn_id p rfl
    · intro x hx hr
      cases hx
      cases hr
    · intro _ x hx
      cases hx
      rfl

theorem Change.locks (h : Change db m c m' o) {p : Prepared} (hp : m'.prepared.lookup c.id = some p)
    (hr : p.locksReleased = false) :
    (∃ q, m.prepared.lookup c.id = some q ∧ q.locksReleased = false ∧ q.locks = p.locks) ∨
      ∀ i q, m.prepared.lookup i = some q → q.locksReleased = false →
        Compatible p.locks q.locks := by
  cases h with
  | idle => exact .inl ⟨p, hp, hr, rfl⟩
  | autocommit c => exact .inl ⟨p, hp, hr, rfl⟩
  | prepare c hn hl =>
    simp only [Cmd.id, AList.lookup_insert, Option.some.injEq] at hp
    subst hp
    exact .inr ((checkLocks_none_iff m _ _ _).mp hl)
  | commit c => exact .inl ⟨p, hp, hr, rfl⟩
  | abort c s q =>
    simp only [Cmd.id, AList.lookup_insert, Option.some.injEq] at hp
    subst hp
    cases hr
  | storeDecision c s q hs hq =>
    simp only [Cmd.id, AList.lookup_insert, Option.some.injEq] at hp
    subst hp
    exact .inl ⟨q, hq, hr, rfl⟩
  | markTimedout c => exact .inl ⟨p, hp, hr, rfl⟩
  | release c s q =>
    simp only [Cmd.id, AList.lookup_insert, Option.some.injEq] at hp
    subst hp
    cases hr

/-- **Every command keeps the invariant.** -/
theorem Coherent.step (hm : Coherent m) (h : Change db m c m' o) : Coherent m' where
  record := by
    intro id
    by_cases hid : id = c.id
    · subst hid
      exact h.recordOk (hm.record _)
    · obtain ⟨h1, h2⟩ := h.frame hid
      rw [h1, h2]
      exact hm.record id
  exclusive := by
    -- the case of the command's own txn against any other
    have key : ∀ j p q, j ≠ c.id → m'.prepared.lookup c.id = some p →
        m'.prepared.lookup j = some q → p.locksReleased = false → q.locksReleased = false →
        Compatible p.locks q.locks := by
      intro j p q hj hp hq hpr hqr
      rw [(h.frame hj).2] at hq
      rcases h.locks hp hpr with ⟨p', hp', hpr', he⟩ | hall
      · rw [← he]
        exact hm.exclusive _ j p' q (Ne.symm hj) hp' hq hpr' hqr
      · exact hall j q hq hqr
    intro i j p q hij hp hq hpr hqr
    by_cases hi : i = c.id
    · subst hi
      exact key j p q (Ne.symm hij) hp hq hpr hqr
    · by_cases hj : j = c.id
      · subst hj
        exact (key i q p hi hq hp hqr hpr).symm
      · rw [(h.frame hi).2] at hp
        rw [(h.frame hj).2] at hq
        exact hm.exclusive i j p q hij hp hq hpr hqr

theorem Coherent.applyCmd (hm : Coherent m) (db : Reads) (c : Cmd) :
    Coherent (m.applyCmd db c).1 := hm.step (applyCmd_change db m c)

theorem Coherent.runCmds (hm : Coherent m) (db : Reads) (cs : List Cmd) :
    Coherent (m.runCmds db cs).1 :=
  loop_invariant _ (fun m _ => Coherent m) cs m [] hm fun _ _ c _ h => h.applyCmd db c

/-! ## Final txns stay final within a batch -/

theorem Change.final_stays (h : Change db m c m' o) (hs : m.status.lookup id = some s)
    (hf : s.state.isFinal = true) : m'.status.lookup id = some s := by
  by_cases hid : id = c.id
  · subst hid
    cases h with
    | idle => exact hs
    | release => exact hs
    | autocommit c hn =>
      rw [Cmd.id, hn] at hs
      cases hs
    | prepare c hn =>
      rw [Cmd.id, hn] at hs
      cases hs
    | commit c s' p hs' hp hg =>
      rw [Cmd.id, hs'] at hs
      cases hs
      rcases hg with ⟨e, _⟩ | ⟨e, _⟩ <;> rw [e] at hf <;> cases hf
    | abort c s' p hs' hp e =>
      rw [Cmd.id, hs'] at hs
      cases hs
      rw [e] at hf
      cases hf
    | storeDecision c s' p hs' hp _ e =>
      rw [Cmd.id, hs'] at hs
      cases hs
      rw [e] at hf
      cases hf
    | markTimedout c s' p hs' hp _ e =>
      rw [Cmd.id, hs'] at hs
      cases hs
      rw [e] at hf
      cases hf
  · rw [(h.frame hid).1]
    exact hs

/-- Every txn whose locks the tail of the batch releases is final by then. -/
theorem runCmds_completion_final (m : Manager) (db : Reads) (cs : List Cmd) :
    ∀ id ∈ (m.runCmds db cs).2.filterMap Outcome.completion,
      ∃ s, (m.runCmds db cs).1.status.lookup id = some s ∧ s.state = .committed := by
  refine loop_invariant (Manager.applyCmd db) (fun m os => ∀ id ∈ os.filterMap Outcome.completion,
    ∃ s, m.status.lookup id = some s ∧ s.state = .committed) cs m [] (by simp) ?_
  intro m os c _ ih id hid
  have hch := applyCmd_change db m c
  rw [List.filterMap_append, List.mem_append] at hid
  rcases hid with hid | hid
  · obtain ⟨s, hs, hst⟩ := ih id hid
    exact ⟨s, hch.final_stays hs (by rw [hst]; rfl), hst⟩
  · generalize (m.applyCmd db c).1 = m', (m.applyCmd db c).2 = o at hch hid
    cases hch with
    | commit c s p =>
      simp only [List.filterMap_cons, List.filterMap_nil, List.mem_singleton] at hid
      subst hid
      exact ⟨_, AList.lookup_insert _, rfl⟩
    | _ => simp at hid

/-! ## The tail of a batch keeps the invariant -/

theorem Coherent.releaseAll (hm : Coherent m) (ids : List TxnId)
    (hf : ∀ id ∈ ids, ∃ s, m.status.lookup id = some s ∧ s.state.isFinal = true) :
    Coherent (ids.foldl Manager.releaseLocks m) where
  record := by
    intro id
    rw [(releaseAll_rest m ids).1, releaseAll_prepared]
    split
    · rename_i hid
      obtain ⟨s, hs, hfs⟩ := hf id hid
      rw [hs]
      have hr := hm.record id
      refine RecordOk.closed hfs ?_ ?_ ?_
      · intro x hx
        obtain ⟨p, hp, rfl⟩ := Option.map_eq_some_iff.mp hx
        exact hr.txn_id p hp
      · intro x hx hrel
        obtain ⟨p, hp, rfl⟩ := Option.map_eq_some_iff.mp hx
        cases hrel
      · intro _ x hx
        obtain ⟨p, hp, rfl⟩ := Option.map_eq_some_iff.mp hx
        rfl
    · exact hm.record id
  exclusive := by
    -- an entry that is still held is untouched
    have held : ∀ i p, (ids.foldl Manager.releaseLocks m).prepared.lookup i = some p →
        p.locksReleased = false → m.prepared.lookup i = some p := by
      intro i p hp hr
      rw [releaseAll_prepared] at hp
      split at hp
      · obtain ⟨q, _, rfl⟩ := Option.map_eq_some_iff.mp hp
        cases hr
      · exact hp
    intro i j p q hij hp hq hpr hqr
    exact hm.exclusive i j p q hij (held i p hp hpr) (held j q hq hqr) hpr hqr

theorem Coherent.cleanup (hm : Coherent m) (now : Int) : Coherent (m.cleanup now) where
  record := by
    intro id
    rw [cleanup_status, cleanup_prepared]
    split
    · exact RecordOk.absent id
    · exact hm.record id
  exclusive := by
    have kept : ∀ i p, (m.cleanup now).prepared.lookup i = some p →
        m.prepared.lookup i = some p := by
      intro i p hp
      rw [cleanup_prepared] at hp
      split at hp
      · cases hp
      · exact hp
    intro i j p q hij hp hq
    exact hm.exclusive i j p q hij (kept i p hp) (kept j q hq)

theorem Coherent.withMax (hm : Coherent m) (t : Nat) :
    Coherent { m with maxTimestamp := t } := ⟨hm.record, hm.exclusive⟩

theorem Coherent.finish (hm : Coherent m) {os : List Outcome} (t : Nat) (now : Int)
    (hf : ∀ id ∈ os.filterMap Outcome.completion,
      ∃ s, m.status.lookup id = some s ∧ s.state = .committed) : Coherent (m.finish os t now) := by
  refine ((hm.releaseAll _ fun id hid => ?_).withMax t).cleanup now
  obtain ⟨st, hs, hst⟩ := hf id hid
  exact ⟨st, hs, by rw [hst]; rfl⟩

/-- **Every batch keeps the invariant.** -/
theorem Coherent.entry {s : Manager × Store} (hm : Coherent s.1) (e : Entry) :
    Coherent (applyEntry s e).1.1 := by
  rw [applyEntry_manager]
  exact (hm.runCmds s.2 _).finish _ _ (runCmds_completion_final s.1 s.2 _)

/-- **The invariant holds in every reachable state.** -/
theorem Coherent.log {s : Manager × Store} (hm : Coherent s.1) (es : List Entry) :
    Coherent (applyLog s es).1.1 :=
  applyLog_invariant (fun s => Coherent s.1) s es hm (fun _ e _ h => h.entry e)

theorem coherent_run (pid : Nat) (cleanAfter : Int) (es : List Entry) :
    Coherent (applyLog (newPartition pid cleanAfter) es).1.1 :=
  Coherent.log (s := newPartition pid cleanAfter) (coherent_new pid cleanAfter) es

end Scout.Txn
