import Scout.Txn.Effects

/-!
`ApplyBatch` as one run over all commands of a batch followed by its tail
(release of committed locks, max timestamp, `cleanup`), and the lookups that
the tail leaves.
-/

namespace Scout.Txn

open Data Mvcc Lib

/-! ## Frame of a single command -/

variable {db : Reads} {m m' : Manager} {c : Cmd} {o : Outcome} {id : TxnId}

theorem Change.frame (h : Change db m c m' o) (hne : id ≠ c.id) :
    m'.status.lookup id = m.status.lookup id ∧ m'.prepared.lookup id = m.prepared.lookup id := by
  cases h <;> simp only [Cmd.id] at hne <;>
    simp only [ne_eq, hne, not_false_eq_true, AList.lookup_insert_ne, and_self]

theorem Change.pid (h : Change db m c m' o) : m'.pid = m.pid := by cases h <;> rfl

theorem applyCmd_pid (db : Reads) (m : Manager) (c : Cmd) : (m.applyCmd db c).1.pid = m.pid :=
  (applyCmd_change db m c).pid

theorem checkLock_iff (m : Manager) (l : Lock) :
    m.checkLock l = true ↔ ∀ id p, m.prepared.lookup id = some p → p.locksReleased = false →
      ∀ k ∈ p.locks, l.compatibleWith k = true := by
  unfold Manager.checkLock
  rw [List.all_eq_true]
  constructor
  · intro h id p hp hr k hk
    have := h ⟨id, p⟩ ((mem_entries_iff _ _ _).mpr hp)
    simp only [hr, Bool.false_or, List.all_eq_true] at this
    exact this k hk
  · intro h e he
    cases hr : e.2.locksReleased with
    | true => rfl
    | false =>
      simp only [Bool.false_or, List.all_eq_true]
      exact h e.1 e.2 ((mem_entries_iff _ _ _).mp he) hr

/-- A txn passes the lock check exactly when its locks are compatible with all
locks held. -/
theorem checkLocks_none_iff (m : Manager) (id : TxnId) (t : Nat) (ls : List Lock) :
    m.checkLocks id t ls = none ↔ ∀ i p, m.prepared.lookup i = some p →
      p.locksReleased = false → Compatible ls p.locks := by
  unfold Manager.checkLocks
  rw [Option.map_eq_none_iff, List.find?_eq_none]
  constructor
  · intro h i p hp hr l hl k hk
    have hc := h l hl
    simp only [Bool.not_eq_true', Bool.not_eq_false] at hc
    exact (checkLock_iff m l).mp hc i p hp hr k hk
  · intro h l hl
    simp only [Bool.not_eq_true', Bool.not_eq_false]
    exact (checkLock_iff m l).mpr (fun i p hp hr k hk => h i p hp hr l hl k hk)

/-- **Locks mean what they should.** Proper locks are incompatible exactly when they conflict;
compatibility is symmetric for all locks; and the lock check admits a txn exactly when none of
its locks conflicts with a lock of another prepared txn. It is made only for txns that are not
prepared themselves. -/
theorem locks_conflict_iff :
    (∀ l k : Lock, l.Proper → k.Proper → (l.compatibleWith k = false ↔ l.Conflicts k)) ∧
    (∀ l k : Lock, l.compatibleWith k = k.compatibleWith l) ∧
    ∀ (m : Manager) (id : TxnId) (t : Nat) (ls : List Lock), m.prepared.lookup id = none →
      (∀ l ∈ ls, l.Proper) → (∀ i p, m.prepared.lookup i = some p → ∀ k ∈ p.locks, k.Proper) →
      (m.checkLocks id t ls = none ↔ ∀ l ∈ ls, ∀ i p, i ≠ id → m.prepared.lookup i = some p →
        p.locksReleased = false → ∀ k ∈ p.locks, ¬ l.Conflicts k) := by
  refine ⟨fun l k => compatibleWith_eq_false, compatibleWith_symm, ?_⟩
  intro m id t ls hown hls hheld
  rw [checkLocks_none_iff]
  constructor
  · intro h l hl i p _ hp hr k hk hconf
    have hc := h i p hp hr l hl k hk
    rw [hconf.incompatible] at hc
    cases hc
  · intro h i p hp hr l hl k hk
    have hne : i ≠ id := by
      rintro rfl
      rw [hown] at hp
      cases hp
    have hno := h l hl i p hne hp hr k hk
    rw [← compatibleWith_eq_false (hls l hl) (hheld i p hp k hk)] at hno
    exact Bool.eq_true_of_not_eq_false hno

/-- A range held up to `[5]` conflicts with the key `[4]`, and not with `[5]`. -/
theorem locks_conflict_iff_range :
    Lock.Conflicts ⟨0, .rangeLock ⟨16, [1], [5], true⟩⟩ ⟨0, .keyLock ⟨16, [4], false⟩⟩ ∧
    ¬ Lock.Conflicts ⟨0, .rangeLock ⟨16, [1], [5], true⟩⟩ ⟨0, .keyLock ⟨16, [5], false⟩⟩ := by
  constructor
  · exact (locks_conflict_iff.1 _ _ (by decide) (by decide)).mp (by decide)
  · exact (locks_conflict_iff.1 _ _ (by decide) (by decide)).not.mp (by decide)

/-! ## The commands of a batch in the order they are applied -/

def batchCmds (b : TxnBatch) : List Cmd :=
  b.abort.map .abort ++ b.markTimedout.map .markTimedout ++ b.commit.map .commit ++
    b.autocommit.map .autocommit ++ b.prepare.map .prepare ++ b.storeDecision.map .storeDecision

def BatchResults.all (r : BatchResults) : List BatchResult :=
  r.abort ++ r.markTimedout ++ r.commit ++ r.autocommit ++ r.prepare ++ r.storeDecision

/-- What `ApplyBatch` does once all commands ran. -/
def Manager.finish (m : Manager) (outcomes : List Outcome) (maxTimestamp : Nat) (now : Int) :
    Manager :=
  Manager.cleanup
    { (outcomes.filterMap Outcome.completion).foldl Manager.releaseLocks m with maxTimestamp } now

theorem mem_batchCmds (b : TxnBatch) (c : Cmd) : c ∈ batchCmds b ↔
    match c with
    | .abort x => x ∈ b.abort
    | .markTimedout x => x ∈ b.markTimedout
    | .commit x => x ∈ b.commit
    | .autocommit x => x ∈ b.autocommit
    | .prepare x => x ∈ b.prepare
    | .storeDecision x => x ∈ b.storeDecision := by
  cases c <;> simp [batchCmds]

theorem runCmds_append (m : Manager) (db : Reads) (xs ys : List Cmd) : m.runCmds db (xs ++ ys) =
      (((m.runCmds db xs).1.runCmds db ys).1,
        (m.runCmds db xs).2 ++ ((m.runCmds db xs).1.runCmds db ys).2) :=
  loop_append _ m xs ys

theorem runCmds_cons (m : Manager) (db : Reads) (c : Cmd) (cs : List Cmd) : m.runCmds db (c :: cs) =
      (((m.applyCmd db c).1.runCmds db cs).1,
        (m.applyCmd db c).2 :: ((m.applyCmd db c).1.runCmds db cs).2) := rfl

theorem Change.writes_nil (h : Change db m c m' o) (hc : ∀ x, c ≠ .commit x)
    (ha : ∀ x, c ≠ .autocommit x) : o.writes = [] := by
  cases h with
  | autocommit c => exact absurd rfl (ha c)
  | commit c => exact absurd rfl (hc c)
  | _ => rfl

theorem Change.completion_none (h : Change db m c m' o) (hc : ∀ x, c ≠ .commit x) :
    o.completion = none := by
  cases h with
  | commit c => exact absurd rfl (hc c)
  | _ => rfl

/-- Only commits and autocommits write. -/
theorem runCmds_writes_nil (m : Manager) (db : Reads) (cs : List Cmd)
    (hc : ∀ c ∈ cs, ∀ x, c ≠ .commit x) (ha : ∀ c ∈ cs, ∀ x, c ≠ .autocommit x) :
    (m.runCmds db cs).2.flatMap Outcome.writes = [] := by
  rw [List.flatMap_eq_nil_iff]
  intro o ho
  obtain ⟨ys, c, zs, e, rfl⟩ := loop_answer _ _ _ _ ho
  have hm : c ∈ cs := by simp [e]
  exact (applyCmd_change db _ c).writes_nil (hc c hm) (ha c hm)

theorem runCmds_completion_nil (m : Manager) (db : Reads) (cs : List Cmd)
    (hc : ∀ c ∈ cs, ∀ x, c ≠ .commit x) :
    (m.runCmds db cs).2.filterMap Outcome.completion = [] := by
  rw [List.filterMap_eq_nil_iff]
  intro o ho
  obtain ⟨ys, c, zs, e, rfl⟩ := loop_answer _ _ _ _ ho
  exact (applyCmd_change db _ c).completion_none (hc c (by simp [e]))

theorem applyBatch_store (m : Manager) (db : Store) (index : Nat) (now : Int) (b : TxnBatch) :
    (m.applyBatch db index now b).2.1 =
      db.put index ((m.runCmds db (batchCmds b)).2.flatMap Outcome.writes) := by
  simp only [Manager.applyBatch, batchCmds, runCmds_append, List.flatMap_append]
  rw [runCmds_writes_nil m db (b.abort.map .abort), runCmds_writes_nil _ db (b.markTimedout.map _),
    runCmds_writes_nil _ db (b.prepare.map _), runCmds_writes_nil _ db (b.storeDecision.map _)]
  · simp only [List.nil_append, List.append_nil]
  all_goals simp

theorem applyBatch_manager (m : Manager) (db : Store) (index : Nat) (now : Int) (b : TxnBatch) :
    (m.applyBatch db index now b).1 =
      (m.runCmds db (batchCmds b)).1.finish (m.runCmds db (batchCmds b)).2 b.maxTimestamp now := by
  simp only [Manager.applyBatch, Manager.finish, batchCmds, runCmds_append, List.filterMap_append]
  rw [runCmds_completion_nil m db (b.abort.map .abort),
    runCmds_completion_nil _ db (b.markTimedout.map _),
    runCmds_completion_nil _ db (b.autocommit.map _),
    runCmds_completion_nil _ db (b.prepare.map _),
    runCmds_completion_nil _ db (b.storeDecision.map _)]
  · simp only [List.nil_append, List.append_nil]
  all_goals simp

theorem applyBatch_results (m : Manager) (db : Store) (index : Nat) (now : Int) (b : TxnBatch) :
    (m.applyBatch db index now b).2.2.all = (m.runCmds db (batchCmds b)).2.map Outcome.result := by
  simp only [Manager.applyBatch, BatchResults.all, batchCmds, runCmds_append, List.map_append]

/-! ## The tail of a batch -/

theorem releaseLocks_status (m : Manager) (id : TxnId) : (m.releaseLocks id).status = m.status := by
  unfold Manager.releaseLocks
  split <;> rfl

theorem releaseLocks_prepared (m : Manager) (x id : TxnId) : (m.releaseLocks x).prepared.lookup id =
      if id = x then (m.prepared.lookup id).map Prepared.releaseLocks
      else m.prepared.lookup id := by
  unfold Manager.releaseLocks
  split
  · rename_i p hp
    by_cases h : id = x
    · subst h
      simp [hp]
    · simp [h, AList.lookup_insert_ne h]
  · rename_i hp
    by_cases h : id = x
    · subst h
      simp [hp]
    · simp [h]

theorem releaseLocks_rest (m : Manager) (x : TxnId) : (m.releaseLocks x).pid = m.pid ∧
    (m.releaseLocks x).cleanAfter = m.cleanAfter ∧
    (m.releaseLocks x).maxTimestamp = m.maxTimestamp := by
  unfold Manager.releaseLocks
  split <;> exact ⟨rfl, rfl, rfl⟩

theorem releaseAll_rest (m : Manager) (ids : List TxnId) :
    (ids.foldl Manager.releaseLocks m).status = m.status ∧
    (ids.foldl Manager.releaseLocks m).pid = m.pid ∧
    (ids.foldl Manager.releaseLocks m).cleanAfter = m.cleanAfter := by
  induction ids generalizing m with
  | nil => exact ⟨rfl, rfl, rfl⟩
  | cons x ids ih =>
    obtain ⟨h1, h2, h3⟩ := ih (m.releaseLocks x)
    obtain ⟨r1, r2, _⟩ := releaseLocks_rest m x
    rw [List.foldl_cons, h1, h2, h3, releaseLocks_status, r1, r2]
    exact ⟨rfl, rfl, rfl⟩

theorem releaseAll_maxTimestamp (m : Manager) (ids : List TxnId) :
    (ids.foldl Manager.releaseLocks m).maxTimestamp = m.maxTimestamp := by
  induction ids generalizing m with
  | nil => rfl
  | cons x ids ih => rw [List.foldl_cons, ih, (releaseLocks_rest m x).2.2]

theorem releaseAll_prepared (m : Manager) (ids : List TxnId) (id : TxnId) :
    (ids.foldl Manager.releaseLocks m).prepared.lookup id =
      if id ∈ ids then (m.prepared.lookup id).map Prepared.releaseLocks
      else m.prepared.lookup id := by
  induction ids generalizing m with
  | nil => rfl
  | cons x ids ih =>
    rw [List.foldl_cons, ih, releaseLocks_prepared]
    by_cases h : id = x
    · subst h
      cases m.prepared.lookup id <;> simp [Prepared.releaseLocks]
    · simp [h]

/-- `cleanup` at this clock reading drops the txn. -/
def Manager.forgets (m : Manager) (now : Int) (id : TxnId) : Bool :=
  match m.status.lookup id with
  | some s => m.removable (fromTime (now - m.cleanAfter)) id s
  | none => false

theorem mem_toRemove (m : Manager) (oldest : Nat) (id : TxnId) :
    id ∈ (m.status.entries.filter fun e => m.removable oldest e.1 e.2).map Sigma.fst ↔
      ∃ s, m.status.lookup id = some s ∧ m.removable oldest id s = true := by
  rw [List.mem_map]
  constructor
  · rintro ⟨⟨i, s⟩, he, rfl⟩
    obtain ⟨hm, hr⟩ := List.mem_filter.mp he
    exact ⟨s, (mem_entries_iff _ _ _).mp hm, hr⟩
  · rintro ⟨s, hs, hr⟩
    exact ⟨⟨id, s⟩, List.mem_filter.mpr ⟨(mem_entries_iff _ _ _).mpr hs, hr⟩, rfl⟩

theorem forgets_iff (m : Manager) (now : Int) (id : TxnId) : m.forgets now id = true ↔
    ∃ s, m.status.lookup id = some s ∧ m.removable (fromTime (now - m.cleanAfter)) id s = true := by
  unfold Manager.forgets
  cases m.status.lookup id <;> simp

theorem cleanup_status (m : Manager) (now : Int) (id : TxnId) :
    (m.cleanup now).status.lookup id = if m.forgets now id then none else m.status.lookup id := by
  simp only [Manager.cleanup, lookup_eraseAll, mem_toRemove, ← forgets_iff]

theorem cleanup_prepared (m : Manager) (now : Int) (id : TxnId) :
    (m.cleanup now).prepared.lookup id =
      if m.forgets now id then none else m.prepared.lookup id := by
  simp only [Manager.cleanup, lookup_eraseAll, mem_toRemove, ← forgets_iff]

theorem forgets_final {now : Int} (h : m.forgets now id = true) :
    ∃ s, m.status.lookup id = some s ∧ s.state.isFinal = true ∧
      ∀ p, m.prepared.lookup id = some p → p.locksReleased = true := by
  obtain ⟨s, hs, hr⟩ := (forgets_iff m now id).mp h
  refine ⟨s, hs, ?_⟩
  unfold Manager.removable at hr
  split at hr
  · cases hr
  rename_i hc
  simp only [Bool.or_eq_true, decide_eq_true_eq, Bool.not_eq_true', not_or,
    Bool.not_eq_false] at hc
  refine ⟨hc.2, ?_⟩
  intro p hp
  simpa [hp] using hr

/-! ## Logs -/

/-- A committed log entry as one replica applies it: `now` is the wall clock
that `cleanup` reads at that moment. -/
structure Entry where
  index : Nat
  now : Int
  batch : TxnBatch

/-- `FSM.Apply` on the state machine and its store. -/
def applyEntry (s : Manager × Store) (e : Entry) : (Manager × Store) × BatchResults :=
  let r := s.1.applyBatch s.2 e.index e.now e.batch
  ((r.1, r.2.1), r.2.2)

def newPartition (pid : Nat) (cleanAfter : Int) : Manager × Store :=
  (newManager pid cleanAfter, Store.empty)

def applyLog (s : Manager × Store) (es : List Entry) : (Manager × Store) × List BatchResults :=
  loop applyEntry s es

def entryWrites (s : Manager × Store) (e : Entry) : List Record :=
  (s.1.runCmds s.2 (batchCmds e.batch)).2.flatMap Outcome.writes

def logWrites (s : Manager × Store) : List Entry → List Record
  | [] => []
  | e :: es => entryWrites s e ++ logWrites (applyEntry s e).1 es

theorem applyEntry_manager (s : Manager × Store) (e : Entry) :
    (applyEntry s e).1.1 = (s.1.runCmds s.2 (batchCmds e.batch)).1.finish
      (s.1.runCmds s.2 (batchCmds e.batch)).2 e.batch.maxTimestamp e.now :=
  applyBatch_manager s.1 s.2 e.index e.now e.batch

theorem applyEntry_results (s : Manager × Store) (e : Entry) : (applyEntry s e).2.all =
      (s.1.runCmds s.2 (batchCmds e.batch)).2.map Outcome.result :=
  applyBatch_results s.1 s.2 e.index e.now e.batch

variable {s : Manager × Store} {e : Entry}

theorem applyEntry_status {st : TxnStatus} (h : (applyEntry s e).1.1.status.lookup id = some st) :
    (s.1.runCmds s.2 (batchCmds e.batch)).1.status.lookup id = some st := by
  rw [applyEntry_manager, Manager.finish, cleanup_status] at h
  split at h
  · cases h
  · rwa [(releaseAll_rest _ _).1] at h

theorem applyEntry_zip (s : Manager × Store) (e : Entry) :
    (batchCmds e.batch).zip (applyEntry s e).2.all =
      (e.batch.abort.map .abort).zip (applyEntry s e).2.abort ++
      (e.batch.markTimedout.map .markTimedout).zip (applyEntry s e).2.markTimedout ++
      (e.batch.commit.map .commit).zip (applyEntry s e).2.commit ++
      (e.batch.autocommit.map .autocommit).zip (applyEntry s e).2.autocommit ++
      (e.batch.prepare.map .prepare).zip (applyEntry s e).2.prepare ++
      (e.batch.storeDecision.map .storeDecision).zip (applyEntry s e).2.storeDecision := by
  unfold batchCmds BatchResults.all
  simp only [applyEntry, Manager.applyBatch, Manager.runCmds]
  repeat rw [List.zip_append (by simp)]

theorem mem_applyEntry_zip {x : Cmd × BatchResult}
    (h : x ∈ (batchCmds e.batch).zip (applyEntry s e).2.all) :
    ∃ pre post, batchCmds e.batch = pre ++ x.1 :: post ∧
      x.2 = ((s.1.runCmds s.2 pre).1.applyCmd s.2 x.1).2.result := by
  rw [applyEntry_results, List.zip_map_right] at h
  obtain ⟨y, hy, rfl⟩ := List.mem_map.mp h
  obtain ⟨pre, post, e, hr⟩ := loop_zip_answer _ _ _ _ hy
  exact ⟨pre, post, e, congrArg Outcome.result hr⟩

theorem applyEntry_records (s : Manager × Store) (e : Entry) : (applyEntry s e).1.2.records =
      overwriteAll Record.address Record.timestamp s.2.records (entryWrites s e) := by
  change (s.1.applyBatch s.2 e.index e.now e.batch).2.1.records = _
  rw [applyBatch_store]
  rfl

theorem applyLog_cons (s : Manager × Store) (e : Entry) (es : List Entry) : applyLog s (e :: es) =
      ((applyLog (applyEntry s e).1 es).1,
        (applyEntry s e).2 :: (applyLog (applyEntry s e).1 es).2) := rfl

theorem applyLog_snoc (s : Manager × Store) (es : List Entry) (e : Entry) :
    (applyLog s (es ++ [e])).1 = (applyEntry (applyLog s es).1 e).1 := by
  rw [applyLog, loop_append]
  rfl

theorem applyLog_append (s : Manager × Store) (es es' : List Entry) : applyLog s (es ++ es') =
      ((applyLog (applyLog s es).1 es').1,
        (applyLog s es).2 ++ (applyLog (applyLog s es).1 es').2) :=
  loop_append _ s es es'

theorem logWrites_append (s : Manager × Store) (es es' : List Entry) :
    logWrites s (es ++ es') = logWrites s es ++ logWrites (applyLog s es).1 es' := by
  induction es generalizing s with
  | nil => rfl
  | cons e es ih => simp only [List.cons_append, logWrites, ih, applyLog_cons, List.append_assoc]

theorem applyLog_records (s : Manager × Store) (es : List Entry) : (applyLog s es).1.2.records =
      overwriteAll Record.address Record.timestamp s.2.records (logWrites s es) := by
  induction es generalizing s with
  | nil => rfl
  | cons e es ih =>
    rw [applyLog_cons, logWrites, overwriteAll_append, ← applyEntry_records]
    exact ih (applyEntry s e).1

theorem mem_entryWrites {r : Record} (h : r ∈ entryWrites s e) :
    ∃ pre c post, batchCmds e.batch = pre ++ c :: post ∧
      r ∈ ((s.1.runCmds s.2 pre).1.applyCmd s.2 c).2.writes := by
  obtain ⟨o, ho, hr⟩ := List.mem_flatMap.mp h
  obtain ⟨pre, c, post, he, rfl⟩ := loop_answer _ _ _ _ ho
  exact ⟨pre, c, post, he, hr⟩

theorem applyLog_invariant (I : Manager × Store → Prop) (s : Manager × Store) (es : List Entry)
    (h₀ : I s) (hstep : ∀ s, ∀ e ∈ es, I s → I (applyEntry s e).1) : I (applyLog s es).1 :=
  loop_invariant applyEntry (fun s _ => I s) es s [] h₀ (fun s _ e he h => hstep s e he h)

end Scout.Txn
