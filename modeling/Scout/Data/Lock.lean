import Scout.Data.Txn

/-!
Locks of `internal/data/data_txn.go`. `Lock.covers` is the set of addresses a
lock stands for; the compatibility tests of the source are shown to keep an
exclusively locked key out of every compatible lock.
-/

namespace Scout.Data

/-- `mvcc.Address`. -/
structure Address where
  keyspace : Nat
  key : Bytes
  deriving DecidableEq, Repr

inductive LockPayload where
  | keyLock (lock : KeyLock)
  | rangeLock (lock : RangeLock)
  deriving DecidableEq, Repr

structure Lock where
  actionId : Nat
  payload : LockPayload
  deriving DecidableEq, Repr

/-- `bytes.Compare`: bytewise lexicographic order. -/
def compareBytes (a b : Bytes) : Int := if a < b then -1 else if a = b then 0 else 1

theorem compareBytes_neg (a b : Bytes) : compareBytes a b < 0 ↔ a < b := by
  unfold compareBytes
  split
  · simp_all
  · split <;> simp_all

theorem compareBytes_nonneg (a b : Bytes) : 0 ≤ compareBytes a b ↔ b ≤ a := by
  rw [← not_lt, compareBytes_neg, not_lt]

theorem compareBytes_nonpos (a b : Bytes) : compareBytes a b ≤ 0 ↔ a ≤ b := by
  unfold compareBytes
  split
  · rename_i h
    simp [h.le]
  · rename_i h
    split
    · rename_i e
      simp [e]
    · rename_i e
      have hlt : b < a := lt_of_le_of_ne (not_lt.mp h) (Ne.symm e)
      simp [hlt]

def Action.buildLock (a : Action) : Option Lock :=
  match a.payload with
  | some (.read ks k) => some ⟨a.id, .keyLock ⟨ks, k, false⟩⟩
  | some (.readRange ks s e _) => some ⟨a.id, .rangeLock ⟨ks, s, e, false⟩⟩
  | some (.insert ks k _) => some ⟨a.id, .keyLock ⟨ks, k, true⟩⟩
  | some (.update ks k _) => some ⟨a.id, .keyLock ⟨ks, k, true⟩⟩
  | some (.delete ks k) => some ⟨a.id, .keyLock ⟨ks, k, true⟩⟩
  | some (.upsert ks k _) => some ⟨a.id, .keyLock ⟨ks, k, true⟩⟩
  | some (.lockKey l _) => some ⟨a.id, .keyLock l⟩
  | some (.lockRange l _) => some ⟨a.id, .rangeLock l⟩
  | none => none

def Txn.buildLocks (t : Txn) : List Lock := t.actions.filterMap Action.buildLock

def Action.isReadOnly (a : Action) : Bool :=
  match a.payload with
  | some (.read ..) | some (.readRange ..) => true
  | _ => false

def Txn.isReadOnly (t : Txn) : Bool := t.actions.all Action.isReadOnly

def keyLocksCompatible (a b : KeyLock) : Bool :=
  if a.keyspace ≠ b.keyspace then true
  else if a.key ≠ b.key then true
  else !a.exclusive && !b.exclusive

def rangeLocksCompatible (a b : RangeLock) : Bool :=
  if a.keyspace ≠ b.keyspace then true
  else if compareBytes a.endKey b.startKey ≤ 0 then true
  else if compareBytes a.startKey b.endKey ≥ 0 then true
  else !a.exclusive && !b.exclusive

def rangeLockCompatibleWithKeyLock (a : RangeLock) (b : KeyLock) : Bool :=
  if a.keyspace ≠ b.keyspace then true
  else if compareBytes b.key a.startKey < 0 then true
  else if compareBytes b.key a.endKey ≥ 0 then true
  else !a.exclusive && !b.exclusive

def Lock.compatibleWith (l other : Lock) : Bool :=
  match l.payload, other.payload with
  | .keyLock x, .keyLock y => keyLocksCompatible x y
  | .keyLock x, .rangeLock y => rangeLockCompatibleWithKeyLock y x
  | .rangeLock x, .keyLock y => rangeLockCompatibleWithKeyLock x y
  | .rangeLock x, .rangeLock y => rangeLocksCompatible x y

/-! ## What a lock covers -/

/-- `key` lies in `[startKey, endKey)` of the keyspace. -/
def inRange (ks : Nat) (s e : Bytes) (a : Address) : Bool :=
  a.keyspace == ks && decide (s ≤ a.key) && decide (a.key < e)

def Lock.covers (l : Lock) (a : Address) : Bool :=
  match l.payload with
  | .keyLock x => decide (a = ⟨x.keyspace, x.key⟩)
  | .rangeLock x => inRange x.keyspace x.startKey x.endKey a

def Lock.exclusive (l : Lock) : Bool :=
  match l.payload with
  | .keyLock x => x.exclusive
  | .rangeLock x => x.exclusive

theorem inRange_iff (ks : Nat) (s e : Bytes) (a : Address) :
    inRange ks s e a = true ↔ a.keyspace = ks ∧ s ≤ a.key ∧ a.key < e := by
  simp [inRange, and_assoc]

theorem keyLocksCompatible_symm (a b : KeyLock) :
    keyLocksCompatible a b = keyLocksCompatible b a := by
  unfold keyLocksCompatible
  simp only [ne_comm (a := a.keyspace), ne_comm (a := a.key), Bool.and_comm (!a.exclusive)]

theorem rangeLocksCompatible_symm (a b : RangeLock) :
    rangeLocksCompatible a b = rangeLocksCompatible b a := by
  unfold rangeLocksCompatible
  simp only [ge_iff_le, compareBytes_nonpos, compareBytes_nonneg,
    ne_comm (a := a.keyspace), Bool.and_comm (!a.exclusive)]
  split
  · rfl
  · split
    · split <;> simp_all
    · split <;> simp_all

/-- **Compatibility is symmetric**: it does not matter which of the two locks
is already held. -/
theorem compatibleWith_symm (l m : Lock) : l.compatibleWith m = m.compatibleWith l := by
  unfold Lock.compatibleWith
  cases l.payload with
  | keyLock x =>
    cases m.payload with
    | keyLock y => exact keyLocksCompatible_symm x y
    | rangeLock y => rfl
  | rangeLock x =>
    cases m.payload with
    | keyLock y => rfl
    | rangeLock y => exact rangeLocksCompatible_symm x y

/-- **Compatible locks share no address unless both are shared locks.** -/
theorem compatibleWith_disjoint (l m : Lock) (a : Address) (h : l.compatibleWith m = true)
    (hl : l.covers a = true) (hm : m.covers a = true) :
    l.exclusive = false ∧ m.exclusive = false := by
  cases hlp : l.payload with
  | keyLock x =>
    cases hmp : m.payload with
    | keyLock y =>
      simp only [Lock.covers, hlp, hmp, decide_eq_true_eq] at hl hm
      subst hl
      obtain ⟨hk, hy⟩ := Address.mk.inj hm
      simpa [Lock.compatibleWith, Lock.exclusive, hlp, hmp, keyLocksCompatible, hk, hy] using h
    | rangeLock y =>
      simp only [Lock.covers, hlp, hmp, decide_eq_true_eq, inRange_iff] at hl hm
      subst hl
      obtain ⟨hk, hs, he⟩ := hm
      simp only [Lock.compatibleWith, hlp, hmp, rangeLockCompatibleWithKeyLock, ge_iff_le,
        compareBytes_neg, compareBytes_nonneg] at h
      simpa [Lock.exclusive, hlp, hmp, hk.symm, not_lt.mpr hs, not_le.mpr he, and_comm] using h
  | rangeLock x =>
    cases hmp : m.payload with
    | keyLock y =>
      simp only [Lock.covers, hlp, hmp, decide_eq_true_eq, inRange_iff] at hl hm
      subst hm
      obtain ⟨hk, hs, he⟩ := hl
      simp only [Lock.compatibleWith, hlp, hmp, rangeLockCompatibleWithKeyLock, ge_iff_le,
        compareBytes_neg, compareBytes_nonneg] at h
      simpa [Lock.exclusive, hlp, hmp, hk.symm, not_lt.mpr hs, not_le.mpr he] using h
    | rangeLock y =>
      simp only [Lock.covers, hlp, hmp, inRange_iff] at hl hm
      obtain ⟨hk, hs, he⟩ := hl
      obtain ⟨hk', hs', he'⟩ := hm
      have h1 : ¬ x.endKey ≤ y.startKey := not_le.mpr (lt_of_le_of_lt hs' he)
      have h2 : ¬ y.endKey ≤ x.startKey := not_le.mpr (lt_of_le_of_lt hs he')
      simp only [Lock.compatibleWith, hlp, hmp, rangeLocksCompatible, ge_iff_le,
        compareBytes_nonpos, compareBytes_nonneg] at h
      simpa [Lock.exclusive, hlp, hmp, ← hk, ← hk', h1, h2] using h

/-- An address is covered by both locks, and one of them is exclusive. -/
def Lock.Conflicts (l m : Lock) : Prop :=
  (∃ a, l.covers a = true ∧ m.covers a = true) ∧ (l.exclusive = true ∨ m.exclusive = true)

def Lock.Proper (l : Lock) : Prop :=
  match l.payload with
  | .keyLock _ => True
  | .rangeLock x => x.startKey < x.endKey

instance : (l : Lock) → Decidable l.Proper
  | ⟨_, .keyLock _⟩ => inferInstanceAs (Decidable True)
  | ⟨_, .rangeLock x⟩ => inferInstanceAs (Decidable (x.startKey < x.endKey))

theorem Lock.Conflicts.incompatible {l m : Lock} (h : l.Conflicts m) :
    l.compatibleWith m = false := by
  obtain ⟨⟨a, hl, hm⟩, he⟩ := h
  cases hc : l.compatibleWith m with
  | false => rfl
  | true =>
    obtain ⟨hle, hme⟩ := compatibleWith_disjoint l m a hc hl hm
    rw [hle, hme] at he
    rcases he with he | he <;> cases he

/-- Ranges of one keyspace that reach into each other share the later start. -/
theorem exists_common_key {s e s' e' : Bytes} (h : s < e) (h' : s' < e') (hse : s < e')
    (hse' : s' < e) : ∃ k, (s ≤ k ∧ k < e) ∧ s' ≤ k ∧ k < e' := by
  rcases le_total s s' with hle | hle
  · exact ⟨s', ⟨hle, hse'⟩, le_refl s', h'⟩
  · exact ⟨s, ⟨le_refl s, h⟩, hle, hse⟩

theorem exclusive_of_not_shared {a b : Bool} (h : (!a && !b) = false) : a = true ∨ b = true := by
  cases a with
  | true => exact .inl rfl
  | false => exact .inr (by simpa using h)

theorem keyLocks_conflict {x y : KeyLock} (h : keyLocksCompatible x y = false) :
    x.keyspace = y.keyspace ∧ x.key = y.key ∧ (x.exclusive = true ∨ y.exclusive = true) := by
  unfold keyLocksCompatible at h
  split at h
  · cases h
  rename_i hks
  split at h
  · cases h
  · rename_i hk
    exact ⟨not_not.mp hks, not_not.mp hk, exclusive_of_not_shared h⟩

theorem rangeLock_keyLock_conflict {x : RangeLock} {y : KeyLock}
    (h : rangeLockCompatibleWithKeyLock x y = false) :
    inRange x.keyspace x.startKey x.endKey ⟨y.keyspace, y.key⟩ = true ∧
      (x.exclusive = true ∨ y.exclusive = true) := by
  unfold rangeLockCompatibleWithKeyLock at h
  simp only [ge_iff_le, compareBytes_neg, compareBytes_nonneg] at h
  rw [inRange_iff]
  split at h
  · cases h
  rename_i hks
  split at h
  · cases h
  rename_i hs
  split at h
  · cases h
  · rename_i he
    exact ⟨⟨(not_not.mp hks).symm, not_lt.mp hs, not_le.mp he⟩, exclusive_of_not_shared h⟩

theorem rangeLocks_conflict {x y : RangeLock} (h : rangeLocksCompatible x y = false) :
    x.keyspace = y.keyspace ∧ y.startKey < x.endKey ∧ x.startKey < y.endKey ∧
      (x.exclusive = true ∨ y.exclusive = true) := by
  unfold rangeLocksCompatible at h
  simp only [ge_iff_le, compareBytes_nonpos, compareBytes_nonneg] at h
  split at h
  · cases h
  rename_i hks
  split at h
  · cases h
  rename_i he
  split at h
  · cases h
  · rename_i hs
    exact ⟨not_not.mp hks, not_le.mp he, not_le.mp hs, exclusive_of_not_shared h⟩

/-- **What compatibility means.** Locks are incompatible exactly when they share an address
and one of them is exclusive. -/
theorem compatibleWith_eq_false {l m : Lock} (hl : l.Proper) (hm : m.Proper) :
    l.compatibleWith m = false ↔ l.Conflicts m := by
  refine ⟨fun h => ?_, Lock.Conflicts.incompatible⟩
  obtain ⟨_, x | x⟩ := l
  · obtain ⟨_, y | y⟩ := m
    · obtain ⟨hks, hk, he⟩ := keyLocks_conflict h
      exact ⟨⟨⟨x.keyspace, x.key⟩, by simp [Lock.covers], by simp [Lock.covers, hks, hk]⟩, he⟩
    · obtain ⟨hin, he⟩ := rangeLock_keyLock_conflict h
      exact ⟨⟨_, by simp [Lock.covers], hin⟩, he.symm⟩
  · obtain ⟨_, y | y⟩ := m
    · obtain ⟨hin, he⟩ := rangeLock_keyLock_conflict h
      exact ⟨⟨_, hin, by simp [Lock.covers]⟩, he⟩
    · obtain ⟨hks, hxy, hyx, he⟩ := rangeLocks_conflict h
      obtain ⟨k, hk, hk'⟩ := exists_common_key hl hm hyx hxy
      refine ⟨⟨⟨x.keyspace, k⟩, ?_, ?_⟩, he⟩
      · exact (inRange_iff _ _ _ _).mpr ⟨rfl, hk⟩
      · exact (inRange_iff _ _ _ _).mpr ⟨hks, hk'⟩

/-! ## Reads, writes and checks of a transaction -/

def Action.writeAddr (a : Action) : Option Address :=
  match a.payload with
  | some (.insert ks k _) | some (.update ks k _) | some (.upsert ks k _) | some (.delete ks k) =>
    some ⟨ks, k⟩
  | _ => none

def Txn.writes (t : Txn) (a : Address) : Bool := t.actions.any (fun x => x.writeAddr == some a)

/-- The addresses whose existence decides whether the action is valid. -/
def Action.checks (x : Action) (a : Address) : Bool :=
  match x.payload with
  | some (.insert ks k _) | some (.update ks k _) | some (.delete ks k) => decide (a = ⟨ks, k⟩)
  | some (.lockKey l c) => c != .none && decide (a = ⟨l.keyspace, l.key⟩)
  | some (.lockRange l c) => c != .none && inRange l.keyspace l.startKey l.endKey a
  | _ => false

def Txn.checks (t : Txn) (a : Address) : Bool := t.actions.any (fun x => x.checks a)

def Action.reads (x : Action) (a : Address) : Bool :=
  match x.payload with
  | some (.read ks k) => decide (a = ⟨ks, k⟩)
  | some (.readRange ks s e _) => inRange ks s e a
  | _ => false

def Txn.reads (t : Txn) (a : Address) : Bool := t.actions.any (fun x => x.reads a)

theorem writeAddr_lock (x : Action) (a : Address) (h : x.writeAddr = some a) :
    ∃ l, x.buildLock = some l ∧ l.covers a = true ∧ l.exclusive = true := by
  unfold Action.writeAddr at h
  unfold Action.buildLock
  split at h <;> simp_all [Lock.covers, Lock.exclusive]

theorem checks_lock (x : Action) (a : Address) (h : x.checks a = true) :
    ∃ l, x.buildLock = some l ∧ l.covers a = true := by
  unfold Action.checks at h
  unfold Action.buildLock
  split at h <;> simp_all [Lock.covers]

theorem reads_lock (x : Action) (a : Address) (h : x.reads a = true) :
    ∃ l, x.buildLock = some l ∧ l.covers a = true := by
  unfold Action.reads at h
  unfold Action.buildLock
  split at h <;> simp_all [Lock.covers]

theorem writes_lock (t : Txn) (a : Address) (h : t.writes a = true) :
    ∃ l ∈ t.buildLocks, l.covers a = true ∧ l.exclusive = true := by
  obtain ⟨x, hx, hw⟩ := List.any_eq_true.mp h
  obtain ⟨l, hl, hc, he⟩ := writeAddr_lock x a (eq_of_beq hw)
  exact ⟨l, List.mem_filterMap.mpr ⟨x, hx, hl⟩, hc, he⟩

theorem txn_checks_lock (t : Txn) (a : Address) (h : t.checks a = true) :
    ∃ l ∈ t.buildLocks, l.covers a = true := by
  obtain ⟨x, hx, hc⟩ := List.any_eq_true.mp h
  obtain ⟨l, hl, hc⟩ := checks_lock x a hc
  exact ⟨l, List.mem_filterMap.mpr ⟨x, hx, hl⟩, hc⟩

theorem txn_reads_lock (t : Txn) (a : Address) (h : t.reads a = true) :
    ∃ l ∈ t.buildLocks, l.covers a = true := by
  obtain ⟨x, hx, hc⟩ := List.any_eq_true.mp h
  obtain ⟨l, hl, hc⟩ := reads_lock x a hc
  exact ⟨l, List.mem_filterMap.mpr ⟨x, hx, hl⟩, hc⟩

def Compatible (ls ms : List Lock) : Prop := ∀ l ∈ ls, ∀ m ∈ ms, l.compatibleWith m = true

theorem Compatible.symm {ls ms : List Lock} (h : Compatible ls ms) : Compatible ms ls :=
  fun m hm l hl => by rw [compatibleWith_symm]; exact h l hl m hm

theorem writes_not_covered (t : Txn) (ls : List Lock) (a : Address)
    (h : Compatible ls t.buildLocks) (l : Lock) (hl : l ∈ ls) (hc : l.covers a = true) :
    t.writes a = false := by
  cases hw : t.writes a with
  | false => rfl
  | true =>
    obtain ⟨m, hm, hmc, hme⟩ := writes_lock t a hw
    have := (compatibleWith_disjoint l m a (h l hl m hm) hc hmc).2
    rw [hme] at this
    exact absurd this (by decide)

theorem Compatible.writes_disjoint {t u : Txn} {a : Address}
    (h : Compatible t.buildLocks u.buildLocks) (ht : t.writes a = true) : u.writes a = false := by
  obtain ⟨l, hl, hc, _⟩ := writes_lock t a ht
  exact writes_not_covered u t.buildLocks a h l hl hc

end Scout.Data
