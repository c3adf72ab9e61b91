import Scout.Lib.Go
import Scout.Storage.Rocks

/-!
The comparator of the column families (`comparator.go`, `encoding.go`) with the panics of the
source: slices that are too short and numbers of the wrong width. On encoded addresses none of
them happens, and the comparator is the order of the addresses.
-/

namespace Scout.Rocks

open Kv Lib
open Data (Bytes maxUint64)

namespace Comparator

/-- `errors.Assert2(decodeUint64(data))`. -/
def assertUint64 (data : Bytes) : Go String Nat :=
  if data.length ≠ 8 then .error .panic else .ok (decodeUint64 data)

/-- `key[:len(key)-tsSize]` and the rest. -/
def splitTs (key : Bytes) : Go String (Bytes × Bytes) :=
  if key.length < 8 then .error .panic
  else .ok (key.take (key.length - 8), key.drop (key.length - 8))

def compareTs (a b : Bytes) : Go String Int := do
  let tsa ← assertUint64 a
  let tsb ← assertUint64 b
  return if tsa < tsb then -1 else if tsa > tsb then 1 else 0

def compareWithTs (a b : Bytes) : Go String Int := do
  let (ax, ats) ← splitTs a
  let (bx, bts) ← splitTs b
  if bytesCompare ax bx ≠ 0 then return bytesCompare ax bx
  else return -(← compareTs ats bts)

def stripTs (key : Bytes) (hasTs : Bool) : Go String Bytes :=
  if hasTs then return (← splitTs key).1 else .ok key

def compareWithoutTs (a : Bytes) (aHasTs : Bool) (b : Bytes) (bHasTs : Bool) : Go String Int := do
  let ax ← stripTs a aHasTs
  let bx ← stripTs b bHasTs
  return bytesCompare ax bx

end Comparator

/-- `decodeKey` panics on a key without a keyspace. -/
def decodeKeyChecked (key : Bytes) : Go String (Nat × Bytes) :=
  if key.length < 4 then .error .panic else .ok (decodeKey key)

/-- The key of an address as it is handed to the comparator, with the timestamp or without. -/
def internalKey (a : Address) (hasTs : Bool) : Bytes :=
  encodeKey a.keyspace a.key ++ if hasTs then encodeUint64 a.timestamp else []

/-! ## No panic on encoded addresses -/

theorem length_encodeUint64 (v : Nat) : (encodeUint64 v).length = 8 := by
  simp [encodeUint64]

theorem splitTs_internalKey (a : Address) : Comparator.splitTs (internalKey a true) =
      .ok (encodeKey a.keyspace a.key, encodeUint64 a.timestamp) := by
  have hlen : (internalKey a true).length = (encodeKey a.keyspace a.key).length + 8 := by
    simp [internalKey, length_encodeUint64]
  rw [Comparator.splitTs, if_neg (by omega), hlen, Nat.add_sub_cancel]
  simp [internalKey]

theorem stripTs_internalKey (a : Address) (hasTs : Bool) :
    Comparator.stripTs (internalKey a hasTs) hasTs = .ok (encodeKey a.keyspace a.key) := by
  cases hasTs with
  | true =>
    rw [Comparator.stripTs, if_pos rfl, splitTs_internalKey]
    rfl
  | false => simp [Comparator.stripTs, internalKey]

theorem encodeKey_inj {ks ks' : Nat} (h : ks < 2 ^ 32) (h' : ks' < 2 ^ 32) {k k' : Bytes} :
    encodeKey ks k = encodeKey ks' k' ↔ ks = ks' ∧ k = k' := by
  constructor
  · intro he
    have hd := congrArg decodeKey he
    rw [decodeKey_encodeKey h, decodeKey_encodeKey h'] at hd
    exact Prod.mk.inj hd
  · rintro ⟨rfl, rfl⟩
    rfl

theorem compareWithoutTs_internalKey (a b : Address) (aHasTs bHasTs : Bool) :
    Comparator.compareWithoutTs (internalKey a aHasTs) aHasTs (internalKey b bHasTs) bHasTs =
      .ok (bytesCompare (encodeKey a.keyspace a.key) (encodeKey b.keyspace b.key)) := by
  rw [Comparator.compareWithoutTs, stripTs_internalKey, stripTs_internalKey]
  rfl

theorem compareTs_encodeUint64 {t u : Nat} (ht : t ≤ maxUint64) (hu : u ≤ maxUint64) :
    Comparator.compareTs (encodeUint64 t) (encodeUint64 u) =
      .ok (if t < u then -1 else if t > u then 1 else 0) := by
  simp only [Comparator.compareTs, Comparator.assertUint64, length_encodeUint64, ne_eq,
    not_true_eq_false, if_false, decodeUint64_encodeUint64 ht, decodeUint64_encodeUint64 hu]
  rfl

theorem bytesCompare_encodeKey {a b : Address} (ha : a.Fits) (hb : b.Fits) :
    bytesCompare (encodeKey a.keyspace a.key) (encodeKey b.keyspace b.key) =
      if a.keyspace < b.keyspace then -1 else if b.keyspace < a.keyspace then 1
      else bytesCompare a.key b.key := by
  simp only [bytesCompare, encodeKey_lt ha.keyspace_lt hb.keyspace_lt,
    encodeKey_lt hb.keyspace_lt ha.keyspace_lt]
  rcases lt_trichotomy a.keyspace b.keyspace with h | h | h
  · simp [h]
  · simp [h]
  · simp [h, h.ne', h.not_gt]

/-- **The comparator is the order of the addresses**, up to the size of the result. -/
theorem compareWithTs_internalKey {a b : Address} (ha : a.Fits) (hb : b.Fits) :
    ∃ c, Comparator.compareWithTs (internalKey a true) (internalKey b true) = .ok c ∧
      c.sign = (a.compare b).sign := by
  have hts := compareTs_encodeUint64 ha.timestamp_le hb.timestamp_le
  have hkeys := bytesCompare_encodeKey ha hb
  rw [Comparator.compareWithTs, splitTs_internalKey, splitTs_internalKey]
  simp only [bind, Except.bind, hts]
  rw [hkeys, Address.compare]
  rcases lt_trichotomy a.keyspace b.keyspace with h | h | h
  · refine ⟨-1, by simp [h, pure, Except.pure], ?_⟩
    rw [if_pos (by omega), Int.sign_eq_neg_one_of_neg (show (a.keyspace : Int) - b.keyspace < 0
      by omega)]
    rfl
  · simp only [h, lt_irrefl, if_false, sub_self, ne_eq, not_true_eq_false]
    by_cases hk : bytesCompare a.key b.key = 0
    · refine ⟨-(if a.timestamp < b.timestamp then -1 else if a.timestamp > b.timestamp then 1
        else 0), by simp [hk, pure, Except.pure], ?_⟩
      rw [if_neg (not_not.mpr hk)]
      rcases lt_trichotomy a.timestamp b.timestamp with ht | ht | ht
      · simp [ht, ht.not_gt]
      · simp [ht]
      · simp [ht, ht.not_gt]
    · refine ⟨_, by simp [hk, pure, Except.pure]; rfl, ?_⟩
      rw [if_pos hk]
  · refine ⟨1, by simp [h, h.not_gt, pure, Except.pure], ?_⟩
    rw [if_pos (by omega), Int.sign_eq_one_of_pos (show 0 < (a.keyspace : Int) - b.keyspace
      by omega)]
    rfl

/-! ## The comparator as an order -/

/-- What RocksDB requires of a comparator with timestamps: on keys with timestamps it is a
total order, and it refines the comparison of the user keys, whichever of the two have a
timestamp attached. -/
structure OrdersKeys (withTs : Bytes → Bytes → Go String Int)
    (withoutTs : Bytes → Bool → Bytes → Bool → Go String Int) (a b c : Address) : Prop where
  total : ∃ x y, withTs (internalKey a true) (internalKey b true) = .ok x ∧
    withTs (internalKey b true) (internalKey a true) = .ok y ∧ y.sign = -x.sign
  antisymm : withTs (internalKey a true) (internalKey b true) = .ok 0 ↔
    internalKey a true = internalKey b true
  trans : ∀ x y, withTs (internalKey a true) (internalKey b true) = .ok x →
    withTs (internalKey b true) (internalKey c true) = .ok y → x ≤ 0 → y ≤ 0 →
    ∃ z ≤ 0, withTs (internalKey a true) (internalKey c true) = .ok z
  userKeys : ∀ aHasTs bHasTs, ∃ x, withoutTs (internalKey a aHasTs) aHasTs (internalKey b bHasTs)
      bHasTs = .ok x ∧ (x = 0 ↔ a.keyspace = b.keyspace ∧ a.key = b.key) ∧
    (x < 0 → ∃ y < 0, withTs (internalKey a true) (internalKey b true) = .ok y)

theorem sign_neg_iff {x y : Int} (h : x.sign = y.sign) : (x < 0 ↔ y < 0) ∧ (x = 0 ↔ y = 0) := by
  constructor
  · rw [← Int.sign_eq_neg_one_iff_neg, h, Int.sign_eq_neg_one_iff_neg]
  · rw [← Int.sign_eq_zero_iff_zero, h, Int.sign_eq_zero_iff_zero]

theorem compare_swap (a b : Address) : (b.compare a).sign = -(a.compare b).sign := by
  rcases lt_trichotomy a b with h | rfl | h
  · rw [Int.sign_eq_one_of_pos (Address.compare_pos.mpr h),
      Int.sign_eq_neg_one_of_neg (Address.compare_neg.mpr h)]
    rfl
  · rw [Address.compare_eq_zero.mpr rfl]
    rfl
  · rw [Int.sign_eq_neg_one_of_neg (Address.compare_neg.mpr h),
      Int.sign_eq_one_of_pos (Address.compare_pos.mpr h)]

theorem compare_le_zero {a b : Address} : a.compare b ≤ 0 ↔ a ≤ b := by
  rw [← not_lt, Address.compare_pos, not_lt]

theorem internalKey_inj {a b : Address} (ha : a.Fits) (hb : b.Fits) :
    internalKey a true = internalKey b true ↔ a = b := by
  constructor
  · intro h
    have hs := congrArg Comparator.splitTs h
    rw [splitTs_internalKey, splitTs_internalKey] at hs
    obtain ⟨hkey, hts⟩ := Prod.mk.inj (Except.ok.inj hs)
    obtain ⟨hks, hk⟩ := (encodeKey_inj ha.keyspace_lt hb.keyspace_lt).mp hkey
    have ht := congrArg decodeUint64 hts
    rw [decodeUint64_encodeUint64 ha.timestamp_le, decodeUint64_encodeUint64 hb.timestamp_le] at ht
    cases a
    cases b
    simp_all
  · rintro rfl
    rfl

/-- **The RocksDB comparator is the address order.** It never panics on encoded addresses,
has the sign of `Address.Compare`, is a total order that refines the comparison of user keys,
and `decodeKey` inverts `encodeKey`. -/
theorem comparator_orders {a b c : Address} (ha : a.Fits) (hb : b.Fits) (hc : c.Fits) :
    (∃ x, Comparator.compareWithTs (internalKey a true) (internalKey b true) = .ok x ∧
      x.sign = (a.compare b).sign) ∧
    OrdersKeys Comparator.compareWithTs Comparator.compareWithoutTs a b c ∧
    decodeKeyChecked (encodeKey a.keyspace a.key) = .ok (a.keyspace, a.key) := by
  obtain ⟨x, hx, hsx⟩ := compareWithTs_internalKey ha hb
  refine ⟨⟨x, hx, hsx⟩, ?_, ?_⟩
  · constructor
    · obtain ⟨y, hy, hsy⟩ := compareWithTs_internalKey hb ha
      exact ⟨x, y, hx, hy, by rw [hsx, hsy, compare_swap]⟩
    · rw [hx, internalKey_inj ha hb, ← Address.compare_eq_zero, ← (sign_neg_iff hsx).2]
      constructor
      · exact fun h => Except.ok.inj h
      · exact fun h => by rw [h]
    · intro x' y hx' hy hle hle'
      obtain ⟨y', hy', hsy⟩ := compareWithTs_internalKey hb hc
      obtain ⟨z, hz, hsz⟩ := compareWithTs_internalKey ha hc
      cases hx.symm.trans hx'
      cases hy.symm.trans hy'
      refine ⟨z, ?_, hz⟩
      have hab := compare_le_zero.mp (by rwa [← Int.sign_nonpos_iff, ← hsx, Int.sign_nonpos_iff])
      have hbc := compare_le_zero.mp (by rwa [← Int.sign_nonpos_iff, ← hsy, Int.sign_nonpos_iff])
      rw [← Int.sign_nonpos_iff, hsz, Int.sign_nonpos_iff]
      exact compare_le_zero.mpr (hab.trans hbc)
    · intro aHasTs bHasTs
      refine ⟨_, compareWithoutTs_internalKey a b aHasTs bHasTs, ?_, ?_⟩
      · rw [bytesCompare_eq_zero, encodeKey_inj ha.keyspace_lt hb.keyspace_lt]
      · intro h
        rw [bytesCompare_neg, encodeKey_lt ha.keyspace_lt hb.keyspace_lt] at h
        refine ⟨x, ?_, hx⟩
        rw [(sign_neg_iff hsx).1, Address.compare_neg, Address.lt_iff]
        exact h.imp_right fun h => ⟨h.1, .inl h.2⟩
  · have hlen : 4 ≤ (encodeKey a.keyspace a.key).length := by simp [encodeKey]
    rw [decodeKeyChecked, if_neg (by omega), decodeKey_encodeKey ha.keyspace_lt]

/-- Two versions of a key and a key that it is a prefix of. -/
theorem comparator_orders_versions :
    OrdersKeys Comparator.compareWithTs Comparator.compareWithoutTs ⟨16, [1], 9⟩ ⟨16, [1], 5⟩
      ⟨16, [1, 0], 7⟩ ∧ decodeKeyChecked (encodeKey 16 [1]) = .ok (16, [1]) :=
  (comparator_orders (a := ⟨16, [1], 9⟩) (b := ⟨16, [1], 5⟩) (c := ⟨16, [1, 0], 7⟩)
    ⟨by decide, by decide⟩ ⟨by decide, by decide⟩ ⟨by decide, by decide⟩).2

end Scout.Rocks
