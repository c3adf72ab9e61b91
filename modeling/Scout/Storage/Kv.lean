import Scout.Data.Txn
import Scout.Lib.Base64
import Mathlib.Data.Prod.Lex

/-!
Addresses and records of the key-value layer (`kv/address.go`, `kv/db.go`): the order
of the versions of a partition, and the successors of an address.
-/

namespace Scout.Kv

open Data Lib

structure Address where
  keyspace : Nat
  key : Bytes
  timestamp : Nat
  deriving DecidableEq, Repr

structure Record where
  address : Address
  data : Bytes
  deriving DecidableEq, Repr

/-- `bytes.Compare`. -/
def bytesCompare (a b : Bytes) : Int := if a < b then -1 else if b < a then 1 else 0

/-- Ascending by keyspace and key, descending by timestamp. -/
def Address.compare (a b : Address) : Int :=
  if (a.keyspace : Int) - b.keyspace ≠ 0 then (a.keyspace : Int) - b.keyspace
  else if bytesCompare a.key b.key ≠ 0 then bytesCompare a.key b.key
  else if a.timestamp > b.timestamp then -1
  else if a.timestamp < b.timestamp then 1
  else 0

def Address.before (a b : Address) : Bool := decide (a.compare b < 0)

def Address.string (a : Address) : String :=
  "ks:" ++ toString a.keyspace ++ ",key:" ++
    String.ofList (base64RawUrl (a.key.map fun b => UInt8.ofNat b.val)) ++
    ",ts:" ++ toString a.timestamp

/-- The loop over the bytes of the key, from the first byte on; `true` when it runs off
the end. -/
def incrementKey : Bytes → Bytes × Bool
  | [] => ([], true)
  | b :: bs =>
    if b + 1 ≠ 0 then ((b + 1) :: bs, false)
    else (0 :: (incrementKey bs).1, (incrementKey bs).2)

def Address.nextKey (a : Address) : Address :=
  if (incrementKey a.key).2 then ⟨(a.keyspace + 1) % 2 ^ 32, (incrementKey a.key).1, maxUint64⟩
  else ⟨a.keyspace, (incrementKey a.key).1, maxUint64⟩

/-- Once the timestamp has wrapped around, the rest is the loop of `NextKey`. -/
def Address.next (a : Address) : Address :=
  if decUint64 a.timestamp ≠ maxUint64 then ⟨a.keyspace, a.key, decUint64 a.timestamp⟩
  else a.nextKey

/-! ## The order -/

def Address.rank (a : Address) : ℕ ×ₗ Bytes ×ₗ ℕᵒᵈ :=
  toLex (a.keyspace, toLex (a.key, OrderDual.toDual a.timestamp))

theorem Address.rank_injective : Function.Injective Address.rank := by
  rintro ⟨ks, key, t⟩ ⟨ks', key', t'⟩ h
  cases h
  rfl

instance : LinearOrder Address := LinearOrder.lift' Address.rank Address.rank_injective

variable {a b : Address}

theorem Address.lt_iff : a < b ↔ a.keyspace < b.keyspace ∨
    a.keyspace = b.keyspace ∧ (a.key < b.key ∨ a.key = b.key ∧ b.timestamp < a.timestamp) := by
  change a.rank < b.rank ↔ _
  simp only [Address.rank, Prod.Lex.toLex_lt_toLex, OrderDual.toDual_lt_toDual]

theorem bytesCompare_neg {a b : Bytes} : bytesCompare a b < 0 ↔ a < b := by
  unfold bytesCompare
  by_cases h : a < b
  · simp [h]
  · by_cases h' : b < a <;> simp [h, h']

theorem bytesCompare_eq_zero {a b : Bytes} : bytesCompare a b = 0 ↔ a = b := by
  unfold bytesCompare
  split
  · rename_i h
    simpa using h.ne
  · split
    · rename_i h
      simpa using h.ne'
    · rename_i h h'
      simpa using le_antisymm (not_lt.mp h') (not_lt.mp h)

theorem Address.compare_neg : a.compare b < 0 ↔ a < b := by
  rw [Address.lt_iff, Address.compare]
  split
  · omega
  split
  · rename_i hks hkey
    have hne := mt bytesCompare_eq_zero.mpr hkey
    rw [bytesCompare_neg]
    constructor
    · exact fun h => .inr ⟨by omega, .inl h⟩
    · rintro (h | ⟨_, h | ⟨h, _⟩⟩)
      · omega
      · exact h
      · exact absurd h hne
  · rename_i hks hkey
    have heq : a.key = b.key := bytesCompare_eq_zero.mp (not_not.mp hkey)
    have hkk : a.keyspace = b.keyspace := by omega
    simp only [hkk, heq, lt_irrefl, true_and, false_or]
    split
    · omega
    · split <;> omega

theorem Address.compare_eq_zero : a.compare b = 0 ↔ a = b := by
  constructor
  · intro h
    unfold Address.compare at h
    split at h
    · omega
    split at h
    · rename_i hne
      exact absurd h hne
    · rename_i hks hkey
      have heq := bytesCompare_eq_zero.mp (not_not.mp hkey)
      obtain ⟨ks, key, t⟩ := a
      obtain ⟨ks', key', t'⟩ := b
      dsimp only at *
      split at h
      · cases h
      · split at h
        · cases h
        · rw [heq, show ks = ks' by omega, show t = t' by omega]
  · rintro rfl
    simp [Address.compare, bytesCompare]

theorem Address.compare_pos : 0 < a.compare b ↔ b < a := by
  rw [← not_iff_not, not_lt, not_lt, Int.le_iff_lt_or_eq, Address.compare_neg,
    Address.compare_eq_zero, le_iff_lt_or_eq]

theorem Address.before_iff : a.before b = true ↔ a < b := by
  rw [Address.before, decide_eq_true_eq, Address.compare_neg]

/-! ## The successor of a key -/

/-- The widths of the source's types. -/
structure Address.Fits (a : Address) : Prop where
  keyspace_lt : a.keyspace < 2 ^ 32
  timestamp_le : a.timestamp ≤ maxUint64

/-- The first byte carries, but not the whole key; or there is no next keyspace. Then the
successor is an address before the key, since bytes are compared from the first on. -/
def Address.wrapsBack (a : Address) : Bool :=
  if a.key.all (· == 255) then a.keyspace + 1 == 2 ^ 32 else a.key.head? == some 255

theorem byte_succ {b : Byte} (h : b ≠ 255) : b + 1 ≠ 0 ∧ b < b + 1 := by
  have hv : b.val ≠ 255 := fun e => h (Fin.ext e)
  have hsucc : (b + 1).val = b.val + 1 := by
    rw [Fin.val_add]
    exact Nat.mod_eq_of_lt (by simp; omega)
  refine ⟨fun e => ?_, by rw [Fin.lt_def, hsucc]; omega⟩
  have hz : (b + 1).val = 0 := by rw [e]; rfl
  omega

theorem incrementKey_carry (key : Bytes) : (incrementKey key).2 = key.all (· == 255) := by
  induction key with
  | nil => rfl
  | cons b bs ih =>
    rw [incrementKey, List.all_cons]
    by_cases hb : b = 255
    · subst hb
      simpa using ih
    · simp [hb, (byte_succ hb).1]

theorem lt_incrementKey {key : Bytes} (hall : key.all (· == 255) = false)
    (hhead : key.head? ≠ some 255) : key < (incrementKey key).1 := by
  cases key with
  | nil => cases hall
  | cons b bs =>
    have hb : b ≠ 255 := fun h => hhead (by rw [h]; rfl)
    rw [incrementKey, if_pos (byte_succ hb).1, List.cons_lt_cons_iff]
    exact .inl (byte_succ hb).2

/-- Unless it wraps back, the successor of a key comes after all versions of the key. -/
theorem Address.lt_nextKey (ha : a.Fits) (h : a.wrapsBack = false) : a < a.nextKey := by
  rw [Address.lt_iff]
  unfold Address.wrapsBack at h
  unfold Address.nextKey
  rw [incrementKey_carry]
  split at h
  · rename_i hall
    have hks : a.keyspace + 1 ≠ 2 ^ 32 := by simpa using h
    have hlt := ha.keyspace_lt
    rw [if_pos hall, Nat.mod_eq_of_lt (by omega)]
    exact .inl (Nat.lt_succ_self _)
  · rename_i hall
    rw [if_neg hall]
    exact .inr ⟨rfl, .inl (lt_incrementKey (by simpa using hall) (by simpa using h))⟩

end Scout.Kv
