import Mathlib.Data.List.Infix
import Mathlib.Data.List.Lex
import Mathlib.Order.Fin.Basic
import Mathlib.Tactic.Common
import Mathlib.Tactic.Ring

/-!
Strings over an ordered alphabet in lexicographic order, and numbers written
big-endian with a fixed number of bytes.
-/

namespace Scout.Lib

/-! ## Lexicographic order and prefixes -/

section Lex

variable {α : Type} [LinearOrder α]

theorem append_lt_append_iff (p a b : List α) : p ++ a < p ++ b ↔ a < b := by
  induction p with
  | nil => simp
  | cons c p ih => simp [ih]

theorem append_le_append_iff (p a b : List α) : p ++ a ≤ p ++ b ↔ a ≤ b := by
  rw [← not_lt, append_lt_append_iff, not_lt]

theorem le_append (p s : List α) : p ≤ p ++ s := by
  have h := (append_le_append_iff p [] s).mpr (not_lt.mp (by simp))
  simpa using h

theorem append_lt_append_of_lt {p q : List α} (hl : p.length = q.length) (h : p < q)
    (a b : List α) : p ++ a < q ++ b := by
  induction p generalizing q with
  | nil =>
    obtain rfl := List.length_eq_zero_iff.mp hl.symm
    exact absurd h (lt_irrefl _)
  | cons c p ih =>
    obtain _ | ⟨d, q⟩ := q
    · simp at hl
    rw [List.cons_lt_cons_iff] at h
    rw [List.cons_append, List.cons_append, List.cons_lt_cons_iff]
    rcases h with h | ⟨hc, h⟩
    · exact .inl h
    · exact .inr ⟨hc, ih (by simpa using hl) h⟩

theorem append_lt_append_iff_of_length {p q : List α} (hl : p.length = q.length)
    (a b : List α) : p ++ a < q ++ b ↔ p < q ∨ p = q ∧ a < b := by
  rcases lt_trichotomy p q with h | rfl | h
  · simp [h, append_lt_append_of_lt hl h]
  · simp [append_lt_append_iff]
  · have hn := (append_lt_append_of_lt hl.symm h b a).not_gt
    simp [hn, h.not_gt, h.ne']

/-- **The strings with a common prefix are consecutive.** -/
theorem prefix_of_between {p x y z : List α} (hx : p <+: x) (hz : p <+: z) (hxy : x ≤ y)
    (hyz : y ≤ z) : p <+: y := by
  obtain ⟨a, rfl⟩ := hx
  obtain ⟨c, rfl⟩ := hz
  induction p generalizing y with
  | nil => exact List.nil_prefix
  | cons d p ih =>
    obtain _ | ⟨e, y⟩ := y
    · exact absurd hxy (not_le.mpr (by simp))
    rw [← not_lt, List.cons_append, List.cons_lt_cons_iff] at hxy hyz
    push Not at hxy hyz
    obtain rfl : d = e := le_antisymm hxy.1 hyz.1
    obtain ⟨s, rfl⟩ := ih (hxy.2 rfl) (hyz.2 rfl)
    exact ⟨s, rfl⟩

end Lex

/-! ## Big-endian numbers -/

/-- Named, so that byte literals share one proof. -/
instance byte_card : NeZero 256 := ⟨by decide⟩

/-- The last `w` bytes of a number, the most significant one first. -/
def bigEndian : Nat → Nat → List (Fin 256)
  | 0, _ => []
  | w + 1, x => Fin.ofNat 256 (x / 256 ^ w) :: bigEndian w (x % 256 ^ w)

@[simp] theorem length_bigEndian (w x : Nat) : (bigEndian w x).length = w := by
  induction w generalizing x with
  | zero => rfl
  | succ w ih => simp [bigEndian, ih]

theorem lt_iff_div_mod {p : Nat} (hp : 0 < p) (x y : Nat) :
    x < y ↔ x / p < y / p ∨ x / p = y / p ∧ x % p < y % p := by
  have hx := Nat.div_add_mod x p
  have hy := Nat.div_add_mod y p
  have hxm := Nat.mod_lt x hp
  constructor
  · intro h
    rcases lt_or_eq_of_le (Nat.div_le_div_right h.le) with hd | hd
    · exact .inl hd
    · rw [hd] at hx
      exact .inr ⟨hd, by omega⟩
  · rintro (h | ⟨h, hm⟩)
    · have hle := Nat.mul_le_mul_left p (Nat.succ_le_of_lt h)
      rw [Nat.mul_succ] at hle
      omega
    · rw [h] at hx
      omega

theorem ofNat_lt_iff {m n : Nat} (hm : m < 256) (hn : n < 256) :
    Fin.ofNat 256 m < Fin.ofNat 256 n ↔ m < n := by
  simp [Fin.lt_def, Nat.mod_eq_of_lt hm, Nat.mod_eq_of_lt hn]

theorem ofNat_eq_iff {m n : Nat} (hm : m < 256) (hn : n < 256) :
    Fin.ofNat 256 m = Fin.ofNat 256 n ↔ m = n := by
  simp [Fin.ext_iff, Nat.mod_eq_of_lt hm, Nat.mod_eq_of_lt hn]

theorem bigEndian_lt_iff {w x y : Nat} (hx : x < 256 ^ w) (hy : y < 256 ^ w) :
    bigEndian w x < bigEndian w y ↔ x < y := by
  induction w generalizing x y with
  | zero =>
    have hx0 : x = 0 := by simpa using hx
    have hy0 : y = 0 := by simpa using hy
    simp [bigEndian, hx0, hy0]
  | succ w ih =>
    have hp : 0 < 256 ^ w := Nat.pow_pos (by decide)
    have hdx : x / 256 ^ w < 256 := Nat.div_lt_of_lt_mul (by rwa [← Nat.pow_succ])
    have hdy : y / 256 ^ w < 256 := Nat.div_lt_of_lt_mul (by rwa [← Nat.pow_succ])
    rw [bigEndian, bigEndian, List.cons_lt_cons_iff, ofNat_lt_iff hdx hdy, ofNat_eq_iff hdx hdy,
      ih (Nat.mod_lt _ hp) (Nat.mod_lt _ hp), ← lt_iff_div_mod hp]

theorem bigEndian_inj {w x y : Nat} (hx : x < 256 ^ w) (hy : y < 256 ^ w) :
    bigEndian w x = bigEndian w y ↔ x = y := by
  constructor
  · intro h
    rcases lt_trichotomy x y with hlt | heq | hlt
    · exact absurd h ((bigEndian_lt_iff hx hy).mpr hlt).ne
    · exact heq
    · exact absurd h ((bigEndian_lt_iff hy hx).mpr hlt).ne'
  · rintro rfl
    rfl

/-- The number that the bytes write, the most significant one first. -/
def ofBigEndian (bs : List (Fin 256)) : Nat := bs.foldl (fun n b => n * 256 + b.val) 0

theorem foldl_bigEndian (w x n : Nat) (hx : x < 256 ^ w) :
    (bigEndian w x).foldl (fun n b => n * 256 + b.val) n = n * 256 ^ w + x := by
  induction w generalizing x n with
  | zero =>
    have hx0 : x = 0 := by simpa using hx
    simp [bigEndian, hx0]
  | succ w ih =>
    have hp : 0 < 256 ^ w := Nat.pow_pos (by decide)
    have hd : x / 256 ^ w < 256 := Nat.div_lt_of_lt_mul (by rwa [← Nat.pow_succ])
    rw [bigEndian, List.foldl_cons, ih _ _ (Nat.mod_lt _ hp)]
    simp only [Fin.ofNat, Nat.mod_eq_of_lt hd]
    calc (n * 256 + x / 256 ^ w) * 256 ^ w + x % 256 ^ w
        = n * 256 * 256 ^ w + (256 ^ w * (x / 256 ^ w) + x % 256 ^ w) := by ring
      _ = n * 256 ^ (w + 1) + x := by rw [Nat.div_add_mod]; ring

theorem ofBigEndian_bigEndian {w x : Nat} (hx : x < 256 ^ w) : ofBigEndian (bigEndian w x) = x := by
  rw [ofBigEndian, foldl_bigEndian w x 0 hx]
  omega

theorem ofBigEndian_lt (bs : List (Fin 256)) : ofBigEndian bs < 256 ^ bs.length := by
  induction bs using List.reverseRecOn with
  | nil => decide
  | append_singleton bs b ih =>
    unfold ofBigEndian at ih ⊢
    rw [List.foldl_append, List.length_append, List.length_singleton, Nat.pow_succ]
    simp only [List.foldl_cons, List.foldl_nil]
    omega

theorem bigEndian_ofBigEndian (bs : List (Fin 256)) :
    bigEndian bs.length (ofBigEndian bs) = bs := by
  induction bs with
  | nil => rfl
  | cons b bs ih =>
    have hlt := ofBigEndian_lt bs
    have hp : 0 < 256 ^ bs.length := Nat.pow_pos (by decide)
    have hcons : ofBigEndian (b :: bs) = 256 ^ bs.length * b.val + ofBigEndian bs := by
      have hfold := foldl_bigEndian bs.length (ofBigEndian bs) b.val hlt
      rw [ih] at hfold
      unfold ofBigEndian at hfold ⊢
      rw [List.foldl_cons, Nat.zero_mul, Nat.zero_add, hfold, Nat.mul_comm]
    rw [List.length_cons, bigEndian, hcons, Nat.mul_add_div hp, Nat.div_eq_of_lt hlt,
      Nat.mul_add_mod, Nat.mod_eq_of_lt hlt, ih]
    simp

end Scout.Lib
