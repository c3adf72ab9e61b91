import Mathlib.Data.List.GetD
import Mathlib.Data.List.Nodup

/-!
Base 64 without padding, with the alphabet for URLs. Each group of three bytes
becomes four letters; a last group of one or two bytes becomes two or three.
-/

namespace Scout.Lib

def base64Alphabet : List Char :=
  "ABCDEFGHIJKLMNOPQRSTUVWXYZabcdefghijklmnopqrstuvwxyz0123456789-_".toList

def base64Letter (n : Nat) : Char := base64Alphabet.getD n '='

theorem base64Letter_inj {m n : Nat} (hm : m < 64) (hn : n < 64)
    (h : base64Letter m = base64Letter n) : m = n := by
  have hnodup : base64Alphabet.Nodup := by decide
  have hlen : base64Alphabet.length = 64 := rfl
  unfold base64Letter at h
  rw [List.getD_eq_getElem _ _ (hlen ▸ hm), List.getD_eq_getElem _ _ (hlen ▸ hn)] at h
  exact (List.Nodup.getElem_inj_iff hnodup).mp h

def base64RawUrl : List UInt8 → List Char
  | a :: b :: c :: rest =>
    base64Letter (a.toNat / 4) :: base64Letter (a.toNat % 4 * 16 + b.toNat / 16) ::
      base64Letter (b.toNat % 16 * 4 + c.toNat / 64) :: base64Letter (c.toNat % 64) ::
      base64RawUrl rest
  | [a, b] =>
    [base64Letter (a.toNat / 4), base64Letter (a.toNat % 4 * 16 + b.toNat / 16),
      base64Letter (b.toNat % 16 * 4)]
  | [a] => [base64Letter (a.toNat / 4), base64Letter (a.toNat % 4 * 16)]
  | [] => []

theorem base64_first {a b a' b' : Nat} (ha : a < 256) (hb : b < 256) (ha' : a' < 256)
    (hb' : b' < 256) (h₁ : base64Letter (a / 4) = base64Letter (a' / 4))
    (h₂ : base64Letter (a % 4 * 16 + b / 16) = base64Letter (a' % 4 * 16 + b' / 16)) :
    a = a' ∧ b / 16 = b' / 16 := by
  have h₁ := base64Letter_inj (by omega) (by omega) h₁
  have h₂ := base64Letter_inj (by omega) (by omega) h₂
  omega

theorem base64RawUrl_inj : ∀ {xs ys : List UInt8}, base64RawUrl xs = base64RawUrl ys → xs = ys
  | [], [], _ => rfl
  | [a], [a'], h => by
    simp only [base64RawUrl, List.cons.injEq, and_true] at h
    obtain ⟨h₁, h₂⟩ := h
    have ha := a.toNat_lt
    have ha' := a'.toNat_lt
    have h₁ := base64Letter_inj (by omega) (by omega) h₁
    have h₂ := base64Letter_inj (by omega) (by omega) h₂
    rw [UInt8.toNat_inj.mp (show a.toNat = a'.toNat by omega)]
  | [a, b], [a', b'], h => by
    simp only [base64RawUrl, List.cons.injEq, and_true] at h
    obtain ⟨h₁, h₂, h₃⟩ := h
    have hb := b.toNat_lt
    have hb' := b'.toNat_lt
    obtain ⟨ha, hhalf⟩ := base64_first a.toNat_lt hb a'.toNat_lt hb' h₁ h₂
    have h₃ := base64Letter_inj (by omega) (by omega) h₃
    rw [UInt8.toNat_inj.mp ha, UInt8.toNat_inj.mp (show b.toNat = b'.toNat by omega)]
  | a :: b :: c :: xs, a' :: b' :: c' :: ys, h => by
    simp only [base64RawUrl, List.cons.injEq] at h
    obtain ⟨h₁, h₂, h₃, h₄, hrest⟩ := h
    have hb := b.toNat_lt
    have hb' := b'.toNat_lt
    have hc := c.toNat_lt
    have hc' := c'.toNat_lt
    obtain ⟨ha, hhalf⟩ := base64_first a.toNat_lt hb a'.toNat_lt hb' h₁ h₂
    have h₃ := base64Letter_inj (by omega) (by omega) h₃
    have h₄ := base64Letter_inj (by omega) (by omega) h₄
    rw [UInt8.toNat_inj.mp ha, UInt8.toNat_inj.mp (show b.toNat = b'.toNat by omega),
      UInt8.toNat_inj.mp (show c.toNat = c'.toNat by omega), base64RawUrl_inj hrest]
  | [], [_], h | [], [_, _], h | [], _ :: _ :: _ :: _, h => by simp [base64RawUrl] at h
  | [_], [], h | [_], [_, _], h | [_], _ :: _ :: _ :: _, h => by simp [base64RawUrl] at h
  | [_, _], [], h | [_, _], [_], h | [_, _], _ :: _ :: _ :: _, h => by simp [base64RawUrl] at h
  | _ :: _ :: _ :: _, [], h | _ :: _ :: _ :: _, [_], h | _ :: _ :: _ :: _, [_, _], h => by
    simp [base64RawUrl] at h

example : base64RawUrl [77, 97, 110, 255, 250] = "TWFu__o".toList := by decide

theorem base64Letter_mem (n : Nat) : base64Letter n ∈ '=' :: base64Alphabet := by
  unfold base64Letter
  rw [List.getD_eq_getElem?_getD]
  cases h : base64Alphabet[n]? with
  | none => exact List.mem_cons_self ..
  | some c => exact List.mem_cons_of_mem _ (List.mem_of_getElem? h)

theorem base64RawUrl_mem (xs : List UInt8) : ∀ c ∈ base64RawUrl xs, c ∈ '=' :: base64Alphabet := by
  induction xs using base64RawUrl.induct with
  | case1 a b d rest ih =>
    intro c hc
    simp only [base64RawUrl, List.mem_cons (a := c)] at hc
    rcases hc with rfl | rfl | rfl | rfl | hc
    · exact base64Letter_mem _
    · exact base64Letter_mem _
    · exact base64Letter_mem _
    · exact base64Letter_mem _
    · exact ih c hc
  | case2 a b =>
    intro c hc
    simp only [base64RawUrl, List.mem_cons (a := c), List.not_mem_nil, or_false] at hc
    rcases hc with rfl | rfl | rfl <;> exact base64Letter_mem _
  | case3 a =>
    intro c hc
    simp only [base64RawUrl, List.mem_cons (a := c), List.not_mem_nil, or_false] at hc
    rcases hc with rfl | rfl <;> exact base64Letter_mem _
  | case4 => nofun

end Scout.Lib
