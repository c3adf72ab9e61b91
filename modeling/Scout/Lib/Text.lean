import Mathlib

/-!
Texts put together from parts, and how the parts are told apart again: by a
separator that occurs in none of them, or by a letter that starts each of them and
occurs nowhere else.
-/

namespace Scout.Lib

variable {α : Type} {c : α}

/-- **A separator that is in neither part tells them apart.** -/
theorem append_cons_inj {a b s t : List α} (ha : c ∉ a) (hb : c ∉ b)
    (h : a ++ c :: s = b ++ c :: t) : a = b ∧ s = t := by
  rcases List.append_eq_append_iff.mp h with ⟨l, hl, hr⟩ | ⟨l, hl, hr⟩
  · cases l with
    | nil =>
      rw [List.append_nil] at hl
      cases hr
      exact ⟨hl.symm, rfl⟩
    | cons d l =>
      cases hr
      exact absurd (by rw [hl]; simp) hb
  · cases l with
    | nil =>
      rw [List.append_nil] at hl
      cases hr
      exact ⟨hl, rfl⟩
    | cons d l =>
      cases hr
      exact absurd (by rw [hl]; simp) ha

/-- The part starts with the letter and has it nowhere else. -/
def Starts (c : α) (x : List α) : Prop := ∃ s, x = c :: s ∧ c ∉ s

variable {xs : List (List α)}

theorem flatten_cases (h : ∀ x ∈ xs, Starts c x) :
    xs = [] ∧ xs.flatten = [] ∨ ∃ r, xs.flatten = c :: r := by
  cases xs with
  | nil => exact .inl ⟨rfl, rfl⟩
  | cons x xs =>
    obtain ⟨s, rfl, _⟩ := h x (by simp)
    exact .inr ⟨s ++ xs.flatten, by simp⟩

theorem append_inj_of_starts {s t r r' : List α} (hs : c ∉ s) (ht : c ∉ t)
    (hr : r = [] ∨ ∃ q, r = c :: q) (hr' : r' = [] ∨ ∃ q, r' = c :: q)
    (h : s ++ r = t ++ r') : s = t ∧ r = r' := by
  rcases hr with rfl | ⟨q, rfl⟩
  · rcases hr' with rfl | ⟨q', rfl⟩
    · simpa using h
    · rw [List.append_nil] at h
      exact absurd (by rw [h]; simp) hs
  · rcases hr' with rfl | ⟨q', rfl⟩
    · rw [List.append_nil] at h
      exact absurd (by rw [← h]; simp) ht
    · obtain ⟨rfl, rfl⟩ := append_cons_inj hs ht h
      exact ⟨rfl, rfl⟩

/-- **A letter that starts every part and occurs nowhere else tells them apart.** -/
theorem flatten_inj {ys : List (List α)} (hx : ∀ x ∈ xs, Starts c x) (hy : ∀ y ∈ ys, Starts c y)
    (h : xs.flatten = ys.flatten) : xs = ys := by
  induction xs generalizing ys with
  | nil =>
    rcases flatten_cases hy with ⟨rfl, _⟩ | ⟨r, hr⟩
    · rfl
    · rw [← h] at hr
      cases hr
  | cons x xs ih =>
    obtain ⟨s, rfl, hs⟩ := hx x (by simp)
    cases ys with
    | nil => cases h
    | cons y ys =>
      obtain ⟨t, rfl, ht⟩ := hy y (by simp)
      have hxs : ∀ x ∈ xs, Starts c x := fun x hm => hx x (by simp [hm])
      have hys : ∀ y ∈ ys, Starts c y := fun y hm => hy y (by simp [hm])
      rw [List.flatten_cons, List.flatten_cons, List.cons_append, List.cons_append] at h
      obtain ⟨rfl, hrest⟩ := append_inj_of_starts hs ht
        ((flatten_cases hxs).imp_left And.right) ((flatten_cases hys).imp_left And.right)
        (List.cons.inj h).2
      rw [ih hxs hys hrest]

theorem cons_intercalate (h : xs ≠ []) : c :: [c].intercalate xs = (xs.map (c :: ·)).flatten := by
  induction xs with
  | nil => exact absurd rfl h
  | cons x xs ih =>
    cases xs with
    | nil => rfl
    | cons y ys =>
      rw [List.map_cons, List.flatten_cons, ← ih (List.cons_ne_nil y ys)]
      rfl

theorem intercalate_ne_nil (h : xs ≠ []) (hx : ∀ x ∈ xs, x ≠ []) : [c].intercalate xs ≠ [] := by
  intro hnil
  have hflat := cons_intercalate (c := c) h
  obtain ⟨x, ys, rfl⟩ := List.exists_cons_of_ne_nil h
  rw [hnil, List.map_cons, List.flatten_cons, List.cons_append] at hflat
  exact hx x (by simp) (List.append_eq_nil_iff.mp (List.cons.inj hflat).2.symm).1

theorem intercalate_inj {ys : List (List α)} (hx : ∀ x ∈ xs, c ∉ x ∧ x ≠ [])
    (hy : ∀ y ∈ ys, c ∉ y ∧ y ≠ []) (h : [c].intercalate xs = [c].intercalate ys) : xs = ys := by
  by_cases hxs : xs = []
  · subst hxs
    by_contra hne
    exact intercalate_ne_nil (Ne.symm hne) (fun y hm => (hy y hm).2) h.symm
  by_cases hys : ys = []
  · subst hys
    exact absurd h (intercalate_ne_nil hxs fun x hm => (hx x hm).2)
  have hstarts : ∀ zs : List (List α), (∀ z ∈ zs, c ∉ z ∧ z ≠ []) →
      ∀ w ∈ zs.map (c :: ·), Starts c w := by
    intro zs hz w hw
    obtain ⟨z, hm, rfl⟩ := List.mem_map.mp hw
    exact ⟨z, rfl, (hz z hm).1⟩
  have hflat : (xs.map (c :: ·)).flatten = (ys.map (c :: ·)).flatten := by
    rw [← cons_intercalate hxs, ← cons_intercalate hys, h]
  have hmap := flatten_inj (hstarts xs hx) (hstarts ys hy) hflat
  exact List.map_injective_iff.mpr (fun _ _ he => (List.cons.inj he).2) hmap

section Labels

variable {a b : List α} {r r' : List α}

/-- The label `a` and a part, again and again, and at last the label `b`. -/
def labelled (c : α) (a b : List α) (xs : List (List α)) (r : List α) : List α :=
  (xs.flatMap fun x => a ++ c :: x) ++ (b ++ c :: r)

theorem labelled_cons (x : List α) (xs : List (List α)) :
    labelled c a b (x :: xs) r = a ++ c :: (x ++ labelled c a b xs r) := by
  unfold labelled
  simp

theorem labelled_cases (xs : List (List α)) :
    ∃ l q, labelled c a b xs r = l ++ c :: q ∧ (l = a ∨ l = b) := by
  cases xs with
  | nil => exact ⟨b, r, rfl, .inr rfl⟩
  | cons x xs => exact ⟨a, _, labelled_cons x xs, .inl rfl⟩

/-- **Labels tell the parts apart**, if no part has the separator, and a part with one label
after it is never a part with the other. -/
theorem labelled_inj (ha : c ∉ a) (hb : c ∉ b) (hab : ∀ x y, x ++ a ≠ y ++ b)
    {xs ys : List (List α)} (hx : ∀ x ∈ xs, c ∉ x) (hy : ∀ y ∈ ys, c ∉ y)
    (h : labelled c a b xs r = labelled c a b ys r') : xs = ys := by
  induction xs generalizing ys with
  | nil =>
    cases ys with
    | nil => rfl
    | cons y ys =>
      rw [labelled_cons] at h
      exact absurd (append_cons_inj hb ha h).1.symm (hab [] [])
  | cons x xs ih =>
    cases ys with
    | nil =>
      rw [labelled_cons] at h
      exact absurd (append_cons_inj ha hb h).1 (hab [] [])
    | cons y ys =>
      rw [labelled_cons, labelled_cons] at h
      have hrest := (append_cons_inj ha ha h).2
      obtain ⟨l, q, hl, hlab⟩ := labelled_cases (c := c) (a := a) (b := b) (r := r) xs
      obtain ⟨l', q', hl', hlab'⟩ := labelled_cases (c := c) (a := a) (b := b) (r := r') ys
      have hcl : ∀ l, l = a ∨ l = b → ∀ u, c ∉ u → c ∉ u ++ l := by
        rintro l (rfl | rfl) u hu hm
        · exact (List.mem_append.mp hm).elim hu ha
        · exact (List.mem_append.mp hm).elim hu hb
      have hwords : x ++ l = y ++ l' ∧ q = q' := by
        rw [hl, hl', ← List.append_assoc, ← List.append_assoc] at hrest
        exact append_cons_inj (hcl l hlab x (hx x (by simp)))
          (hcl l' hlab' y (hy y (by simp))) hrest
      have hsame : l = l' := by
        rcases hlab with rfl | rfl
        · rcases hlab' with rfl | rfl
          · rfl
          · exact absurd hwords.1 (hab _ _)
        · rcases hlab' with rfl | rfl
          · exact absurd hwords.1.symm (hab _ _)
          · rfl
      subst hsame
      obtain rfl := List.append_cancel_right hwords.1
      have htail : xs = ys := ih (fun u hu => hx u (List.mem_cons_of_mem _ hu))
        (fun u hu => hy u (List.mem_cons_of_mem _ hu)) (by rw [hl, hl', hwords.2])
      rw [htail]

end Labels

theorem not_mem_toString {c : Char} (hc : c.isDigit = false) (n : Nat) :
    c ∉ (toString n).toList := by
  intro h
  have hd : c ∈ Nat.toDigits 10 n := by
    rw [← Nat.toList_repr]
    exact h
  rw [Nat.isDigit_of_mem_toDigits (by decide) (by decide) hd] at hc
  cases hc

theorem toString_toList_inj {m n : Nat} (h : (toString m).toList = (toString n).toList) : m = n :=
  Nat.repr_inj.mp (String.toList_inj.mp h)

end Scout.Lib
