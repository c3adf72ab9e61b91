import Mathlib.Data.List.Basic
import Mathlib.Tactic.Common

/-!
Binary search in a list by a three-way comparison: the index of the first item that is
not before the target, and whether it is the target. The list need not be in order:
then the search comes to some index, and what it reports as found is still a match.
-/

namespace Scout.Lib

section Search

variable {α : Type*} (cmp : α → Int)

def cmpAt (xs : List α) (i : Nat) : Int := (xs[i]?.map cmp).getD 0

/-- The loop over the bounds `i` and `j`. -/
def searchLoop (xs : List α) : Nat → Nat → Nat → Nat
  | 0, i, _ => i
  | fuel + 1, i, j =>
    if i < j then
      if 0 < cmpAt cmp xs ((i + j) / 2) then searchLoop xs fuel ((i + j) / 2 + 1) j
      else searchLoop xs fuel i ((i + j) / 2)
    else i

/-- The length of the list is fuel enough, since each round shrinks the bounds. -/
def search (xs : List α) : Nat × Bool :=
  let i := searchLoop cmp xs xs.length 0 xs.length
  (i, decide (i < xs.length) && cmpAt cmp xs i == 0)

variable {cmp}

theorem searchLoop_eq {xs : List α} {k : Nat}
    (h : ∀ i, i < xs.length → (0 < cmpAt cmp xs i ↔ i < k)) {fuel i j : Nat} (hi : i ≤ k)
    (hj : k ≤ j) (hn : j ≤ xs.length) (hf : j - i ≤ fuel) : searchLoop cmp xs fuel i j = k := by
  induction fuel generalizing i j with
  | zero =>
    rw [searchLoop]
    omega
  | succ fuel ih =>
    rw [searchLoop]
    split
    · have hmid := h ((i + j) / 2) (by omega)
      split
      · rename_i hpos
        exact ih (by omega) hj hn (by omega)
      · rename_i hpos
        exact ih hi (by omega) (by omega) (by omega)
    · omega

/-- **Search rule.** On a list that the comparison divides, the search comes to the
dividing point. -/
theorem search_append {ls rs : List α} (hl : ∀ x ∈ ls, 0 < cmp x) (hr : ∀ x ∈ rs, cmp x ≤ 0) :
    search cmp (ls ++ rs) = (ls.length, rs.head?.any fun x => cmp x == 0) := by
  have hdiv : ∀ i, i < (ls ++ rs).length → (0 < cmpAt cmp (ls ++ rs) i ↔ i < ls.length) := by
    intro i hi
    by_cases hlt : i < ls.length
    · have hx := hl _ (List.getElem_mem hlt)
      simp [cmpAt, List.getElem?_append_left hlt, hlt, hx]
    · have hlen : i - ls.length < rs.length := by
        rw [List.length_append] at hi
        omega
      have hx := hr _ (List.getElem_mem hlen)
      simp [cmpAt, List.getElem?_append_right (Nat.le_of_not_lt hlt), hlen, hlt, hx]
  have hloop : searchLoop cmp (ls ++ rs) (ls ++ rs).length 0 (ls ++ rs).length = ls.length :=
    searchLoop_eq hdiv (Nat.zero_le _) (by simp) (Nat.le_refl _) (by simp)
  rw [search, hloop]
  cases rs with
  | nil => simp
  | cons r rs => simp [cmpAt]

/-- Whatever the order of the list, what is reported as found is a match. -/
theorem search_found {xs : List α} (h : (search cmp xs).2 = true) :
    ∃ x, xs[(search cmp xs).1]? = some x ∧ cmp x = 0 := by
  simp only [search, Bool.and_eq_true, decide_eq_true_eq, beq_iff_eq] at h ⊢
  obtain ⟨hlt, hc⟩ := h
  refine ⟨_, List.getElem?_eq_getElem hlt, ?_⟩
  rw [cmpAt, List.getElem?_eq_getElem hlt] at hc
  exact hc

end Search

/-! ## Lists that a test divides -/

section Divided

variable {α : Type*} {test : α → Bool} {xs : List α}

theorem takeWhile_eq_filter (h : xs.Pairwise fun a b => test b = true → test a = true) :
    xs.takeWhile test = xs.filter test := by
  induction xs with
  | nil => rfl
  | cons x xs ih =>
    obtain ⟨hx, hxs⟩ := List.pairwise_cons.mp h
    cases hp : test x with
    | true => rw [List.takeWhile_cons_of_pos hp, List.filter_cons_of_pos hp, ih hxs]
    | false =>
      have hno : xs.filter test = [] := by
        rw [List.filter_eq_nil_iff]
        intro y hy hpy
        rw [hx y hy hpy] at hp
        cases hp
      simp [hp, hno]

theorem dropWhile_eq_filter (h : xs.Pairwise fun a b => test b = true → test a = true) :
    xs.dropWhile test = xs.filter fun x => !test x := by
  induction xs with
  | nil => rfl
  | cons x xs ih =>
    obtain ⟨hx, hxs⟩ := List.pairwise_cons.mp h
    cases hp : test x with
    | true => simp [hp, ih hxs]
    | false =>
      have hall : (xs.filter fun y => !test y) = xs := by
        rw [List.filter_eq_self]
        intro y hy
        cases hpy : test y with
        | false => rfl
        | true =>
          rw [hx y hy hpy] at hp
          cases hp
      simp [hp, hall]

end Divided

end Scout.Lib
