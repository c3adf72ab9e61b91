import Mathlib.Data.List.Nodup

/-!
Values sent to channels, as the list of all sends in order.
-/

namespace Scout.Lib

variable {κ β ι : Type} [DecidableEq κ]

def valuesFor (c : κ) (sends : List (κ × β)) : List β :=
  (sends.filter fun x => x.1 = c).map Prod.snd

@[simp] theorem valuesFor_nil (c : κ) : valuesFor c ([] : List (κ × β)) = [] := rfl

@[simp] theorem valuesFor_append (c : κ) (xs ys : List (κ × β)) :
    valuesFor c (xs ++ ys) = valuesFor c xs ++ valuesFor c ys := by
  simp [valuesFor]

theorem valuesFor_cons (c d : κ) (v : β) (xs : List (κ × β)) :
    valuesFor c ((d, v) :: xs) = (if d = c then [v] else []) ++ valuesFor c xs := by
  by_cases h : d = c <;> simp [valuesFor, h]

theorem valuesFor_of_not_mem {c : κ} {sends : List (κ × β)} (h : ∀ x ∈ sends, x.1 ≠ c) :
    valuesFor c sends = [] := by
  unfold valuesFor
  rw [List.map_eq_nil_iff, List.filter_eq_nil_iff]
  exact fun x hx he => h x hx (of_decide_eq_true he)

theorem valuesFor_zip {c : κ} {chans : List κ} (hnd : chans.Nodup) (vs : List β) {i : Nat}
    (h : chans[i]? = some c) : valuesFor c (chans.zip vs) = vs[i]?.toList := by
  induction chans generalizing vs i with
  | nil => simp at h
  | cons d chans ih =>
    obtain ⟨hd, hnd⟩ := List.nodup_cons.mp hnd
    cases vs with
    | nil => simp
    | cons v vs =>
      rw [List.zip_cons_cons, valuesFor_cons]
      cases i with
      | zero =>
        have hdc : d = c := by simpa using h
        subst hdc
        have hrest : valuesFor d (chans.zip vs) = [] := by
          refine valuesFor_of_not_mem fun x hx he => ?_
          have hmem := (List.of_mem_zip (a := x.1) (b := x.2) hx).1
          rw [he] at hmem
          exact hd hmem
        simp [hrest]
      | succ i =>
        have hi : chans[i]? = some c := by simpa using h
        have hne : d ≠ c := by
          rintro rfl
          exact hd (List.mem_of_getElem? hi)
        rw [if_neg hne, ih hnd vs hi]
        rfl

/-- If all but one group of sends are to other channels. -/
theorem valuesFor_flatMap {c : κ} {g : ι → List (κ × β)} {ks : List ι} {k : ι} (hnd : ks.Nodup)
    (hk : k ∈ ks) (h : ∀ j ∈ ks, j ≠ k → valuesFor c (g j) = []) :
    valuesFor c (ks.flatMap g) = valuesFor c (g k) := by
  induction ks with
  | nil => cases hk
  | cons j ks ih =>
    obtain ⟨hj, hnd⟩ := List.nodup_cons.mp hnd
    rw [List.flatMap_cons, valuesFor_append]
    by_cases hjk : j = k
    · subst hjk
      have hrest : valuesFor c (ks.flatMap g) = [] := by
        refine valuesFor_of_not_mem fun x hx hxc => ?_
        obtain ⟨i, hi, hx⟩ := List.mem_flatMap.mp hx
        have hnone := h i (List.mem_cons_of_mem _ hi) fun he => hj (he ▸ hi)
        unfold valuesFor at hnone
        rw [List.map_eq_nil_iff, List.filter_eq_nil_iff] at hnone
        exact hnone x hx (decide_eq_true hxc)
      rw [hrest, List.append_nil]
    · rw [h j (List.mem_cons_self ..) hjk, List.nil_append]
      refine ih hnd ?_ fun i hi => h i (List.mem_cons_of_mem _ hi)
      exact (List.mem_cons.mp hk).resolve_left (Ne.symm hjk)

/-- Send the values in order, each to the channel of its index; `none` if there is no
such channel. -/
def sendAll : List κ → List β → Option (List (κ × β))
  | _, [] => some []
  | [], _ :: _ => none
  | c :: cs, v :: vs => (sendAll cs vs).map ((c, v) :: ·)

omit [DecidableEq κ] in
theorem sendAll_eq_zip {cs : List κ} {vs : List β} (h : vs.length ≤ cs.length) :
    sendAll cs vs = some (cs.zip vs) := by
  induction vs generalizing cs with
  | nil =>
    rw [List.zip_nil_right]
    unfold sendAll
    rfl
  | cons v vs ih =>
    cases cs with
    | nil => simp at h
    | cons c cs =>
      unfold sendAll
      rw [ih (by simpa using h)]
      rfl

omit [DecidableEq κ] in
theorem map_eq_zip (cs : List κ) (v : β) :
    cs.map (fun c => (c, v)) = cs.zip (List.replicate cs.length v) := by
  induction cs with
  | nil => rfl
  | cons c cs ih => rw [List.map_cons, ih]; rfl

end Scout.Lib
