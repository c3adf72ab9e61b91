import Mathlib.Data.List.AList
import Mathlib.Order.MinMax
import Mathlib.Tactic.Common

/-!
Two small tools used throughout: loops that thread a state and collect one
answer for each item, with their invariant rule, and finite maps (`AList`)
with bulk removal.
-/

namespace Scout.Lib

section Loop

variable {σ α β : Type} (f : σ → α → σ × β)

/-- Run `f` over the items in order, keeping every answer. -/
def loop : σ → List α → σ × List β
  | s, [] => (s, [])
  | s, x :: xs =>
    let r := f s x
    let rest := loop r.1 xs
    (rest.1, r.2 :: rest.2)

@[simp] theorem loop_nil (s : σ) : loop f s [] = (s, []) := rfl

theorem loop_cons (s : σ) (x : α) (xs : List α) : loop f s (x :: xs) =
      ((loop f (f s x).1 xs).1, (f s x).2 :: (loop f (f s x).1 xs).2) := rfl

theorem loop_append (s : σ) (xs ys : List α) : loop f s (xs ++ ys) =
      ((loop f (loop f s xs).1 ys).1, (loop f s xs).2 ++ (loop f (loop f s xs).1 ys).2) := by
  induction xs generalizing s with
  | nil => rfl
  | cons x xs ih => simp only [List.cons_append, loop_cons, ih]

theorem loop_snoc (s : σ) (xs : List α) (x : α) : loop f s (xs ++ [x]) =
      ((f (loop f s xs).1 x).1, (loop f s xs).2 ++ [(f (loop f s xs).1 x).2]) :=
  loop_append f s xs [x]

@[simp] theorem loop_length (s : σ) (xs : List α) : (loop f s xs).2.length = xs.length := by
  induction xs generalizing s with
  | nil => rfl
  | cons x xs ih => simp [loop_cons, ih]

/-- **Invariant rule.** What every iteration preserves, together with the
answers given so far, holds at the end of the loop. -/
theorem loop_invariant (I : σ → List β → Prop) (xs : List α) (s : σ) (bs : List β) (h₀ : I s bs)
    (hstep : ∀ s bs, ∀ x ∈ xs, I s bs → I (f s x).1 (bs ++ [(f s x).2])) :
    I (loop f s xs).1 (bs ++ (loop f s xs).2) := by
  induction xs generalizing s bs with
  | nil => simpa using h₀
  | cons x xs ih =>
    have h₁ := hstep s bs x (by simp) h₀
    have h₂ := ih (f s x).1 (bs ++ [(f s x).2]) h₁
      (fun s bs y hy => hstep s bs y (by simp [hy]))
    simpa [loop_cons] using h₂

/-- **Invariant rule with history.** The invariant may also mention the items
done so far, and a step may use where its item stands in the whole list. -/
theorem loop_history (I : List α → σ → List β → Prop) (xs : List α) (s : σ) (h₀ : I [] s [])
    (hstep : ∀ pre x post s bs, xs = pre ++ x :: post → I pre s bs →
      I (pre ++ [x]) (f s x).1 (bs ++ [(f s x).2])) : I xs (loop f s xs).1 (loop f s xs).2 := by
  suffices h : ∀ post pre s bs, xs = pre ++ post → I pre s bs →
      I xs (loop f s post).1 (bs ++ (loop f s post).2) from h xs [] s [] rfl h₀
  intro post
  induction post with
  | nil =>
    intro pre s bs e h
    simpa [e] using h
  | cons x post ih =>
    intro pre s bs e h
    have h' := ih (pre ++ [x]) (f s x).1 (bs ++ [(f s x).2]) (by simp [e])
      (hstep pre x post s bs e h)
    simpa [loop_cons] using h'

/-- Two loops that agree at every state reached are equal. -/
theorem loop_congr (f g : σ → α → σ × β) (s : σ) (xs : List α)
    (h : ∀ pre x post, xs = pre ++ x :: post → f (loop f s pre).1 x = g (loop f s pre).1 x) :
    loop f s xs = loop g s xs := by
  induction xs generalizing s with
  | nil => rfl
  | cons x xs ih =>
    have hx : f s x = g s x := h [] x xs rfl
    have hxs := ih (f s x).1 (fun pre y post e => h (x :: pre) y post (by simp [e]))
    rw [loop_cons, loop_cons, ← hx, hxs]

theorem loop_getElem? (s : σ) (xs : List α) (i : Nat) :
    (loop f s xs).2[i]? = xs[i]?.map fun x => (f (loop f s (xs.take i)).1 x).2 := by
  induction xs generalizing s i with
  | nil => rfl
  | cons x xs ih =>
    cases i with
    | zero => rfl
    | succ i => exact ih (f s x).1 i

/-- Every answer of a loop was given at some state of it, reached by the items
before its own. -/
theorem loop_answer (s : σ) (xs : List α) (b : β) (hb : b ∈ (loop f s xs).2) :
    ∃ ys x zs, xs = ys ++ x :: zs ∧ b = (f (loop f s ys).1 x).2 := by
  induction xs generalizing s with
  | nil => simp at hb
  | cons x xs ih =>
    rw [loop_cons] at hb
    rcases List.mem_cons.mp hb with e | hb
    · exact ⟨[], x, xs, rfl, e⟩
    · obtain ⟨ys, y, zs, e, hy⟩ := ih _ hb
      exact ⟨x :: ys, y, zs, by simp [e], hy⟩

theorem loop_zip_answer (s : σ) (xs : List α) (p : α × β) (hp : p ∈ xs.zip (loop f s xs).2) :
    ∃ ys zs, xs = ys ++ p.1 :: zs ∧ p.2 = (f (loop f s ys).1 p.1).2 := by
  induction xs generalizing s with
  | nil => simp at hp
  | cons x xs ih =>
    rw [loop_cons, List.zip_cons_cons] at hp
    rcases List.mem_cons.mp hp with rfl | hp
    · exact ⟨[], xs, rfl, rfl⟩
    · obtain ⟨ys, zs, e, hy⟩ := ih _ hp
      exact ⟨x :: ys, zs, by simp [e], hy⟩

end Loop

theorem le_foldl_min_iff {α : Type} (c : α → Bool) (v : α → Nat) (xs : List α) (x init : Nat) :
    x ≤ xs.foldl (fun r e => if c e then min r (v e) else r) init ↔
      x ≤ init ∧ ∀ e ∈ xs, c e = true → x ≤ v e := by
  induction xs generalizing init with
  | nil => simp
  | cons e xs ih =>
    rw [List.foldl_cons, ih]
    cases h : c e with
    | true => simp [h, and_assoc]
    | false => simp [h]

theorem mapM_eq_map {α γ : Type} {f : α → Option γ} {g : α → γ} {xs : List α}
    (h : ∀ x ∈ xs, f x = some (g x)) : xs.mapM f = some (xs.map g) := by
  induction xs with
  | nil => rfl
  | cons x xs ih =>
    rw [List.mapM_cons, h x (List.mem_cons_self ..),
      ih fun y hy => h y (List.mem_cons_of_mem _ hy)]
    rfl

theorem findSome_congr {α β : Type} {f g : α → Option β} {xs : List α}
    (h : ∀ x ∈ xs, f x = g x) : xs.findSome? f = xs.findSome? g := by
  induction xs with
  | nil => rfl
  | cons x xs ih =>
    simp only [List.findSome?_cons, h x (by simp), ih fun y hy => h y (by simp [hy])]

section Maps

variable {κ : Type} {V : κ → Type} [DecidableEq κ]

def eraseAll (ks : List κ) (m : AList V) : AList V := ks.foldl (fun m k => m.erase k) m

theorem lookup_erase_if (m : AList V) (k k' : κ) :
    (m.erase k).lookup k' = if k' = k then none else m.lookup k' := by
  by_cases hk : k' = k
  · rw [if_pos hk, hk, AList.lookup_erase]
  · rw [if_neg hk, AList.lookup_erase_ne hk]

variable {k : κ}

theorem lookup_erase_eq_some {m : AList V} {k' : κ} {v : V k'} :
    (m.erase k).lookup k' = some v ↔ k' ≠ k ∧ m.lookup k' = some v := by
  rw [lookup_erase_if]
  by_cases hk : k' = k
  · simp [hk]
  · simp [hk]

theorem lookup_eraseAll (ks : List κ) (m : AList V) (k : κ) :
    (eraseAll ks m).lookup k = if k ∈ ks then none else m.lookup k := by
  induction ks generalizing m with
  | nil => rfl
  | cons x ks ih =>
    change (eraseAll ks (m.erase x)).lookup k = _
    rw [ih, lookup_erase_if]
    by_cases hk : k ∈ ks
    · simp [hk]
    · by_cases hx : k = x
      · simp [hx]
      · simp [hk, hx]

theorem mem_entries_iff (m : AList V) (k : κ) (v : V k) :
    (⟨k, v⟩ : Sigma V) ∈ m.entries ↔ m.lookup k = some v := by
  rw [← AList.mem_lookup_iff, Option.mem_def]

variable {α β : Type}

theorem lookup_insert_if (m : AList fun _ : κ => β) (k : κ) (b : β) (k' : κ) :
    (m.insert k b).lookup k' = if k' = k then some b else m.lookup k' := by
  by_cases hk : k' = k
  · rw [if_pos hk, hk, AList.lookup_insert]
  · rw [if_neg hk, AList.lookup_insert_ne hk]

variable {m : AList fun _ : κ => β} {b : β}

theorem lookup_insert_eq_some {k' : κ} {b' : β} :
    (m.insert k b).lookup k' = some b' ↔ k' = k ∧ b' = b ∨ k' ≠ k ∧ m.lookup k' = some b' := by
  rw [lookup_insert_if]
  by_cases hk : k' = k
  · simp [hk, eq_comm]
  · simp [hk]

theorem lookup_insert_same (h : m.lookup k = some b) (k' : κ) :
    (m.insert k b).lookup k' = m.lookup k' := by
  rw [lookup_insert_if]
  by_cases hk : k' = k
  · rw [if_pos hk, hk, h]
  · rw [if_neg hk]

theorem isSome_lookup_insert (h : (m.lookup k).isSome = true) (b : β) (k' : κ) :
    ((m.insert k b).lookup k').isSome = (m.lookup k').isSome := by
  rw [lookup_insert_if]
  by_cases hk : k' = k
  · rw [if_pos hk, hk, h]
    rfl
  · rw [if_neg hk]

/-- Fill an empty map, item by item; a later item replaces an earlier one. -/
def fillMap (key : α → κ) (g : α → β) (xs : List α) : AList fun _ : κ => β :=
  xs.foldl (fun m x => m.insert (key x) (g x)) ∅

theorem lookup_insertAll (g : α → β) (l : List (Sigma fun _ : κ => α)) (hl : l.NodupKeys)
    (m : AList fun _ : κ => β) (k : κ) : (l.foldl (fun m e => m.insert e.1 (g e.2)) m).lookup k =
      ((l.dlookup k).map g).or (m.lookup k) := by
  induction l generalizing m with
  | nil => rfl
  | cons e l ih =>
    obtain ⟨hne, hl⟩ := List.nodupKeys_cons.mp hl
    rw [List.foldl_cons, ih hl]
    by_cases hk : k = e.1
    · subst hk
      rw [List.dlookup_eq_none.mpr hne, List.dlookup_cons_eq, AList.lookup_insert]
      rfl
    · rw [List.dlookup_cons_ne _ _ hk, AList.lookup_insert_ne hk]

/-- **Rebuilding a map.** A map is recovered from its values when each value
names its own key. -/
theorem lookup_fillMap (key : α → κ) (g : α → β) (m : AList fun _ : κ => α)
    (hkey : ∀ k v, m.lookup k = some v → key v = k) (k : κ) :
    (fillMap key g (m.entries.map Sigma.snd)).lookup k = (m.lookup k).map g := by
  have same : fillMap key g (m.entries.map Sigma.snd) =
      m.entries.foldl (fun m e => m.insert e.1 (g e.2)) ∅ := by
    unfold fillMap
    rw [List.foldl_map]
    refine List.foldl_ext _ _ _ ?_
    intro acc e he
    rw [hkey e.1 e.2 ((mem_entries_iff m e.1 e.2).mp he)]
  rw [same, lookup_insertAll g m.entries m.nodupKeys, AList.lookup_empty, Option.or_none]
  rfl

/-- The entries for which there is a new value. -/
def pick (f : α → Option β) (m : AList fun _ : κ => α) : AList fun _ : κ => β :=
  m.entries.foldl (fun acc e => match f e.2 with
    | some b => acc.insert e.1 b
    | none => acc) ∅

theorem lookup_pick (f : α → Option β) (m : AList fun _ : κ => α) (k : κ) :
    (pick f m).lookup k = (m.lookup k).bind f := by
  have key : ∀ (l : List (Sigma fun _ : κ => α)) (acc : AList fun _ : κ => β), l.NodupKeys →
      (l.foldl (fun acc e => match f e.2 with
        | some b => acc.insert e.1 b
        | none => acc) acc).lookup k = ((l.dlookup k).bind f).or (acc.lookup k) := by
    intro l
    induction l with
    | nil =>
      intro acc _
      rfl
    | cons e l ih =>
      intro acc hl
      obtain ⟨hne, hl⟩ := List.nodupKeys_cons.mp hl
      rw [List.foldl_cons, ih _ hl]
      by_cases hk : k = e.1
      · subst hk
        rw [List.dlookup_eq_none.mpr hne, List.dlookup_cons_eq]
        cases hf : f e.2 <;> simp [hf]
      · rw [List.dlookup_cons_ne _ _ hk]
        cases hf : f e.2 with
        | none => rfl
        | some b => rw [AList.lookup_insert_ne hk]
  unfold pick
  rw [key m.entries ∅ m.nodupKeys, AList.lookup_empty, Option.or_none]
  rfl

def addKeys (g : α → β) (new : AList fun _ : κ => α) (m : AList fun _ : κ => β) :
    AList fun _ : κ => β :=
  new.entries.foldl (fun m e => if (m.lookup e.1).isSome then m else m.insert e.1 (g e.2)) m

theorem lookup_addKeys {g : α → β} {new : AList fun _ : κ => α}
    (h : (addKeys g new m).lookup k = some b) :
    m.lookup k = some b ∨ ∃ a, new.lookup k = some a ∧ g a = b := by
  refine List.foldlRecOn (motive := fun m' : AList fun _ : κ => β => m'.lookup k = some b →
    m.lookup k = some b ∨ ∃ a, new.lookup k = some a ∧ g a = b) _ _ .inl ?_ h
  intro m' ih e he hk
  split at hk
  · exact ih hk
  by_cases hke : k = e.1
  · subst hke
    rw [AList.lookup_insert, Option.some_inj] at hk
    exact .inr ⟨e.2, (mem_entries_iff new e.1 e.2).mp he, hk⟩
  · rw [AList.lookup_insert_ne hke] at hk
    exact ih hk

def keepKeys (new : AList fun _ : κ => α) (m : AList fun _ : κ => β) : AList fun _ : κ => β :=
  eraseAll (m.keys.filter fun k => (new.lookup k).isNone) m

theorem lookup_keepKeys {new : AList fun _ : κ => α} (h : (keepKeys new m).lookup k = some b) :
    m.lookup k = some b := by
  unfold keepKeys at h
  rw [lookup_eraseAll] at h
  split at h
  · cases h
  · exact h

end Maps

end Scout.Lib
