import Scout.Lib.Loop

/-!
Two indexes of one collection: by a key, and by an attribute that no two items share.
They stay in step as long as an item is added to both and removed from both.
-/

namespace Scout.Lib

section Indexes

variable {α κ ι : Type} [DecidableEq κ] [DecidableEq ι]

structure Indexed (key : α → κ) (attr : α → ι) (byKey : AList fun _ : κ => α)
    (byAttr : AList fun _ : ι => α) : Prop where
  key_eq : ∀ k x, byKey.lookup k = some x → key x = k
  attr_eq : ∀ a x, byAttr.lookup a = some x → attr x = a
  same : ∀ x, byKey.lookup (key x) = some x ↔ byAttr.lookup (attr x) = some x

variable {key : α → κ} {attr : α → ι} {byKey : AList fun _ : κ => α}
  {byAttr : AList fun _ : ι => α}

namespace Indexed

theorem by_attr (h : Indexed key attr byKey byAttr) {k : κ} {x : α}
    (hx : byKey.lookup k = some x) : byAttr.lookup (attr x) = some x := by
  have hk := h.key_eq k x hx
  exact (h.same x).mp (hk.symm ▸ hx)

theorem by_key (h : Indexed key attr byKey byAttr) {a : ι} {x : α}
    (hx : byAttr.lookup a = some x) : byKey.lookup (key x) = some x := by
  have ha := h.attr_eq a x hx
  exact (h.same x).mpr (ha.symm ▸ hx)

theorem eq_of_attr (h : Indexed key attr byKey byAttr) {k k' : κ} {x y : α}
    (hx : byKey.lookup k = some x) (hy : byKey.lookup k' = some y) (he : attr x = attr y) :
    x = y := by
  have hxa := h.by_attr hx
  rw [he, h.by_attr hy] at hxa
  exact (Option.some.inj hxa).symm

theorem erase (h : Indexed key attr byKey byAttr) {k : κ} {x : α} (hx : byKey.lookup k = some x) :
    Indexed key attr (byKey.erase k) (byAttr.erase (attr x)) := by
  refine ⟨fun j y hy => ?_, fun a y hy => ?_, fun y => ?_⟩
  · exact h.key_eq j y (lookup_erase_eq_some.mp hy).2
  · exact h.attr_eq a y (lookup_erase_eq_some.mp hy).2
  · rw [lookup_erase_eq_some, lookup_erase_eq_some]
    constructor
    · rintro ⟨hne, hy⟩
      refine ⟨fun ha => hne ?_, h.by_attr hy⟩
      rw [h.eq_of_attr hy hx ha]
      exact h.key_eq k x hx
    · rintro ⟨hne, hy⟩
      have hyk := h.by_key hy
      refine ⟨fun hk => hne ?_, hyk⟩
      rw [hk, hx] at hyk
      rw [Option.some.inj hyk]

theorem insert (h : Indexed key attr byKey byAttr) {x : α} (hk : byKey.lookup (key x) = none)
    (ha : byAttr.lookup (attr x) = none) :
    Indexed key attr (byKey.insert (key x) x) (byAttr.insert (attr x) x) := by
  refine ⟨fun j y hy => ?_, fun a y hy => ?_, fun y => ?_⟩
  · rcases lookup_insert_eq_some.mp hy with ⟨hj, rfl⟩ | ⟨_, hy⟩
    · exact hj.symm
    · exact h.key_eq j y hy
  · rcases lookup_insert_eq_some.mp hy with ⟨hj, rfl⟩ | ⟨_, hy⟩
    · exact hj.symm
    · exact h.attr_eq a y hy
  · rw [lookup_insert_eq_some, lookup_insert_eq_some]
    constructor
    · rintro (⟨_, rfl⟩ | ⟨_, hy⟩)
      · exact .inl ⟨rfl, rfl⟩
      · have hya := h.by_attr hy
        refine .inr ⟨fun he => ?_, hya⟩
        rw [he, ha] at hya
        cases hya
    · rintro (⟨_, rfl⟩ | ⟨_, hy⟩)
      · exact .inl ⟨rfl, rfl⟩
      · have hyk := h.by_key hy
        refine .inr ⟨fun he => ?_, hyk⟩
        rw [he, hk] at hyk
        cases hyk

end Indexed

end Indexes

end Scout.Lib
