import Mathlib.Data.List.Nodup
import Mathlib.Data.List.Perm.Subperm

/-! Finite sets of keys that can be listed, such as a Go map with values `true`. -/

namespace Scout.Lib

structure KeySet (κ : Type) where
  elems : List κ
  nodup : elems.Nodup
  deriving DecidableEq

/-- Two lists without repetitions that differ at one element at most. -/
theorem length_update {κ : Type} [DecidableEq κ] {l l' : List κ} {k : κ} (hl : l.Nodup)
    (hl' : l'.Nodup) (h : ∀ j, j ≠ k → (j ∈ l' ↔ j ∈ l)) :
    l'.length + (if k ∈ l then 1 else 0) = l.length + if k ∈ l' then 1 else 0 := by
  have hperm : (l'.erase k).Perm (l.erase k) := by
    refine (List.perm_ext_iff_of_nodup (hl'.erase k) (hl.erase k)).mpr fun j => ?_
    rw [hl'.mem_erase_iff, hl.mem_erase_iff]
    exact and_congr_right (h j)
  have herase : ∀ m : List κ, (m.erase k).length + (if k ∈ m then 1 else 0) = m.length := by
    intro m
    by_cases hk : k ∈ m
    · have hpos := List.length_pos_of_mem hk
      rw [if_pos hk, List.length_erase_of_mem hk]
      omega
    · rw [if_neg hk, List.erase_of_not_mem hk, Nat.add_zero]
  have hlen := hperm.length_eq
  have h₁ := herase l
  have h₂ := herase l'
  omega

namespace KeySet

variable {κ : Type}

instance : Membership κ (KeySet κ) := ⟨fun s k => k ∈ s.elems⟩

def empty : KeySet κ := ⟨[], List.nodup_nil⟩

def size (s : KeySet κ) : Nat := s.elems.length

@[simp] theorem not_mem_empty (k : κ) : k ∉ (empty : KeySet κ) := List.not_mem_nil

variable [DecidableEq κ]

instance (k : κ) (s : KeySet κ) : Decidable (k ∈ s) := inferInstanceAs (Decidable (k ∈ s.elems))

def insert (s : KeySet κ) (k : κ) : KeySet κ := ⟨s.elems.insert k, s.nodup.insert⟩

def erase (s : KeySet κ) (k : κ) : KeySet κ := ⟨s.elems.erase k, s.nodup.erase k⟩

@[simp] theorem mem_insert {s : KeySet κ} {k k' : κ} : k' ∈ s.insert k ↔ k' = k ∨ k' ∈ s :=
  List.mem_insert_iff

@[simp] theorem mem_erase {s : KeySet κ} {k k' : κ} : k' ∈ s.erase k ↔ k' ≠ k ∧ k' ∈ s :=
  s.nodup.mem_erase_iff

theorem size_erase {s : KeySet κ} {k : κ} (h : k ∈ s) : (s.erase k).size + 1 = s.size := by
  have hpos := List.length_pos_of_mem h
  have hlen : (s.erase k).size = s.size - 1 := List.length_erase_of_mem h
  unfold size at hlen ⊢
  omega

end KeySet

end Scout.Lib
