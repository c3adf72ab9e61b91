import Mathlib.Data.List.MinMax
import Mathlib.Tactic.Common

/-!
Versioned stores, over any record type with an address and a timestamp. A
store is a list of records; a read at time `t` sees the newest record of its
address at or before `t`. Nothing here depends on what an address is.
-/

namespace Scout.Lib

section Versioned

variable {R A : Type} [DecidableEq A] (addr : R → A) (ts : R → Nat)

/-- The newest version of `a` at or before `t`. -/
def newest (rs : List R) (a : A) (t : Nat) : Option R :=
  (rs.filter (fun r => decide (addr r = a) && decide (ts r ≤ t))).argmax ts

/-- At most one record for each address and timestamp. -/
def Keyed (rs : List R) : Prop :=
  ∀ r ∈ rs, ∀ r' ∈ rs, addr r = addr r' → ts r = ts r' → r = r'

/-- The two stores hold the same versions of `a` up to `t`. -/
def AgreeAt (rs rs' : List R) (a : A) (t : Nat) : Prop :=
  ∀ r, addr r = a → ts r ≤ t → (r ∈ rs ↔ r ∈ rs')

/-- Write one record, replacing the one at the same address and timestamp. -/
def overwrite (rs : List R) (r : R) : List R :=
  r :: rs.filter (fun x => !(decide (addr x = addr r) && decide (ts x = ts r)))

def overwriteAll (rs ws : List R) : List R := ws.foldl (overwrite addr ts) rs

variable {addr ts} {rs : List R} {a : A} {t : Nat} {r : R}

theorem newest_spec (h : newest addr ts rs a t = some r) :
    r ∈ rs ∧ addr r = a ∧ ts r ≤ t ∧ ∀ x ∈ rs, addr x = a → ts x ≤ t → ts x ≤ ts r := by
  have hm := List.argmax_mem h
  simp only [List.mem_filter, Bool.and_eq_true, decide_eq_true_eq] at hm
  refine ⟨hm.1, hm.2.1, hm.2.2, ?_⟩
  intro x hx ha ht
  exact List.le_of_mem_argmax (by simp [hx, ha, ht]) h

theorem newest_none : newest addr ts rs a t = none ↔ ∀ x ∈ rs, addr x = a → t < ts x := by
  unfold newest
  rw [List.argmax_eq_none, List.filter_eq_nil_iff]
  constructor
  · intro h x hx ha
    have := h x hx
    simp only [ha, decide_true, Bool.true_and, decide_eq_true_eq, not_le] at this
    exact this
  · intro h x hx
    simp only [Bool.and_eq_true, decide_eq_true_eq, not_and, not_le]
    exact h x hx

/-- **Frame rule for reads.** A read depends only on the versions of its
address up to its time. -/
theorem newest_congr {rs' : List R} (hk : Keyed addr ts rs) (h : AgreeAt addr ts rs rs' a t) :
    newest addr ts rs a t = newest addr ts rs' a t := by
  cases hr : newest addr ts rs a t with
  | none =>
    symm
    rw [newest_none] at hr ⊢
    intro x hx ha
    by_contra hle
    exact hle (hr x ((h x ha (by omega)).mpr hx) ha)
  | some r =>
    obtain ⟨hm, ha, ht, hmax⟩ := newest_spec hr
    cases hr' : newest addr ts rs' a t with
    | none =>
      have := newest_none.mp hr' r ((h r ha ht).mp hm) ha
      omega
    | some r' =>
      obtain ⟨hm', ha', ht', hmax'⟩ := newest_spec hr'
      have hin := (h r' ha' ht').mpr hm'
      have h1 := hmax r' hin ha' ht'
      have h2 := hmax' r ((h r ha ht).mp hm) ha ht
      rw [hk r hm r' hin (ha.trans ha'.symm) (by omega)]

theorem newest_later {t' : Nat} (hle : t ≤ t') (h : ∀ r ∈ rs, addr r = a → ts r ≤ t) :
    newest addr ts rs a t' = newest addr ts rs a t := by
  unfold newest
  congr 1
  refine List.filter_congr ?_
  intro r hr
  by_cases ha : addr r = a
  · have := h r hr ha
    simp [ha, this, this.trans hle]
  · simp [ha]

theorem mem_overwrite {w : R} :
    r ∈ overwrite addr ts rs w ↔ r = w ∨ (r ∈ rs ∧ ¬ (addr r = addr w ∧ ts r = ts w)) := by
  simp only [overwrite, List.mem_cons, List.mem_filter, Bool.not_eq_true', Bool.and_eq_false_iff,
    decide_eq_false_iff_not, not_and_or]

theorem overwriteAll_append (rs ws ws' : List R) :
    overwriteAll addr ts rs (ws ++ ws') = overwriteAll addr ts (overwriteAll addr ts rs ws) ws' :=
  List.foldl_append

variable {ws : List R}

theorem mem_overwriteAll_of_agrees (h : r ∈ rs ∨ r ∈ ws)
    (hw : ∀ w ∈ ws, addr r = addr w → ts r = ts w → w = r) : r ∈ overwriteAll addr ts rs ws := by
  induction ws generalizing rs with
  | nil => exact h.resolve_right List.not_mem_nil
  | cons w ws ih =>
    refine ih ?_ fun x hx => hw x (by simp [hx])
    by_cases hwr : w = r
    · exact .inl (mem_overwrite.mpr (.inl hwr.symm))
    have hdiff : ¬ (addr r = addr w ∧ ts r = ts w) := fun hs =>
      hwr (hw w (by simp) hs.1 hs.2)
    rcases h with h | h
    · exact .inl (mem_overwrite.mpr (.inr ⟨h, hdiff⟩))
    · exact .inr ((List.mem_cons.mp h).resolve_left (Ne.symm hwr))

theorem mem_overwriteAll_of_mem (h : r ∈ rs) (hw : ∀ w ∈ ws, ¬ (addr r = addr w ∧ ts r = ts w)) :
    r ∈ overwriteAll addr ts rs ws :=
  mem_overwriteAll_of_agrees (.inl h) fun w hm ha ht => absurd ⟨ha, ht⟩ (hw w hm)

theorem mem_of_mem_overwriteAll (h : r ∈ overwriteAll addr ts rs ws) : r ∈ rs ∨ r ∈ ws := by
  induction ws generalizing rs with
  | nil => exact .inl h
  | cons w ws ih =>
    rcases @ih (overwrite addr ts rs w) h with hr | hr
    · rcases mem_overwrite.mp hr with e | e
      · exact .inr (by simp [e])
      · exact .inl e.1
    · exact .inr (by simp [hr])

theorem exists_mem_overwriteAll {w : R} (h : w ∈ ws) :
    ∃ r ∈ overwriteAll addr ts rs ws, addr r = addr w ∧ ts r = ts w := by
  induction ws using List.reverseRecOn with
  | nil => cases h
  | append_singleton ws x ih =>
    have hlast : overwriteAll addr ts rs (ws ++ [x]) =
        overwrite addr ts (overwriteAll addr ts rs ws) x := overwriteAll_append rs ws [x]
    rw [hlast]
    by_cases hx : addr w = addr x ∧ ts w = ts x
    · exact ⟨x, mem_overwrite.mpr (.inl rfl), hx.1.symm, hx.2.symm⟩
    have hw : w ∈ ws := by
      rcases List.mem_append.mp h with hw | hw
      · exact hw
      · rw [List.mem_singleton.mp hw] at hx
        exact absurd ⟨rfl, rfl⟩ hx
    obtain ⟨r, hr, hra, hrt⟩ := ih hw
    refine ⟨r, mem_overwrite.mpr (.inr ⟨hr, ?_⟩), hra, hrt⟩
    rw [hra, hrt]
    exact hx

theorem mem_overwriteAll_iff {rs' : List R} (hw : ∃ w ∈ ws, addr r = addr w ∧ ts r = ts w) :
    r ∈ overwriteAll addr ts rs ws ↔ r ∈ overwriteAll addr ts rs' ws := by
  induction ws generalizing rs rs' with
  | nil => simp at hw
  | cons w ws ih =>
    by_cases hl : ∃ x ∈ ws, addr r = addr x ∧ ts r = ts x
    · exact ih hl
    -- `w` is the last write at `r`'s place, and it removes what was there before
    have hrw : addr r = addr w ∧ ts r = ts w := by
      obtain ⟨x, hx, he⟩ := hw
      rcases List.mem_cons.mp hx with rfl | hx
      · exact he
      · exact absurd ⟨x, hx, he⟩ hl
    have key : ∀ qs : List R,
        r ∈ overwriteAll addr ts qs (w :: ws) → r = w ∨ r ∈ ws := by
      intro qs hq
      have hq' : r ∈ overwriteAll addr ts (overwrite addr ts qs w) ws := hq
      rcases mem_of_mem_overwriteAll hq' with hm | hm
      · rcases mem_overwrite.mp hm with e | e
        · exact .inl e
        · exact absurd hrw e.2
      · exact .inr hm
    have back : ∀ qs : List R, r = w → r ∈ overwriteAll addr ts qs (w :: ws) := by
      intro qs he
      change r ∈ overwriteAll addr ts (overwrite addr ts qs w) ws
      apply mem_overwriteAll_of_mem
      · exact mem_overwrite.mpr (.inl he)
      · intro x hx hxx
        exact hl ⟨x, hx, hxx⟩
    have none_later : r ∉ ws := fun hr => hl ⟨r, hr, rfl, rfl⟩
    constructor
    · intro h
      exact back rs' ((key rs h).resolve_right none_later)
    · intro h
      exact back rs ((key rs' h).resolve_right none_later)

theorem overwriteAll_mono {rs' : List R} (h : ∀ r ∈ rs, r ∈ rs')
    (hr : r ∈ overwriteAll addr ts rs ws) : r ∈ overwriteAll addr ts rs' ws := by
  by_cases hw : ∃ w ∈ ws, addr r = addr w ∧ ts r = ts w
  · exact (mem_overwriteAll_iff hw).mp hr
  · refine mem_overwriteAll_of_mem (h r ?_) fun w hm hk => hw ⟨w, hm, hk⟩
    exact (mem_of_mem_overwriteAll hr).resolve_right fun hm => hw ⟨r, hm, rfl, rfl⟩

theorem mem_overwriteAll_cases (hr : r ∈ overwriteAll addr ts rs ws) :
    r ∈ rs ∨ r ∈ overwriteAll addr ts [] ws := by
  by_cases hw : ∃ w ∈ ws, addr r = addr w ∧ ts r = ts w
  · exact .inr ((mem_overwriteAll_iff hw).mp hr)
  · exact .inl ((mem_of_mem_overwriteAll hr).resolve_right fun hm => hw ⟨r, hm, rfl, rfl⟩)

/-- A batch replaces no record of `all` if it leaves only records of `all`. -/
theorem Keyed.mem_overwriteAll {all : List R} (hk : Keyed addr ts all)
    (hw : ∀ x ∈ overwriteAll addr ts [] ws, x ∈ all) (hr : r ∈ rs) (hall : r ∈ all) :
    r ∈ overwriteAll addr ts rs ws := by
  by_cases hin : ∃ w ∈ ws, addr r = addr w ∧ ts r = ts w
  · obtain ⟨w, hm, ha, ht⟩ := hin
    have hleft : ∃ x ∈ overwriteAll addr ts [] ws, addr x = addr w ∧ ts x = ts w :=
      exists_mem_overwriteAll hm
    obtain ⟨x, hx, hxa, hxt⟩ := hleft
    have hxr : x = r := hk x (hw x hx) r hall (hxa.trans ha.symm) (hxt.trans ht.symm)
    subst hxr
    exact overwriteAll_mono (by simp) hx
  · exact mem_overwriteAll_of_mem hr fun w hm hk' => hin ⟨w, hm, hk'⟩

theorem Keyed.overwriteAll (ws : List R) (h : Keyed addr ts rs) :
    Keyed addr ts (overwriteAll addr ts rs ws) := by
  induction ws generalizing rs with
  | nil => exact h
  | cons w ws ih =>
    apply @ih (overwrite addr ts rs w)
    intro r hr r' hr' ha ht
    rcases mem_overwrite.mp hr with e | ⟨hm, hn⟩
    · rcases mem_overwrite.mp hr' with e' | ⟨_, hn'⟩
      · rw [e, e']
      · subst e
        exact absurd ⟨ha.symm, ht.symm⟩ hn'
    · rcases mem_overwrite.mp hr' with e' | ⟨hm', _⟩
      · subst e'
        exact absurd ⟨ha, ht⟩ hn
      · exact h r hm r' hm' ha ht

/-- A store that lists no address and timestamp twice still does not after any writes. -/
theorem pairwise_overwriteAll (ws : List R)
    (h : rs.Pairwise fun a b => ¬ (addr a = addr b ∧ ts a = ts b)) :
    (overwriteAll addr ts rs ws).Pairwise fun a b => ¬ (addr a = addr b ∧ ts a = ts b) := by
  induction ws generalizing rs with
  | nil => exact h
  | cons w ws ih =>
    refine ih (List.pairwise_cons.mpr ⟨fun x hx hsame => ?_, h.sublist List.filter_sublist⟩)
    have hx' := (List.mem_filter.mp hx).2
    simp [hsame.1, hsame.2] at hx'

/-- Writes after `t` do not disturb reads at `t`. -/
theorem agreeAt_overwriteAll (h : ∀ w ∈ ws, addr w = a → t < ts w) :
    AgreeAt addr ts rs (overwriteAll addr ts rs ws) a t := by
  intro r ha ht
  constructor
  · intro hr
    apply mem_overwriteAll_of_mem hr
    rintro w hw ⟨hwa, hwt⟩
    have := h w hw (hwa.symm.trans ha)
    omega
  · intro hr
    rcases mem_of_mem_overwriteAll hr with hm | hm
    · exact hm
    · have := h r hm ha
      omega

end Versioned

end Scout.Lib
