import Mathlib.Tactic.Common

/-!
Runs of a transition system given by a partial step function, and the invariant
rule for runs whose steps all meet a condition on the state they start from.
-/

namespace Scout.Lib

variable {σ α : Type} (step : σ → α → Option σ)

/-- Take the steps in order; `none` if one of them is not enabled. -/
def runSteps : σ → List α → Option σ
  | s, [] => some s
  | s, a :: as => (step s a).bind fun s' => runSteps s' as

variable {s s' : σ} {as : List α}

theorem runSteps_append {s'' : σ} {bs : List α} (ha : runSteps step s as = some s')
    (hb : runSteps step s' bs = some s'') : runSteps step s (as ++ bs) = some s'' := by
  induction as generalizing s with
  | nil =>
    cases ha
    exact hb
  | cons a as ih =>
    obtain ⟨s₁, h₁, h₂⟩ := Option.bind_eq_some_iff.mp ha
    rw [List.cons_append, runSteps, h₁]
    exact ih h₂

/-- Every step of the run meets the condition where it is taken. -/
def StepsMeet (ok : σ → α → Prop) : σ → List α → Prop
  | _, [] => True
  | s, a :: as => ok s a ∧
    match step s a with
    | some s' => StepsMeet ok s' as
    | none => True

instance StepsMeet.decidable (ok : σ → α → Prop) [∀ s a, Decidable (ok s a)] :
    ∀ (s : σ) (as : List α), Decidable (StepsMeet step ok s as)
  | _, [] => isTrue trivial
  | s, a :: as =>
    have : Decidable (match step s a with
        | some s' => StepsMeet step ok s' as
        | none => True) :=
      match step s a with
      | some s' => StepsMeet.decidable ok s' as
      | none => isTrue trivial
    inferInstanceAs (Decidable (ok s a ∧ _))

variable {ok : σ → α → Prop}

theorem stepsMeet_append {bs : List α} (h : runSteps step s as = some s') :
    StepsMeet step ok s (as ++ bs) ↔ StepsMeet step ok s as ∧ StepsMeet step ok s' bs := by
  induction as generalizing s with
  | nil =>
    cases h
    exact (and_iff_right trivial).symm
  | cons a as ih =>
    obtain ⟨s₁, h₁, h₂⟩ := Option.bind_eq_some_iff.mp h
    rw [List.cons_append, StepsMeet, StepsMeet, h₁, and_assoc]
    exact and_congr_right fun _ => ih h₂

/-- **Invariant rule.** What every step that meets the condition preserves holds
at the end of every run of such steps. -/
theorem runSteps_invariant (I : σ → Prop)
    (hstep : ∀ s a s', I s → ok s a → step s a = some s' → I s') (h₀ : I s)
    (hok : StepsMeet step ok s as) (hrun : runSteps step s as = some s') : I s' := by
  induction as generalizing s with
  | nil =>
    cases hrun
    exact h₀
  | cons a as ih =>
    obtain ⟨s₁, h₁, h₂⟩ := Option.bind_eq_some_iff.mp hrun
    obtain ⟨ha, hrest⟩ := hok
    rw [h₁] at hrest
    exact ih (hstep s a s₁ h₀ ha h₁) hrest h₂

theorem stepsMeet_of_mem (h : ∀ a ∈ as, ∀ s, ok s a) (s : σ) : StepsMeet step ok s as := by
  induction as generalizing s with
  | nil => trivial
  | cons a as ih =>
    refine ⟨h a (by simp) s, ?_⟩
    cases step s a with
    | none => trivial
    | some s' => exact ih (fun b hb => h b (by simp [hb])) s'

theorem stepsMeet_true (s : σ) (as : List α) : StepsMeet step (fun _ _ => True) s as :=
  stepsMeet_of_mem step (fun _ _ _ => trivial) s

/-- The invariant rule without a condition on the steps. -/
theorem runSteps_preserves (I : σ → Prop) (hstep : ∀ s a s', I s → step s a = some s' → I s')
    (h₀ : I s) (hrun : runSteps step s as = some s') : I s' :=
  runSteps_invariant step I (fun s a s' hi _ hs => hstep s a s' hi hs) h₀
    (stepsMeet_true step s as) hrun

theorem append_eq_split {γ : Type} {xs ys l r : List γ} {y : γ} (h : xs ++ ys = l ++ y :: r) :
    (∃ r', xs = l ++ y :: r') ∨ ∃ l', l = xs ++ l' ∧ ys = l' ++ y :: r := by
  rcases List.append_eq_append_iff.mp h with ⟨l', hl, hys⟩ | ⟨r', hxs, hr⟩
  · exact .inr ⟨l', hl, hys⟩
  cases r' with
  | nil => exact .inr ⟨[], by simpa using hxs.symm, hr.symm⟩
  | cons z r' =>
    cases hr
    exact .inl ⟨r', hxs⟩

/-! ## Maximal runs -/

def Stuck (s : σ) : Prop := ∀ a, step s a = none

section Measure

variable {step} {μ : σ → Nat} (hμ : ∀ s a s', step s a = some s' → μ s' < μ s)

include hμ

theorem runSteps_length_le {s s' : σ} {as : List α} (h : runSteps step s as = some s') :
    as.length + μ s' ≤ μ s := by
  induction as generalizing s with
  | nil =>
    cases h
    simp
  | cons a as ih =>
    obtain ⟨s₁, h₁, h₂⟩ := Option.bind_eq_some_iff.mp h
    have hlt := hμ s a s₁ h₁
    have hle := ih h₂
    rw [List.length_cons]
    omega

/-- Under such a measure every run can be continued until nothing is enabled. -/
theorem exists_maximal_run (s : σ) : ∃ as s', runSteps step s as = some s' ∧ Stuck step s' := by
  induction hn : μ s using Nat.strongRecOn generalizing s with
  | ind n ih =>
    by_cases hs : Stuck step s
    · exact ⟨[], s, rfl, hs⟩
    obtain ⟨a, ha⟩ := not_forall.mp hs
    obtain ⟨s₁, h₁⟩ := Option.ne_none_iff_exists'.mp ha
    obtain ⟨as, s', hrun, hstuck⟩ := ih (μ s₁) (hn ▸ hμ s a s₁ h₁) s₁ rfl
    exact ⟨a :: as, s', by rw [runSteps, h₁]; exact hrun, hstuck⟩

end Measure

section History

variable {β : Type} (observe : σ → α → List β)

/-- What can be observed along a run, in order. -/
def runHistory : σ → List α → List β
  | _, [] => []
  | s, a :: as => observe s a ++
    match step s a with
    | some s' => runHistory s' as
    | none => []

variable {s s' : σ} {as : List α}

theorem runHistory_append {bs : List α} (h : runSteps step s as = some s') :
    runHistory step observe s (as ++ bs) =
      runHistory step observe s as ++ runHistory step observe s' bs := by
  induction as generalizing s with
  | nil =>
    cases h
    rfl
  | cons a as ih =>
    obtain ⟨s₁, h₁, h₂⟩ := Option.bind_eq_some_iff.mp h
    rw [List.cons_append, runHistory, runHistory, h₁]
    dsimp only
    rw [ih h₂, List.append_assoc]

/-- **Invariant rule with history.** The invariant may mention what has been
observed so far. -/
theorem runSteps_history (I : σ → List β → Prop)
    (hstep : ∀ s a s' h, I s h → step s a = some s' → I s' (h ++ observe s a)) {h : List β}
    (h₀ : I s h) (hrun : runSteps step s as = some s') :
    I s' (h ++ runHistory step observe s as) := by
  induction as generalizing s h with
  | nil =>
    cases hrun
    simpa [runHistory] using h₀
  | cons a as ih =>
    obtain ⟨s₁, h₁, h₂⟩ := Option.bind_eq_some_iff.mp hrun
    have hi := ih (hstep s a s₁ h h₀ h₁) h₂
    simpa [runHistory, h₁] using hi

end History

end Scout.Lib
