import Scout.Lib.Go

/-!
Computations that change a state in place and may return an error on the way.
Unlike in `Go`, the changes made before an error stay.

A computation is atomic if it leaves the state alone whenever it returns an error.
That is so if it only reads up to the last point where it can return one.
-/

namespace Scout.Lib

/-- The state that is returned is what the computation has made of it, also when it
returns an error or panics. -/
structure Mut (ε σ α : Type) where
  run : σ → Go ε α × σ

namespace Mut

variable {ε σ α β : Type}

instance : Monad (Mut ε σ) where
  pure a := ⟨fun s => (.ok a, s)⟩
  bind x k := ⟨fun s =>
    match x.run s with
    | (.ok a, s') => (k a).run s'
    | (.error e, s') => (.error e, s')⟩

def look (g : σ → Go ε α) : Mut ε σ α := ⟨fun s => (g s, s)⟩

def change (g : σ → Go ε σ) : Mut ε σ Unit := ⟨fun s =>
  match g s with
  | .ok s' => (.ok (), s')
  | .error e => (.error e, s)⟩

@[simp] theorem run_pure (a : α) (s : σ) : (pure a : Mut ε σ α).run s = (.ok a, s) := rfl

@[simp] theorem run_look (g : σ → Go ε α) (s : σ) : (look g).run s = (g s, s) := rfl

variable {s : σ} {a : α}

theorem run_look_of_ok {g : σ → Go ε α} (h : g s = .ok a) : (look g).run s = (.ok a, s) := by
  rw [run_look, h]

variable {s' : σ} {g : σ → Go ε σ}

theorem run_change_of_ok (h : g s = .ok s') : (change g).run s = (.ok (), s') := by
  unfold change
  dsimp only
  rw [h]

variable {e : Fault ε}

theorem run_change_of_error (h : g s = .error e) : (change g).run s = (.error e, s) := by
  unfold change
  dsimp only
  rw [h]

theorem run_bind (x : Mut ε σ α) (k : α → Mut ε σ β) (s : σ) : (x >>= k).run s =
    match x.run s with
    | (.ok a, s') => (k a).run s'
    | (.error e, s') => (.error e, s') := rfl

variable {x : Mut ε σ α} {k : α → Mut ε σ β}

theorem run_bind_of_ok (h : x.run s = (.ok a, s')) : (x >>= k).run s = (k a).run s' := by
  rw [run_bind, h]

theorem run_bind_of_error (h : x.run s = (.error e, s')) : (x >>= k).run s = (.error e, s') := by
  rw [run_bind, h]

/-- Take one step of a run. -/
theorem run_bind_eq {r : Go ε β × σ} (h : x.run s = (.ok a, s')) (hk : (k a).run s' = r) :
    (x >>= k).run s = r := by
  rw [run_bind_of_ok h, hk]

theorem run_bind_fst {r : Go ε β} (h : x.run s = (.ok a, s')) (hk : ((k a).run s').1 = r) :
    ((x >>= k).run s).1 = r := by
  rw [run_bind_of_ok h, hk]

theorem run_bind_fst_of_error (h : (x.run s).1 = .error e) : ((x >>= k).run s).1 = .error e := by
  have hx : x.run s = (.error e, (x.run s).2) := Prod.ext h rfl
  rw [run_bind_of_error hx]

/-! ## Errors before the first change -/

def NoError (x : Go ε α) : Prop := ∀ e, x ≠ .error (.err e)

theorem noError_ok (a : α) : NoError (.ok a : Go ε α) := nofun

theorem noError_deref (o : Option α) : NoError (deref o : Go ε α) := by
  intro e h
  cases o <;> cases h

theorem NoError.bind {x : Go ε α} {k : α → Go ε β} (hx : NoError x) (hk : ∀ a, NoError (k a)) :
    NoError (x >>= k) := by
  intro e h
  rcases bind_eq_error.mp h with h | ⟨a, _, h⟩
  · exact hx e h
  · exact hk a e h

/-- An error means that nothing has changed. -/
def Atomic (x : Mut ε σ α) : Prop := ∀ s e, (x.run s).1 = .error (.err e) → (x.run s).2 = s

def ReadOnly (x : Mut ε σ α) : Prop := ∀ s, (x.run s).2 = s

/-- No state makes the computation return an error. -/
def Accepting (x : Mut ε σ α) : Prop := ∀ s, NoError (x.run s).1

theorem readOnly_look (g : σ → Go ε α) : ReadOnly (look g) := fun _ => rfl

theorem accepting_pure (a : α) : Accepting (pure a : Mut ε σ α) := fun _ => noError_ok a

theorem accepting_look {g : σ → Go ε α} (h : ∀ s, NoError (g s)) : Accepting (look g) := h

theorem accepting_change (h : ∀ s, NoError (g s)) : Accepting (change g) := by
  intro s e he
  cases hg : g s with
  | ok s' =>
    rw [run_change_of_ok hg] at he
    cases he
  | error e' =>
    rw [run_change_of_error hg] at he
    cases he
    exact h s e hg

theorem Accepting.atomic (h : Accepting x) : Atomic x :=
  fun s e he => absurd he (h s e)

/-- **Reading first keeps a computation atomic.** -/
theorem ReadOnly.bind_atomic (hx : ReadOnly x) (hk : ∀ a, Atomic (k a)) : Atomic (x >>= k) := by
  intro s e he
  have hs := hx s
  rcases h : x.run s with ⟨e' | a, s'⟩
  · rw [run_bind_of_error h]
    rwa [h] at hs
  · rw [run_bind_of_ok h] at he ⊢
    obtain rfl : s' = s := by rwa [h] at hs
    exact hk a s' e he

theorem Accepting.bind (hx : Accepting x) (hk : ∀ a, Accepting (k a)) : Accepting (x >>= k) := by
  intro s e he
  rcases h : x.run s with ⟨e' | a, s'⟩
  · rw [run_bind_of_error h] at he
    cases he
    exact hx s e (by rw [h])
  · rw [run_bind_of_ok h] at he
    exact hk a s' e he

/-- What comes after an atomic computation may change the state if it returns no
error. -/
theorem Atomic.bind_accepting (hx : Atomic x) (hk : ∀ a, Accepting (k a)) : Atomic (x >>= k) := by
  intro s e he
  rcases h : x.run s with ⟨e' | a, s'⟩
  · rw [run_bind_of_error h] at he ⊢
    cases he
    have hs := hx s e (by rw [h])
    rwa [h] at hs
  · rw [run_bind_of_ok h] at he
    exact absurd he (hk a s' e)

theorem Accepting.forM {γ : Type} {body : γ → Mut ε σ Unit} (h : ∀ x, Accepting (body x))
    (xs : List γ) : Accepting (xs.forM body) := by
  induction xs with
  | nil => exact accepting_pure ()
  | cons x xs ih => exact (h x).bind fun _ => ih

/-! ## The value of a computation -/

/-- The computation returns what the function computes, and on success the state is
the one that the function returns. -/
structure Follows (x : Mut ε σ α) (g : σ → Go ε (σ × α)) : Prop where
  ok : ∀ {s s' a}, g s = .ok (s', a) → x.run s = (.ok a, s')
  error : ∀ {s e}, g s = .error e → (x.run s).1 = .error e

/-- What the run from a state is, if the function computes this there. -/
def Gives (x : Mut ε σ α) (s : σ) : Go ε (σ × α) → Prop
  | .ok (s', a) => x.run s = (.ok a, s')
  | .error e => (x.run s).1 = .error e

/-- Take one step of a run, whatever comes of the rest. -/
theorem gives_bind_of_ok {o : Go ε (σ × β)} (h : x.run s = (.ok a, s'))
    (hk : (k a).Gives s' o) : (x >>= k).Gives s o := by
  cases o with
  | ok r => exact run_bind_eq h hk
  | error e => exact run_bind_fst h hk

theorem Gives.bind {o : Go ε (σ × α)} {g : σ × α → Go ε (σ × β)} (hx : x.Gives s o)
    (hk : ∀ s' a, o = .ok (s', a) → (k a).Gives s' (g (s', a))) : (x >>= k).Gives s (o >>= g) := by
  cases o with
  | ok r => exact gives_bind_of_ok hx (hk r.1 r.2 rfl)
  | error e => exact run_bind_fst_of_error hx

theorem gives_look_bind {g : σ → Go ε α} {h : α → Go ε (σ × β)}
    (hk : ∀ a, g s = .ok a → (k a).Gives s (h a)) : (look g >>= k).Gives s (g s >>= h) := by
  cases hg : g s with
  | ok a => exact gives_bind_of_ok (run_look_of_ok hg) (hk a hg)
  | error e => exact run_bind_fst_of_error hg

section Values

variable {g : σ → Go ε (σ × α)}

theorem Follows.of_gives (h : ∀ s, x.Gives s (g s)) : Follows x g where
  ok {s _ _} hg := by
    have hs := h s
    rwa [hg] at hs
  error {s _} hg := by
    have hs := h s
    rwa [hg] at hs

theorem Follows.gives (h : Follows x g) (s : σ) : x.Gives s (g s) := by
  cases hg : g s with
  | ok r => exact h.ok hg
  | error e => exact h.error hg

/-- On an error, an atomic computation returns the state it was given. -/
theorem Follows.rejected (h : Follows x g) (ha : Atomic x) {e : ε}
    (hg : g s = .error (.err e)) : x.run s = (.error (.err e), s) :=
  Prod.ext (h.error hg) (ha s e (h.error hg))

end Values

end Mut

end Scout.Lib
