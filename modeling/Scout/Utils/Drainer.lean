import Mathlib.Algebra.Order.BigOperators.Group.List
import Mathlib.Algebra.Order.Ring.Int
import Scout.Lib.Runs

/-!
The drainer (`drainer.go` in `utils`). `WithDrain` looks at the channel and then counts the
context that it hands out; `Stop` closes the channel and waits until the counter is zero.
Both work on the channel and the counter without a lock.

`drain_barrier` says when `Stop` is a barrier. A call that has looked at the channel
before it was closed, and has not counted its context when `Stop` reads the counter, is not
seen by `Stop`.
-/

namespace Scout.Drainer

open Lib

/-! ## The source -/

/-- Where a call of `WithDrain` is, and then the context it has returned. -/
inductive Phase where
  | entered
  /-- The channel was open; the counter is next. -/
  | passed
  /-- The context is handed out and counted. -/
  | counted
  /-- Its cancel function is between `cancel` and the counter. -/
  | cancelled
  | released
  /-- The channel was closed; the context is handed out cancelled and is not counted. -/
  | drained
  deriving DecidableEq, Repr

structure Call where
  phase : Phase
  /-- The context is done. -/
  done : Bool
  /-- The goroutine that waits for the channel or for the context. -/
  watched : Bool
  deriving DecidableEq, Repr

/-- The steps of a call, its goroutine and its caller. -/
inductive Action where
  | check
  | increment
  /-- The context of the caller is cancelled. -/
  | expire
  /-- One of the cases of the goroutine. -/
  | watch
  | cancel
  | decrement
  deriving DecidableEq, Repr

/-- The call after a step, and what it adds to the counter. -/
def Call.next (closed : Bool) (c : Call) : Action → Option (Call × Int)
  | .check =>
    if c.phase = .entered then
      if closed then some ({ c with phase := .drained, done := true }, 0)
      else some ({ c with phase := .passed }, 0)
    else none
  | .increment =>
    if c.phase = .passed then some ({ c with phase := .counted, watched := true }, 1) else none
  | .expire => some ({ c with done := true }, 0)
  | .watch =>
    if c.watched then
      if closed then some ({ c with done := true, watched := false }, 0)
      else if c.done then some ({ c with watched := false }, 0)
      else none
    else none
  | .cancel =>
    if c.phase = .counted then some ({ c with phase := .cancelled, done := true }, 0)
    -- the cancel function of a drained call is the plain one
    else if c.phase = .drained then some ({ c with phase := .released, done := true }, 0)
    else none
  | .decrement =>
    if c.phase = .cancelled then some ({ c with phase := .released }, -1) else none

inductive Stop where
  | notCalled
  | reading
  | returned
  deriving DecidableEq, Repr

structure State where
  closed : Bool
  inFlight : Int
  stop : Stop
  calls : List Call
  deriving DecidableEq, Repr

def newDrainer : State := ⟨false, 0, .notCalled, []⟩

inductive Step where
  | enter
  | call (i : Nat) (a : Action)
  | close
  | read
  deriving DecidableEq, Repr

def step (s : State) : Step → Option State
  | .enter => some { s with calls := s.calls ++ [⟨.entered, false, false⟩] }
  | .call i a => do
    let c ← s.calls[i]?
    let (c', n) ← c.next s.closed a
    return { s with calls := s.calls.set i c', inFlight := s.inFlight + n }
  | .close =>
    if s.stop = .notCalled then some { s with closed := true, stop := .reading } else none
  | .read =>
    if s.stop = .reading then
      -- another value than zero is an error, and the function is called again
      some { s with stop := if s.inFlight = 0 then .returned else .reading }
    else none

/-! ## The moves of a call -/

/-- What a call can do, and what each move adds to the counter. -/
inductive Moves (closed : Bool) : Phase → Phase → Int → Prop
  | stay (p : Phase) : Moves closed p p 0
  | drain (h : closed = true) : Moves closed .entered .drained 0
  | pass (h : closed ≠ true) : Moves closed .entered .passed 0
  | count : Moves closed .passed .counted 1
  | cancel : Moves closed .counted .cancelled 0
  | leave : Moves closed .drained .released 0
  | release : Moves closed .cancelled .released (-1)

variable {n : Int}

theorem Call.next_moves {closed : Bool} {c c' : Call} {a : Action}
    (h : c.next closed a = some (c', n)) : Moves closed c.phase c'.phase n := by
  cases a with
  | check =>
    obtain ⟨hp, h⟩ := Option.ite_none_right_eq_some.mp h
    rw [hp]
    split at h <;> cases h
    · exact .drain ‹_›
    · exact .pass ‹_›
  | increment =>
    obtain ⟨hp, h⟩ := Option.ite_none_right_eq_some.mp h
    cases h
    exact hp ▸ .count
  | expire =>
    cases h
    exact .stay _
  | watch =>
    obtain ⟨-, h⟩ := Option.ite_none_right_eq_some.mp h
    split at h
    · cases h
      exact .stay _
    · obtain ⟨-, h⟩ := Option.ite_none_right_eq_some.mp h
      cases h
      exact .stay _
  | cancel =>
    simp only [Call.next] at h
    split at h
    · next hp =>
      cases h
      exact hp ▸ .cancel
    · obtain ⟨hp, h⟩ := Option.ite_none_right_eq_some.mp h
      cases h
      exact hp ▸ .leave
  | decrement =>
    obtain ⟨hp, h⟩ := Option.ite_none_right_eq_some.mp h
    cases h
    exact hp ▸ .release

/-- What a call has in the counter. -/
def Phase.weight : Phase → Int
  | .counted | .cancelled => 1
  | .entered | .passed | .released | .drained => 0

theorem Phase.weight_nonneg (p : Phase) : 0 ≤ p.weight := by
  cases p <;> decide

variable {p : Phase}

theorem Moves.weight {closed : Bool} {p' : Phase} (h : Moves closed p p' n) :
    p'.weight = p.weight + n := by
  cases h with
  | stay => exact (Int.add_zero _).symm
  | _ => rfl

/-- A call that is not counted, and is not going to be when the channel is closed. -/
def Phase.Out (p : Phase) : Prop := p = .entered ∨ p = .released ∨ p = .drained

theorem Moves.out {p' : Phase} (h : Moves true p p' n) (hp : p.Out) : p'.Out := by
  unfold Phase.Out at *
  cases h <;> simp_all

theorem Phase.out_of_weight (hw : p.weight = 0) (hp : p ≠ .passed) : p.Out := by
  unfold Phase.Out
  cases p <;> simp_all [Phase.weight]

theorem Phase.Out.ne_counted (h : p.Out) : p ≠ .counted := by
  rintro rfl
  simp [Phase.Out] at h

/-! ## The counter -/

def Call.weight (c : Call) : Int := c.phase.weight

theorem sum_weight_set {calls : List Call} {i : Nat} {c c' : Call} (hc : calls[i]? = some c)
    (hn : c'.weight = c.weight + n) :
    ((calls.set i c').map Call.weight).sum = (calls.map Call.weight).sum + n := by
  induction calls generalizing i with
  | nil => cases hc
  | cons d calls ih =>
    cases i with
    | zero =>
      cases hc
      simp only [List.set_cons_zero, List.map_cons, List.sum_cons]
      omega
    | succ i =>
      have ih := ih hc
      simp only [List.set_cons_succ, List.map_cons, List.sum_cons]
      omega

/-- What holds of every drainer: the counter is the number of the counted contexts, and
the channel is closed from the call of `Stop` on. -/
structure Inv (s : State) : Prop where
  counter : s.inFlight = (s.calls.map Call.weight).sum
  closed : s.closed = true ↔ s.stop ≠ .notCalled

theorem inv_new : Inv newDrainer := by
  constructor <;> simp [newDrainer]

variable {s s' : State}

theorem step_call {i : Nat} {a : Action} (h : step s (.call i a) = some s') :
    ∃ c c' n, s.calls[i]? = some c ∧ c.next s.closed a = some (c', n) ∧
      s' = { s with calls := s.calls.set i c', inFlight := s.inFlight + n } := by
  obtain ⟨c, hc, h⟩ := Option.bind_eq_some_iff.mp h
  obtain ⟨⟨c', n⟩, hn, h⟩ := Option.bind_eq_some_iff.mp h
  exact ⟨c, c', n, hc, hn, (Option.some.inj h).symm⟩

variable {x : Step}

theorem Inv.step (hi : Inv s) (h : step s x = some s') : Inv s' := by
  obtain ⟨counter, closed⟩ := hi
  cases x with
  | enter =>
    cases h
    refine ⟨?_, closed⟩
    simpa [Call.weight, Phase.weight] using counter
  | call i a =>
    obtain ⟨c, c', n, hc, hn, rfl⟩ := step_call h
    refine ⟨?_, closed⟩
    rw [sum_weight_set hc (Call.next_moves hn).weight, ← counter]
  | close =>
    obtain ⟨-, h⟩ := Option.ite_none_right_eq_some.mp h
    cases h
    exact ⟨counter, by simp⟩
  | read =>
    obtain ⟨hs, h⟩ := Option.ite_none_right_eq_some.mp h
    cases h
    refine ⟨counter, ?_⟩
    rw [closed, hs]
    split <;> simp

theorem inv_run {steps : List Step} (h : runSteps step newDrainer steps = some s) : Inv s :=
  runSteps_preserves step Inv (fun _ _ _ hi hs => hi.step hs) inv_new h

theorem Inv.inFlight_nonneg (hi : Inv s) : 0 ≤ s.inFlight := by
  rw [hi.counter]
  apply List.sum_nonneg
  intro w hw
  obtain ⟨c, -, rfl⟩ := List.mem_map.mp hw
  exact c.phase.weight_nonneg

theorem Inv.weight_eq_zero (hi : Inv s) (h0 : s.inFlight = 0) (hc : c ∈ s.calls) :
    c.weight = 0 := by
  have hle : c.weight ≤ (s.calls.map Call.weight).sum := by
    apply List.single_le_sum
    · intro w hw
      obtain ⟨d, -, rfl⟩ := List.mem_map.mp hw
      exact d.phase.weight_nonneg
    · exact List.mem_map_of_mem hc
  have hpos : 0 ≤ c.weight := c.phase.weight_nonneg
  rw [← hi.counter, h0] at hle
  omega

/-! ## The barrier -/

/-- When `Stop` reads zero, no call stands between the channel and the counter. -/
def NoGap (s : State) (x : Step) : Prop :=
  x = .read → s.inFlight = 0 → ∀ c ∈ s.calls, c.phase ≠ .passed
  deriving Decidable

/-- After `Stop` no call is counted or going to be. -/
structure Drained (s : State) : Prop where
  inv : Inv s
  out : s.stop = .returned → ∀ c ∈ s.calls, c.phase.Out

theorem Drained.step (hd : Drained s) (hgap : NoGap s x) (h : step s x = some s') : Drained s' := by
  refine ⟨hd.inv.step h, ?_⟩
  cases x with
  | enter =>
    cases h
    intro hs c hc
    rcases List.mem_append.mp hc with hc | hc
    · exact hd.out hs c hc
    · cases List.mem_singleton.mp hc
      exact .inl rfl
  | call i a =>
    obtain ⟨c, c', n, hc, hn, rfl⟩ := step_call h
    intro hs d hd'
    rcases List.mem_or_eq_of_mem_set hd' with hd' | rfl
    · exact hd.out hs d hd'
    have hclosed : s.closed = true := by
      rw [hd.inv.closed, hs]
      simp
    rw [hclosed] at hn
    exact (Call.next_moves hn).out (hd.out hs c (List.mem_of_getElem? hc))
  | close =>
    obtain ⟨-, h⟩ := Option.ite_none_right_eq_some.mp h
    cases h
    intro hs
    cases hs
  | read =>
    obtain ⟨-, h⟩ := Option.ite_none_right_eq_some.mp h
    cases h
    intro hs c hc
    -- `Stop` returns from a read of zero only
    have h0 : s.inFlight = 0 := by
      by_contra hne
      simp [hne] at hs
    exact Phase.out_of_weight (hd.inv.weight_eq_zero h0 hc) (hgap rfl h0 c hc)

theorem drained_run {steps : List Step} (hgap : StepsMeet step NoGap newDrainer steps)
    (h : runSteps step newDrainer steps = some s) : Drained s := by
  refine runSteps_invariant step Drained (fun _ _ _ hd hx hs => hd.step hx hs) ?_ hgap h
  exact ⟨inv_new, fun hs => by cases hs⟩

/-- A call in the gap counts its context after `Stop` has returned. -/
theorem gap_escapes (hs : s.stop = .reading) (h0 : s.inFlight = 0) (hc : c ∈ s.calls)
    (hp : c.phase = .passed) :
    ∃ later s', runSteps step s (.read :: later) = some s' ∧ s'.stop = .returned ∧
      ∃ d ∈ s'.calls, d.phase = .counted := by
  obtain ⟨i, hi⟩ := List.mem_iff_getElem?.mp hc
  have hlt : i < s.calls.length := (List.getElem?_eq_some_iff.mp hi).1
  let d : Call := { c with phase := .counted, watched := true }
  refine ⟨[.call i .increment],
    { s with stop := .returned, calls := s.calls.set i d, inFlight := s.inFlight + 1 },
    ?_, rfl, d, List.mem_set hlt d, rfl⟩
  simp [runSteps, step, hs, h0, hi, Call.next, hp, d]

/-- **The drainer as a barrier.** The counter is never negative. After `Stop` has returned no
counted context is out, now or later, if no call stands in the gap when `Stop` reads
zero; and any call that stands there can take a context past `Stop`. -/
theorem drain_barrier {steps : List Step} {s : State}
    (h : runSteps step newDrainer steps = some s) : 0 ≤ s.inFlight ∧
    (StepsMeet step NoGap newDrainer steps →
      s.stop = .returned → ∀ c ∈ s.calls, c.phase ≠ .counted) ∧
    (s.stop = .reading → ¬NoGap s .read →
      ∃ later s', runSteps step s (.read :: later) = some s' ∧ s'.stop = .returned ∧
        ∃ c ∈ s'.calls, c.phase = .counted) := by
  refine ⟨(inv_run h).inFlight_nonneg, ?_, ?_⟩
  · intro hgap hs c hc
    exact ((drained_run hgap h).out hs c hc).ne_counted
  · intro hs hgap
    simp only [NoGap, forall_const, ne_eq, not_forall, not_not] at hgap
    obtain ⟨h0, c, hc, hp⟩ := hgap
    exact gap_escapes hs h0 hc hp

/-- A call that is served and cancelled by `Stop`, and one that comes too late. -/
theorem drain_barrier_served :
    ∃ s, runSteps step newDrainer [.enter, .call 0 .check, .call 0 .increment, .close, .read,
        .call 0 .watch, .enter, .call 0 .cancel, .call 0 .decrement, .read, .call 1 .check] =
          some s ∧ s.stop = .returned ∧ 0 ≤ s.inFlight ∧ ∀ c ∈ s.calls, c.phase ≠ .counted :=
  have h : runSteps step newDrainer [.enter, .call 0 .check, .call 0 .increment, .close, .read,
        .call 0 .watch, .enter, .call 0 .cancel, .call 0 .decrement, .read, .call 1 .check] =
      some ⟨true, 0, .returned, [⟨.released, true, false⟩, ⟨.drained, true, false⟩]⟩ := by
    decide
  ⟨_, h, rfl, (drain_barrier h).1, (drain_barrier h).2.1 (by decide) rfl⟩

/-- `WithDrain` looks at the channel, `Stop` closes it, reads zero and returns, and then the
context is counted and handed out. -/
theorem withDrain_after_stop :
    runSteps step newDrainer [.enter, .call 0 .check, .close, .read, .call 0 .increment] =
      some ⟨true, 1, .returned, [⟨.counted, false, true⟩]⟩ := by
  decide

end Scout.Drainer
