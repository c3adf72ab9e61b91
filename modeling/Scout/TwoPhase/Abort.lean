import Scout.Data.Txn
import Scout.Lib.Runs

/-!
`processor2PC.abort` (`processor_2pc.go`): the coordinator tells the participants to
abort, one goroutine for each of them, and collects their results over a channel that
holds one of them. The principal comes last, on the routine that also receives. The
module says for which answers of the participants this comes to an end.
-/

namespace Scout.TwoPhase

open Data Lib

/-! ## The routines -/

/-- An error that reaches the channel: that of the call, or the text
`participant %d failed with state %s.` -/
inductive Failure where
  | call (pid : Nat) (err : Err)
  | state (pid : Nat) (state : State)
  deriving DecidableEq

/-- The channel carries errors, nil among them. -/
abbrev Result := Option Failure

/-- What the call of `abort` depends on. -/
structure Abort where
  principalPid : Nat
  /-- The keys of `participantActions`, in the order of the loop. -/
  participantPids : List Nat
  /-- The states of the prior status map. -/
  status : Nat → Option State
  /-- What `client.Abort` returns. -/
  reply : Nat → Except Err State

namespace Abort

variable (a : Abort)

/-- The results that `invokeAbort` sends. The error of a call is followed by nil. -/
def sends (pid : Nat) : List Result :=
  match a.reply pid with
  | .error err => (if err ≠ .notFound then [some (.call pid err)] else []) ++ [none]
  | .ok state => if !state.isFinal then [some (.state pid state)] else [none]

/-- The participants for which a goroutine is started. -/
def called : List Nat :=
  a.participantPids.filter fun pid =>
    pid != a.principalPid && !(((a.status pid).map State.isFinal).getD false)

inductive Main where
  /-- The loop over `inFlight`. -/
  | receiving (inFlight : Nat)
  /-- `invokeAbort` of the principal, with the sends that remain. -/
  | aborting (rest : List Result)
  | awaiting
  | returned
  deriving DecidableEq

/-- A goroutine is given by the sends that remain. -/
structure Config where
  main : Main
  workers : List (List Result)
  channel : List Result := []
  errs : List Failure := []

inductive Event where
  | worker (i : Nat)
  | main

def start : Config where
  main := .receiving a.called.length
  workers := a.called.map a.sends

/-- A send needs an empty channel, a receive a full one. -/
def step (c : Config) : Event → Option Config
  | .worker i =>
    match c.workers[i]?, c.channel with
    | some (r :: rest), [] => some { c with workers := c.workers.set i rest, channel := [r] }
    | _, _ => none
  | .main =>
    match c.main, c.channel with
    | .receiving 0, _ =>
      -- on error the principal is left to its watchdog
      if c.errs = [] then some { c with main := .aborting (a.sends a.principalPid) }
      else some { c with main := .returned }
    | .receiving (n + 1), r :: rs =>
      some { c with main := .receiving n, channel := rs, errs := c.errs ++ r.toList }
    | .aborting (r :: rest), [] => some { c with main := .aborting rest, channel := [r] }
    | .aborting [], _ => some { c with main := .awaiting }
    | .awaiting, r :: rs =>
      some { c with main := .returned, channel := rs, errs := c.errs ++ r.toList }
    | _, _ => none

/-- `abort` has returned and every goroutine has ended. -/
def Config.Completed (c : Config) : Prop := c.main = .returned ∧ ∀ w ∈ c.workers, w = []

def callFails (pid : Nat) : Bool :=
  match a.reply pid with
  | .error err => err != .notFound
  | .ok _ => false

/-- The participant answers with a state that is not final. -/
def notFinal (pid : Nat) : Bool :=
  match a.reply pid with
  | .error _ => false
  | .ok state => !state.isFinal

/-! ## Counting results -/

def isCall : Result → Bool
  | some (.call _ _) => true
  | _ => false

def total (f : List Result → Nat) (ws : List (List Result)) : Nat := (ws.map f).sum

variable {ws : List (List Result)}

theorem total_set (f : List Result → Nat) (w' : List Result) {i : Nat} {w : List Result}
    (h : ws[i]? = some w) : total f (ws.set i w') + f w = total f ws + f w' := by
  obtain ⟨hi, rfl⟩ := List.getElem?_eq_some_iff.mp h
  obtain ⟨l₁, l₂, hws, _, hset⟩ : ∃ l₁ l₂, ws = l₁ ++ ws[i] :: l₂ ∧ l₁.length = i ∧
      ws.set i w' = l₁ ++ w' :: l₂ := List.exists_of_set hi
  have hsum : total f ws = total f (l₁ ++ ws[i] :: l₂) := congrArg (total f) hws
  rw [hset, hsum]
  simp only [total, List.map_append, List.map_cons, List.sum_append, List.sum_cons]
  omega

@[simp] theorem total_nil (f : List Result → Nat) : total f [] = 0 := rfl

@[simp] theorem total_cons (f : List Result → Nat) (w : List Result) (ws : List (List Result)) :
    total f (w :: ws) = f w + total f ws := rfl

theorem total_length_eq_zero : total List.length ws = 0 ↔ ∀ w ∈ ws, w = [] := by
  induction ws with
  | nil => simp
  | cons w ws ih => rw [total_cons, Nat.add_eq_zero_iff, ih, List.forall_mem_cons,
      List.length_eq_zero_iff]

theorem exists_sender (h : total List.length ws ≠ 0) :
    ∃ (i : Nat) (r : Result) (rest : List Result), ws[i]? = some (r :: rest) := by
  rw [ne_eq, total_length_eq_zero, not_forall] at h
  obtain ⟨w, hw⟩ := h
  obtain ⟨hmem, hne⟩ := Classical.not_imp.mp hw
  obtain ⟨i, hi⟩ := List.mem_iff_getElem?.mp hmem
  obtain ⟨r, rest, rfl⟩ := List.exists_cons_of_ne_nil hne
  exact ⟨i, r, rest, hi⟩

def calls (w : List Result) : Nat := w.countP isCall

def errors (w : List Result) : Nat := w.countP Option.isSome

@[simp] theorem isCall_none : isCall none = false := rfl

@[simp] theorem calls_nil : calls [] = 0 := rfl

@[simp] theorem errors_nil : errors [] = 0 := rfl

@[simp] theorem calls_cons (r : Result) (w : List Result) :
    calls (r :: w) = calls w + if isCall r then 1 else 0 := List.countP_cons

@[simp] theorem errors_cons (r : Result) (w : List Result) :
    errors (r :: w) = errors w + if r.isSome then 1 else 0 := List.countP_cons

/-- What can remain of the sends of one goroutine. -/
inductive Shape : List Result → Prop
  | done : Shape []
  | last (r : Result) (h : isCall r = false) : Shape [r]
  | failed (r : Result) (h : isCall r = true) : Shape [r, none]

theorem Shape.calls_le {w : List Result} (h : Shape w) : 2 * calls w ≤ w.length := by
  cases h with
  | done => simp
  | last r h => simp [h]
  | failed r h => simp [h]

theorem errors_le (ws : List (List Result)) : total errors ws ≤ total List.length ws := by
  induction ws with
  | nil => simp
  | cons w ws ih =>
    have hw : errors w ≤ w.length := List.countP_le_length
    rw [total_cons, total_cons]
    omega

theorem calls_le (h : ∀ w ∈ ws, Shape w) : 2 * total calls ws ≤ total List.length ws := by
  induction ws with
  | nil => simp
  | cons w ws ih =>
    obtain ⟨hw, hws⟩ := List.forall_mem_cons.mp h
    have h1 := hw.calls_le
    have h2 := ih hws
    rw [total_cons, total_cons]
    omega

variable {r : Result}

theorem Shape.rest {rest : List Result} (h : Shape (r :: rest)) :
    Shape rest ∧ rest.length = (if isCall r then 1 else 0) := by
  cases h with
  | last r h => exact ⟨.done, by simp [h]⟩
  | failed r h => exact ⟨.last none rfl, by simp [h]⟩

def fails (pid : Nat) : Bool := a.callFails pid || a.notFinal pid

/-- The results of one call: their shape, how many they are, and how many are errors. -/
theorem sends_spec (pid : Nat) : Shape (a.sends pid) ∧
    (a.sends pid).length = 1 + (if a.callFails pid then 1 else 0) ∧
    calls (a.sends pid) = (if a.callFails pid then 1 else 0) ∧
    errors (a.sends pid) = (if a.fails pid then 1 else 0) := by
  unfold sends fails callFails notFinal
  cases a.reply pid with
  | error err =>
    by_cases h : err = .notFound
    · simpa [h] using Shape.last none rfl
    · simpa [h, isCall] using Shape.failed (some (.call pid err)) rfl
  | ok state =>
    cases h : state.isFinal with
    | true => simpa [h] using Shape.last none rfl
    | false => simpa [h, isCall] using Shape.last (some (.state pid state)) rfl

/-- The numbers of called participants whose call fails, and of those that fail in any way. -/
def callFailures : Nat := a.called.countP a.callFails

def failures : Nat := a.called.countP a.fails

theorem failures_eq_zero : a.failures = 0 ↔
    a.callFailures = 0 ∧ ∀ pid ∈ a.called, a.notFinal pid = false := by
  simp only [failures, callFailures, List.countP_eq_zero, fails, Bool.or_eq_true, not_or,
    Bool.not_eq_true]
  constructor
  · exact fun h => ⟨fun pid hp => (h pid hp).1, fun pid hp => (h pid hp).2⟩
  · exact fun h pid hp => ⟨h.1 pid hp, h.2 pid hp⟩

theorem total_sends (pids : List Nat) :
    total List.length (pids.map a.sends) = pids.length + pids.countP a.callFails ∧
    total calls (pids.map a.sends) = pids.countP a.callFails ∧
    total errors (pids.map a.sends) = pids.countP a.fails := by
  induction pids with
  | nil => simp
  | cons pid pids ih =>
    obtain ⟨_, h1, h2, h3⟩ := a.sends_spec pid
    obtain ⟨ih1, ih2, ih3⟩ := ih
    simp only [List.map_cons, total_cons, List.countP_cons, List.length_cons]
    omega

/-! ## The invariant -/

/-- While results are collected: every result is still to be sent, in the channel or
received, and the nil after the error of a call stays behind it. -/
structure Collecting (c : Config) (inFlight : Nat) : Prop where
  count : c.channel.length + total List.length c.workers = inFlight + a.callFailures
  errs : c.errs.length + errors c.channel + total errors c.workers = a.failures
  callErrs : calls (c.errs.map some) + calls c.channel + total calls c.workers = a.callFailures
  behind : 2 * total calls c.workers + calls c.channel ≤ total List.length c.workers

/-- How many results are left, by the place that `abort` has come to. -/
def Progress (c : Config) : Main → Prop
  | .receiving n => a.Collecting c n
  | .aborting rest => a.failures = 0 ∧ total List.length c.workers = 0 ∧
      c.channel ++ rest = a.sends a.principalPid
  | .awaiting => a.failures = 0 ∧ total List.length c.workers = 0 ∧
      c.channel = a.sends a.principalPid
  | .returned =>
      (a.failures ≠ 0 ∧ c.channel.length + total List.length c.workers = a.callFailures) ∨
      (a.failures = 0 ∧ total List.length c.workers = 0 ∧ c.channel = [] ∧
        a.callFails a.principalPid = false)

structure Inv (c : Config) : Prop where
  shape : ∀ w ∈ c.workers, Shape w
  capacity : c.channel.length ≤ 1
  progress : a.Progress c c.main

theorem start_inv : a.Inv a.start := by
  obtain ⟨hlen, hcalls, herrs⟩ := a.total_sends a.called
  have hshape : ∀ w ∈ a.called.map a.sends, Shape w := by
    intro w hw
    obtain ⟨pid, _, rfl⟩ := List.mem_map.mp hw
    exact (a.sends_spec pid).1
  refine ⟨hshape, by simp [start], ?_, ?_, ?_, ?_⟩
  · simpa [start, callFailures] using hlen
  · simpa [start, failures] using herrs
  · simpa [start, callFailures] using hcalls
  · simpa [start] using calls_le hshape

/-! ## Steps -/

variable {a}

inductive Moves (a : Abort) (c : Config) : Config → Prop
  | send (i : Nat) (r : Result) (rest : List Result) (hw : c.workers[i]? = some (r :: rest))
      (hch : c.channel = []) :
      Moves a c { c with workers := c.workers.set i rest, channel := [r] }
  | receive (n : Nat) (r : Result) (rs : List Result) (hm : c.main = .receiving (n + 1))
      (hch : c.channel = r :: rs) :
      Moves a c { c with main := .receiving n, channel := rs, errs := c.errs ++ r.toList }
  | giveUp (hm : c.main = .receiving 0) (he : c.errs ≠ []) : Moves a c { c with main := .returned }
  | principal (hm : c.main = .receiving 0) (he : c.errs = []) :
      Moves a c { c with main := .aborting (a.sends a.principalPid) }
  | sendLast (r : Result) (rest : List Result) (hm : c.main = .aborting (r :: rest))
      (hch : c.channel = []) : Moves a c { c with main := .aborting rest, channel := [r] }
  | await (hm : c.main = .aborting []) : Moves a c { c with main := .awaiting }
  | receiveLast (r : Result) (rs : List Result) (hm : c.main = .awaiting)
      (hch : c.channel = r :: rs) :
      Moves a c { c with main := .returned, channel := rs, errs := c.errs ++ r.toList }

variable {c : Config} {c' : Config} {e : Event}

theorem step_moves (h : a.step c e = some c') : Moves a c c' := by
  cases e with
  | worker i =>
    simp only [step] at h
    split at h
    · rename_i r rest hw hch
      cases h
      exact .send i r rest hw hch
    · cases h
  | main =>
    simp only [step] at h
    split at h
    · rename_i hm
      split at h
      · rename_i he
        cases h
        exact .principal hm he
      · rename_i he
        cases h
        exact .giveUp hm he
    · rename_i n r rs hm hch
      cases h
      exact .receive n r rs hm hch
    · rename_i r rest hm hch
      cases h
      exact .sendLast r rest hm hch
    · rename_i hm
      cases h
      exact .await hm
    · rename_i r rs hm hch
      cases h
      exact .receiveLast r rs hm hch
    · cases h

theorem Collecting.send {n i : Nat} {rest : List Result} (h : a.Collecting c n)
    (hw : c.workers[i]? = some (r :: rest)) (hch : c.channel = [])
    (hrest : ∀ w ∈ c.workers.set i rest, Shape w) :
    a.Collecting { c with workers := c.workers.set i rest, channel := [r] } n := by
  have hlen := total_set List.length rest hw
  have herr := total_set errors rest hw
  have hcall := total_set calls rest hw
  obtain ⟨h1, h2, h3, _⟩ := h
  rw [hch] at h1 h2 h3
  simp only [List.length_cons, List.length_nil, errors_cons, errors_nil, calls_cons,
    calls_nil] at hlen herr hcall h1 h2 h3
  refine ⟨?_, ?_, ?_, ?_⟩ <;>
    simp only [List.length_cons, List.length_nil, errors_cons, errors_nil, calls_cons, calls_nil]
  · omega
  · omega
  · omega
  · -- the nil of a failed call is still to be sent; other goroutines are done
    have hafter := calls_le hrest
    cases hr : isCall r <;> simp only [hr, Bool.false_eq_true, if_true, if_false] at hcall ⊢ <;>
      omega

theorem Collecting.receive {n : Nat} (h : a.Collecting c (n + 1)) (hch : c.channel = [r]) :
    a.Collecting { c with main := .receiving n, channel := [], errs := c.errs ++ r.toList } n := by
  obtain ⟨h1, h2, h3, h4⟩ := h
  rw [hch] at h1 h2 h3 h4
  have hcount : calls ((c.errs ++ r.toList).map some) =
      calls (c.errs.map some) + if isCall r then 1 else 0 := by
    cases r <;> simp [calls, List.countP_append]
  have herrs : (c.errs ++ r.toList).length = c.errs.length + if r.isSome then 1 else 0 := by
    cases r <;> simp
  simp only [List.length_cons, List.length_nil, errors_cons, errors_nil, calls_cons,
    calls_nil] at h1 h2 h3 h4
  refine ⟨?_, ?_, ?_, ?_⟩ <;> dsimp only <;> simp only [hcount, herrs, List.length_nil, errors_nil,
    calls_nil] <;> omega

/-- **No error is missed.** If nothing failed among the results received, nothing is left. -/
theorem Collecting.clean (h : a.Collecting c 0) (he : c.errs = []) :
    a.failures = 0 ∧ total List.length c.workers = 0 ∧ c.channel = [] := by
  obtain ⟨h1, h2, h3, h4⟩ := h
  rw [he] at h2 h3
  simp only [List.map_nil, calls_nil, List.length_nil] at h2 h3
  have hcalls : calls c.channel ≤ c.channel.length := List.countP_le_length
  have hempty : c.channel.length = 0 ∧ total List.length c.workers = 0 := by omega
  have hch := List.length_eq_zero_iff.mp hempty.1
  have herr := errors_le c.workers
  rw [hch] at h2
  simp only [errors_nil] at h2
  exact ⟨by omega, hempty.2, hch⟩

theorem Inv.step (h : a.Inv c) (hs : a.step c e = some c') : a.Inv c' := by
  obtain ⟨hshape, hcap, hp⟩ := h
  cases step_moves hs with
  | send i r rest hw hch =>
    have hrest : ∀ w ∈ c.workers.set i rest, Shape w := by
      intro w hmem
      rcases List.mem_or_eq_of_mem_set hmem with hmem | rfl
      · exact hshape w hmem
      · exact (hshape _ (List.mem_of_getElem? hw)).rest.1
    have hlen := total_set List.length rest hw
    rw [List.length_cons] at hlen
    refine ⟨hrest, by simp, ?_⟩
    cases hm : c.main with
    | receiving n =>
      rw [hm] at hp
      simpa only [Progress, hm] using hp.send hw hch hrest
    | aborting rest' =>
      rw [hm] at hp
      have := hp.2.1
      omega
    | awaiting =>
      rw [hm] at hp
      have := hp.2.1
      omega
    | returned =>
      rw [hm] at hp
      rcases hp with ⟨hf, hcount⟩ | ⟨_, hzero, _⟩
      · rw [hch, List.length_nil] at hcount
        refine .inl ⟨hf, ?_⟩
        simp only [List.length_cons, List.length_nil]
        omega
      · omega
  | receive n r rs hm hch =>
    rw [hch] at hcap
    have hrs : rs = [] := by
      rw [List.length_cons] at hcap
      exact List.length_eq_zero_iff.mp (by omega)
    subst hrs
    rw [hm] at hp
    exact ⟨hshape, by simp, hp.receive hch⟩
  | giveUp hm he =>
    rw [hm] at hp
    refine ⟨hshape, hcap, .inl ⟨?_, by simpa using hp.count⟩⟩
    have := hp.errs
    have := List.length_pos_of_ne_nil he
    omega
  | principal hm he =>
    rw [hm] at hp
    obtain ⟨hf, hw, hch⟩ := hp.clean he
    exact ⟨hshape, hcap, hf, hw, by rw [hch, List.nil_append]⟩
  | sendLast r rest hm hch =>
    rw [hm] at hp
    obtain ⟨hf, hw, heq⟩ := hp
    rw [hch] at heq
    exact ⟨hshape, by simp, hf, hw, heq⟩
  | await hm =>
    rw [hm] at hp
    obtain ⟨hf, hw, heq⟩ := hp
    exact ⟨hshape, hcap, hf, hw, by rwa [List.append_nil] at heq⟩
  | receiveLast r rs hm hch =>
    rw [hm] at hp
    obtain ⟨hf, hw, heq⟩ := hp
    have hlen := (a.sends_spec a.principalPid).2.1
    rw [← heq] at hlen
    have hcall : a.callFails a.principalPid = false := by
      cases hc : a.callFails a.principalPid with
      | false => rfl
      | true =>
        rw [hc, if_pos rfl] at hlen
        omega
    have hrs : rs = [] := by
      rw [hch, List.length_cons] at hcap
      exact List.length_eq_zero_iff.mp (by omega)
    exact ⟨hshape, by simp [hrs], .inr ⟨hf, hw, hrs, hcall⟩⟩

/-! ## Maximal runs -/

/-- What is left for the main routine, its sends counted twice. -/
def Main.work (a : Abort) : Main → Nat
  | .receiving _ => 2 * (a.sends a.principalPid).length + 3
  | .aborting rest => 2 * rest.length + 2
  | .awaiting => 1
  | .returned => 0

variable (a) in
def work (c : Config) : Nat :=
  2 * total List.length c.workers + c.channel.length + c.main.work a

theorem work_lt (h : a.step c e = some c') : a.work c' < a.work c := by
  unfold work
  cases step_moves h with
  | send i r rest hw hch =>
    have hlen := total_set List.length rest hw
    rw [List.length_cons] at hlen
    simp only [hch, List.length_cons, List.length_nil]
    omega
  | receive n r rs hm hch => simp [hm, hch, Main.work]
  | giveUp hm he => simp [hm, Main.work]
  | principal hm he => simp [hm, Main.work]
  | sendLast r rest hm hch =>
    simp only [hm, hch, Main.work, List.length_cons, List.length_nil]
    omega
  | await hm => simp [hm, Main.work]
  | receiveLast r rs hm hch =>
    simp only [hm, hch, Main.work, List.length_cons]
    omega

/-- With an empty channel, only goroutines that have ended do not move. -/
theorem idle_of_stuck (h : Stuck a.step c) (hch : c.channel = []) :
    total List.length c.workers = 0 := by
  by_contra hne
  obtain ⟨i, r, rest, hw⟩ := exists_sender hne
  have := h (.worker i)
  simp [step, hw, hch] at this

/-- The answers for which `abort` comes to an end: one of the calls fails, or none of them
and either some participant is not final or the call to the principal does not fail. -/
def Ends (a : Abort) : Prop :=
  a.called.countP a.callFails = 1 ∨
    a.called.countP a.callFails = 0 ∧
      ((∃ pid ∈ a.called, a.notFinal pid = true) ∨ a.callFails a.principalPid = false)

/-- Where a maximal run has come to. -/
theorem Inv.stuck (h : a.Inv c) (hs : Stuck a.step c) : c.Completed ↔ a.Ends := by
  obtain ⟨_, hcap, hp⟩ := h
  have hmain := hs .main
  cases hm : c.main with
  | receiving n =>
    rw [hm] at hp
    cases n with
    | zero =>
      simp only [Abort.step, hm] at hmain
      split at hmain <;> cases hmain
    | succ n =>
      cases hch : c.channel with
      | cons r rs => simp [Abort.step, hm, hch] at hmain
      | nil =>
        have hcount := hp.count
        have := idle_of_stuck hs hch
        rw [hch, List.length_nil] at hcount
        omega
  | aborting rest =>
    rw [hm] at hp
    obtain ⟨hf, _, heq⟩ := hp
    cases rest with
    | nil => simp [Abort.step, hm] at hmain
    | cons r rest =>
      cases hch : c.channel with
      | nil => simp [Abort.step, hm, hch] at hmain
      | cons x xs =>
        -- two sends on the routine that would have to receive the first
        have hcall : a.callFails a.principalPid = true := by
          have hlen := (a.sends_spec a.principalPid).2.1
          rw [← heq, hch] at hlen
          simp only [List.cons_append, List.length_cons, List.length_append] at hlen
          by_contra hc
          rw [if_neg hc] at hlen
          omega
        obtain ⟨hzero, hfinal⟩ := a.failures_eq_zero.mp hf
        refine iff_of_false (fun hd => ?_) ?_
        · rw [Config.Completed, hm] at hd
          cases hd.1
        · rintro (h1 | ⟨_, ⟨pid, hpid, hnf⟩ | hp⟩)
          · rw [callFailures, h1] at hzero
            cases hzero
          · rw [hfinal pid hpid] at hnf
            cases hnf
          · rw [hcall] at hp
            cases hp
  | awaiting =>
    rw [hm] at hp
    obtain ⟨_, _, heq⟩ := hp
    cases hch : c.channel with
    | cons r rs => simp [Abort.step, hm, hch] at hmain
    | nil =>
      have hlen := (a.sends_spec a.principalPid).2.1
      rw [← heq, hch, List.length_nil] at hlen
      omega
  | returned =>
    rw [hm] at hp
    rw [Config.Completed, hm, ← total_length_eq_zero]
    simp only [true_and]
    rcases hp with ⟨hf, hcount⟩ | ⟨hf, hzero, _, hcall⟩
    · unfold callFailures at hcount
      constructor
      · intro hw
        rw [hw] at hcount
        rcases Nat.le_one_iff_eq_zero_or_eq_one.mp hcap with h0 | h1
        · refine .inr ⟨by omega, .inl ?_⟩
          by_contra hno
          refine hf (a.failures_eq_zero.mpr ⟨by unfold callFailures; omega, fun pid hpid => ?_⟩)
          by_contra hnf
          exact hno ⟨pid, hpid, Bool.eq_true_of_not_eq_false hnf⟩
        · exact .inl (by omega)
      · intro hends
        have hle : a.called.countP a.callFails ≤ 1 := by
          rcases hends with h1 | ⟨h0, _⟩ <;> omega
        cases hch : c.channel with
        | nil => exact idle_of_stuck hs hch
        | cons r rs =>
          rw [hch, List.length_cons] at hcount
          omega
    · refine iff_of_true hzero (.inr ⟨(a.failures_eq_zero.mp hf).1, .inr hcall⟩)

/-- **When the coordinator's abort ends.** Every maximal run is finite, and ends with `abort`
returned and no goroutine left at the channel, exactly for these answers. -/
theorem abort_completes_iff (a : Abort) :
    ((∃ bound, ∀ es c, runSteps a.step a.start es = some c → es.length ≤ bound) ∧
      ∀ es c, runSteps a.step a.start es = some c → Stuck a.step c → c.Completed) ↔ a.Ends := by
  have hinv : ∀ es c, runSteps a.step a.start es = some c → a.Inv c := fun es c hrun =>
    runSteps_preserves a.step a.Inv (fun _ _ _ hi hs => hi.step hs) a.start_inv hrun
  have hwork : ∀ c e c', a.step c e = some c' → a.work c' < a.work c := fun _ _ _ => work_lt
  constructor
  · rintro ⟨_, hall⟩
    obtain ⟨es, c, hrun, hstuck⟩ := exists_maximal_run hwork a.start
    exact ((hinv es c hrun).stuck hstuck).mp (hall es c hrun hstuck)
  · intro hends
    refine ⟨⟨a.work a.start, fun es c hrun => ?_⟩, fun es c hrun hstuck => ?_⟩
    · have := runSteps_length_le hwork hrun
      omega
    · exact ((hinv es c hrun).stuck hstuck).mpr hends

def unreachable : Abort where
  principalPid := 1
  participantPids := [1, 2, 3]
  status := fun _ => none
  reply := fun _ => .error .unavailable

/-- Two participants that abort, and a principal that cannot be reached. -/
def principalUnreachable : Abort where
  principalPid := 1
  participantPids := [1, 2, 3]
  status := fun _ => none
  reply := fun pid => if pid = 1 then .error .unavailable else .ok .aborted

/-- In the first run `abort` returns and a goroutine waits for ever; in the second `abort`
itself does, with the channel full of its own result. -/
theorem abort_blocks : (∃ c, runSteps unreachable.step unreachable.start
        [.worker 0, .main, .worker 0, .main, .main, .worker 1] = some c ∧
      Stuck unreachable.step c ∧ c.main = .returned ∧ c.workers = [[], [none]]) ∧
    (∃ c, runSteps principalUnreachable.step principalUnreachable.start
        [.worker 0, .main, .worker 1, .main, .main, .main] = some c ∧
      Stuck principalUnreachable.step c ∧ c.main = .aborting [none] ∧ c.workers = [[], []]) := by
  refine ⟨⟨_, rfl, ?_, rfl, rfl⟩, ⟨_, rfl, ?_, rfl, rfl⟩⟩
  · rintro (i | _)
    · match i with
      | 0 | 1 | _ + 2 => rfl
    · rfl
  · rintro (i | _)
    · match i with
      | 0 | 1 | _ + 2 => rfl
    · rfl

end Abort

end Scout.TwoPhase
