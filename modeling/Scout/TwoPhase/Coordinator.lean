import Scout.Txn.Leader

/-!
The coordinator of one multi-partition read-write txn: `processor2PC.Process`
on the API server, with its fan-outs. The coordinator is a machine that handles
one result of a call at a time and answers with the requests it sends next.
-/

namespace Scout.TwoPhase

open Data Txn

/-- The API server's view of the txn: its id and the actions of each participant.
The principal is one of them. -/
structure MultiTxn where
  id : TxnId
  participantActions : AList (fun _ : Nat => List Action)
  principal_mem : id.principalPid ∈ participantActions

namespace MultiTxn

variable (t : MultiTxn)

abbrev principal : Nat := t.id.principalPid

def participants : List Nat := t.participantActions.keys

def rest : List Nat := t.participants.filter (· ≠ t.principal)

/-- The txn in the `PrepareRequest` to a participant. -/
def txnFor (pid : Nat) : Txn :=
  { id := t.id
    actions := (t.participantActions.lookup pid).getD []
    participantPids := if pid = t.principal then t.participants else [] }

end MultiTxn

/-- A txn that writes one key on partitions 1 and 2, with principal 1. -/
def pair : MultiTxn where
  id := ⟨1, 1, 1⟩
  participantActions := AList.insert 1 [⟨0, some (.upsert 16 [0] [])⟩]
    (AList.insert 2 [⟨1, some (.upsert 16 [0] [])⟩] ∅)
  principal_mem := by decide

/-- Calls about the txn. The last two go to the principal; `MarkTimedout` is the
command that its watchdog hands to the writer. -/
inductive Request where
  | prepare (pid : Nat)
  | commit (pid commitTimestamp : Nat)
  | abort (pid : Nat)
  | storeDecision (decision : Decision)
  | markTimedout (releaseLocks : Bool)
  deriving DecidableEq, Repr

def Request.target (principal : Nat) : Request → Nat
  | .prepare pid | .commit pid _ | .abort pid => pid
  | .storeDecision _ | .markTimedout _ => principal

/-! ## The machine -/

/-- Where `Process` called `abort`. -/
inductive Cause where
  | prepare | decide | storeDecision
  deriving DecidableEq, Repr

/-- The call or the fan-out that `Process` waits for. -/
inductive Phase where
  | start
  | preparePrincipal
  | prepare
  | storeDecision (decision : Decision)
  | commit (decision : Decision)
  | commitPrincipal (decision : Decision)
  | abort
  | abortPrincipal
  | returned
  deriving DecidableEq, Repr

/-- `results` are those of the last fan-out, `waiting` its calls that have not
returned. `cause` is history. -/
structure Coordinator where
  phase : Phase := .start
  results : List (Nat × BatchResult) := []
  waiting : List Nat := []
  cause : Option Cause := none

/-- The call that `phase` makes to a participant. -/
def Phase.call : Phase → Nat → Option Request
  | .preparePrincipal, pid | .prepare, pid => some (.prepare pid)
  | .storeDecision d, _ => some (.storeDecision d)
  | .commit d, pid | .commitPrincipal d, pid => some (.commit pid d.commitTimestamp)
  | .abort, pid | .abortPrincipal, pid => some (.abort pid)
  | .start, _ | .returned, _ => none

def isState (state : State) : BatchResult → Bool
  | .ok s => s.state == state
  | .error _ => false

def isError : BatchResult → Bool
  | .ok _ => false
  | .error _ => true

/-- An `Abort` that leaves nothing to do: the participant does not know the txn,
or has finished it. -/
def abortDone : BatchResult → Bool
  | .ok s => s.state.isFinal
  | .error e => e == .notFound

namespace Coordinator

variable (t : MultiTxn)

/-- `decide` on statuses without error. -/
def decide (results : List (Nat × BatchResult)) : Decision :=
  if results.all fun r => isState .prepared r.2 then
    { id := t.id, commit := true
      commitTimestamp := results.foldl (fun ts r =>
        match r.2 with
        | .ok s => max ts s.timestamp
        | .error _ => ts) 0 }
  else { id := t.id, commit := false, commitTimestamp := 0 }

/-- Participants that `abort` still has to reach, the principal apart: also those
that returned an error. -/
def abortTargets (results : List (Nat × BatchResult)) : List Nat :=
  t.rest.filter fun pid =>
    match results.lookup pid with
    | some (.ok s) => !s.state.isFinal
    | _ => true

/-- The first part of `abort`. Without a participant to reach it goes on to the
principal at once. -/
def startAbort (c : Coordinator) (cause : Cause) : Coordinator × List Request :=
  let targets := abortTargets t c.results
  if targets.isEmpty then
    ({ phase := .abortPrincipal, cause := some cause }, [.abort t.principal])
  else ({ phase := .abort, waiting := targets, cause := some cause }, targets.map .abort)

def finish (c : Coordinator) : Coordinator := { c with phase := .returned }

/-- What follows a fan-out once all its calls returned. -/
def conclude (c : Coordinator) : Coordinator × List Request :=
  match c.phase with
  | .prepare =>
    if c.results.any fun r => isError r.2 then c.startAbort t .prepare
    else
      let decision := decide t c.results
      if decision.commit then
        ({ c with phase := .storeDecision decision }, [.storeDecision decision])
      else c.startAbort t .decide
  | .commit d =>
    if c.results.all fun r => isState .committed r.2 then
      ({ c with phase := .commitPrincipal d }, [.commit t.principal d.commitTimestamp])
    else (c.finish, [])
  | .abort =>
    if c.results.all fun r => abortDone r.2 then
      ({ c with phase := .abortPrincipal }, [.abort t.principal])
    else (c.finish, [])
  | _ => (c, [])

/-- The result of one call of a fan-out; the last one concludes it. -/
def collect (c : Coordinator) (pid : Nat) (r : BatchResult) : Coordinator × List Request :=
  let c' := { c with results := c.results ++ [(pid, r)], waiting := c.waiting.erase pid }
  if c'.waiting.isEmpty then c'.conclude t else (c', [])

/-- `Process` makes its first call. -/
def begin (c : Coordinator) : Option (Coordinator × List Request) :=
  match c.phase with
  | .start => some ({ c with phase := .preparePrincipal }, [.prepare t.principal])
  | _ => none

/-- `Process` handles the result of its call to `pid`, if it waits for one. -/
def handle (c : Coordinator) (pid : Nat) (r : BatchResult) :
    Option (Coordinator × List Request) :=
  match c.phase with
  | .preparePrincipal =>
    if pid ≠ t.principal then none
    -- a single status, that of the principal, ends the txn
    else if !isState .prepared r || t.rest.isEmpty then some (c.finish, [])
    else some ({ c with phase := .prepare, results := [(pid, r)], waiting := t.rest },
      t.rest.map .prepare)
  | .prepare | .commit _ | .abort =>
    if pid ∉ c.waiting then none else some (c.collect t pid r)
  | .storeDecision d =>
    if pid ≠ t.principal then none
    else if isError r then some (c.startAbort t .storeDecision)
    else if isState .decided r then
      some ({ c with phase := .commit d, results := [], waiting := t.rest },
        t.rest.map fun pid => .commit pid d.commitTimestamp)
    else some (c.finish, [])
  | .commitPrincipal _ | .abortPrincipal =>
    if pid ≠ t.principal then none else some (c.finish, [])
  | .start | .returned => none

end Coordinator

/-! ## What one result can lead to -/

inductive Moves (t : MultiTxn) (c : Coordinator) (r : BatchResult) :
    Coordinator → List Request → Prop
  | returned (c' : Coordinator) (hp : c'.phase = .returned) (hc : c'.cause = c.cause) :
      Moves t c r c' []
  | collect (c' : Coordinator) (hp : c'.phase = c.phase) (hc : c'.cause = c.cause) :
      Moves t c r c' []
  | prepare (c' : Coordinator) (h : c.phase = .preparePrincipal) (hp : c'.phase = .prepare)
      (hc : c'.cause = c.cause) : Moves t c r c' (t.rest.map .prepare)
  | decided (c' : Coordinator) (d : Decision) (h : c.phase = .prepare)
      (hp : c'.phase = .storeDecision d) (hc : c'.cause = c.cause) :
      Moves t c r c' [.storeDecision d]
  | abort (c' : Coordinator) (cause : Cause) (sent : List Request)
      (h : c.phase = .prepare ∧ cause ≠ .storeDecision ∨
        (∃ d, c.phase = .storeDecision d) ∧ isError r = true ∧ cause = .storeDecision)
      (hp : c'.phase = .abort ∨ c'.phase = .abortPrincipal) (hc : c'.cause = some cause)
      (hs : ∀ q ∈ sent, ∃ pid, q = .abort pid) : Moves t c r c' sent
  | commit (c' : Coordinator) (d : Decision) (h : c.phase = .storeDecision d)
      (hr : isState .decided r = true) (hp : c'.phase = .commit d) (hc : c'.cause = c.cause) :
      Moves t c r c' (t.rest.map fun pid => .commit pid d.commitTimestamp)
  | commitPrincipal (c' : Coordinator) (d : Decision) (h : c.phase = .commit d)
      (hp : c'.phase = .commitPrincipal d) (hc : c'.cause = c.cause) :
      Moves t c r c' [.commit t.principal d.commitTimestamp]
  | abortPrincipal (c' : Coordinator) (h : c.phase = .abort) (hp : c'.phase = .abortPrincipal)
      (hc : c'.cause = c.cause) : Moves t c r c' [.abort t.principal]

theorem startAbort_moves (t : MultiTxn) (c₀ c : Coordinator) (r : BatchResult) (cause : Cause)
    (h : c₀.phase = .prepare ∧ cause ≠ .storeDecision ∨
      (∃ d, c₀.phase = .storeDecision d) ∧ isError r = true ∧ cause = .storeDecision) :
    Moves t c₀ r (c.startAbort t cause).1 (c.startAbort t cause).2 := by
  unfold Coordinator.startAbort
  dsimp only
  split
  · refine .abort _ cause _ h (.inr rfl) rfl ?_
    intro q hq
    exact ⟨_, List.mem_singleton.mp hq⟩
  · refine .abort _ cause _ h (.inl rfl) rfl ?_
    intro q hq
    obtain ⟨pid, _, rfl⟩ := List.mem_map.mp hq
    exact ⟨pid, rfl⟩

/-- The end of a fan-out, for the coordinator `c₀` that handled its last result. -/
theorem conclude_moves (t : MultiTxn) (c₀ c : Coordinator) (r : BatchResult)
    (hp : c.phase = c₀.phase) (hc : c.cause = c₀.cause) :
    Moves t c₀ r (c.conclude t).1 (c.conclude t).2 := by
  have hfin : Moves t c₀ r c.finish [] := .returned _ rfl hc
  unfold Coordinator.conclude
  split
  · rename_i h
    split
    · exact startAbort_moves t c₀ c r .prepare (.inl ⟨hp ▸ h, by decide⟩)
    dsimp only
    split
    · exact .decided _ _ (hp ▸ h) rfl hc
    · exact startAbort_moves t c₀ c r .decide (.inl ⟨hp ▸ h, by decide⟩)
  · rename_i d h
    split
    · exact .commitPrincipal _ d (hp ▸ h) rfl hc
    · exact hfin
  · rename_i h
    split
    · exact .abortPrincipal _ (hp ▸ h) rfl hc
    · exact hfin
  · exact .collect _ hp hc

theorem collect_moves (t : MultiTxn) (c : Coordinator) (pid : Nat) (r : BatchResult) :
    Moves t c r (c.collect t pid r).1 (c.collect t pid r).2 := by
  unfold Coordinator.collect
  dsimp only
  split
  · exact conclude_moves t c _ r rfl rfl
  · exact .collect _ rfl rfl

theorem handle_moves {t : MultiTxn} {c : Coordinator} {pid : Nat} {r : BatchResult}
    {x : Coordinator × List Request} (h : c.handle t pid r = some x) : Moves t c r x.1 x.2 := by
  unfold Coordinator.handle at h
  split at h
  · rename_i hph
    split at h
    · cases h
    split at h
    · cases h
      exact .returned _ rfl rfl
    · cases h
      exact .prepare _ hph rfl rfl
  · split at h
    · cases h
    · cases h
      exact collect_moves t c pid r
  · split at h
    · cases h
    · cases h
      exact collect_moves t c pid r
  · split at h
    · cases h
    · cases h
      exact collect_moves t c pid r
  · rename_i d hph
    split at h
    · cases h
    split at h
    · rename_i he
      cases h
      exact startAbort_moves t c c r .storeDecision (.inr ⟨⟨d, hph⟩, he, rfl⟩)
    · split at h
      · rename_i hd
        cases h
        exact .commit _ d hph hd rfl rfl
      · cases h
        exact .returned _ rfl rfl
  · split at h
    · cases h
    · cases h
      exact .returned _ rfl rfl
  · split at h
    · cases h
    · cases h
      exact .returned _ rfl rfl
  · cases h
  · cases h

end Scout.TwoPhase
