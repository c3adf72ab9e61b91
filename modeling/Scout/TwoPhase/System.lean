import Scout.Lib.Runs
import Scout.TwoPhase.Coordinator

/-!
The whole protocol for one txn: the coordinator, the partitions with their state
machines, the watchdog of the principal with the resolvers it starts, and the
messages. A request that was sent stays in flight, so it may be delivered late,
more than once or never; likewise for a response, and a caller may see an error
instead of any response. Commands of other txns are applied freely in between.
-/

namespace Scout.TwoPhase

open Data Mvcc Txn Lib

/-! ## Resolvers of the watchdog -/

inductive Stage where
  /-- `abort` waits for its first `markTimedout`. -/
  | markTimedout
  | fanOut
  | stopped
  deriving DecidableEq, Repr

/-- One call of `watchdog2PC.abort` or `watchdog2PC.commit`. -/
structure Resolution where
  kind : Resolver
  txn : Running
  stage : Stage
  waiting : List Nat := []
  received : Nat := 0

namespace Resolution

variable (w : Resolution)

def call (pid : Nat) : Request :=
  match w.kind with
  | .abort => .abort pid
  | .commit => .commit pid ((w.txn.decision.map Decision.commitTimestamp).getD 0)

/-- The call to the principal that ends the process. -/
def last : Request :=
  match w.kind with
  | .abort => .markTimedout true
  | .commit => w.call w.txn.id.principalPid

/-- Goes on once `len(ParticipantPids) - 1` results arrived, at once if the list
is empty. -/
def proceed : Resolution × List Request :=
  if w.txn.participantPids.length ≤ w.received + 1 then
    ({ w with stage := .stopped }, [w.last])
  else (w, [])

def targets : List Nat := w.txn.participantPids.filter (· ≠ w.txn.id.principalPid)

def fanOut : Resolution × List Request :=
  let x := ({ w with stage := .fanOut, waiting := w.targets } : Resolution).proceed
  (x.1, w.targets.map w.call ++ x.2)

/-- The watchdog starts a resolver. Without a commit decision `commit` panics. -/
def start (kind : Resolver) (txn : Running) : Resolution × List Request :=
  match kind with
  | .abort => ({ kind, txn, stage := .markTimedout }, [.markTimedout false])
  | .commit =>
    if (txn.decision.map Decision.commit).getD false then
      ({ kind, txn, stage := .fanOut } : Resolution).fanOut
    else ({ kind, txn, stage := .stopped }, [])

def done (r : BatchResult) : Bool :=
  match w.kind with
  | .abort => abortDone r
  | .commit => isState .committed r || (match r with | .error e => e == .notFound | .ok _ => false)

/-- The resolver handles the result of one of its calls. A result on which the
source retries changes nothing, as the request stays in flight. -/
def handle (q : Request) (r : BatchResult) : Option (Resolution × List Request) :=
  match w.stage with
  | .markTimedout =>
    if q ≠ .markTimedout false then none
    else
      match r with
      | .ok _ => some w.fanOut
      | .error e =>
        if e = .notFound ∨ e = .failedPrecondition then some ({ w with stage := .stopped }, [])
        else none
  | .fanOut =>
    match w.waiting.find? fun pid => w.call pid == q with
    | none => none
    | some pid =>
      if w.done r then
        some ({ w with waiting := w.waiting.erase pid, received := w.received + 1 } :
          Resolution).proceed
      else none
  | .stopped => none

end Resolution

/-! ## The system -/

/-- `reported` and `finished` are history: the states of the txn that each
partition has returned, and whether the principal has been aborted, or timed out
with released locks. -/
structure System where
  coordinator : Coordinator := {}
  principal : Leader
  others : Nat → Manager × Store
  resolutions : List Resolution := []
  requests : List Request := []
  responses : List (Request × BatchResult) := []
  reported : List (Nat × State) := []
  finished : Bool := false

inductive Step where
  /-- `Process` starts. -/
  | begin
  /-- `Process` handles a result of its call to `pid`. -/
  | coordinator (pid : Nat) (r : BatchResult)
  /-- A partition applies a log entry. -/
  | apply (pid : Nat) (e : Entry)
  /-- The principal's watchdog reads a report, ticks, or is started by a new leader. -/
  | watchdog (e : LeaderEvent)
  /-- A resolver handles a response. -/
  | resolution (i : Nat) (q : Request) (r : BatchResult)

/-- The request that a command about the txn carries out at partition `pid`. -/
def carriedOut (t : MultiTxn) (pid : Nat) : Cmd → Option Request
  | .prepare c => if c.txn = t.txnFor pid then some (.prepare pid) else none
  | .commit c => some (.commit pid c.timestamp)
  | .abort _ => some (.abort pid)
  | .storeDecision c => if pid = t.principal then some (.storeDecision c.decision) else none
  | .markTimedout c => if pid = t.principal then some (.markTimedout c.releaseLocks) else none
  | .autocommit _ => none

variable {t : MultiTxn} {pid : Nat} {c : Cmd} {q : Request}

theorem carriedOut_target (h : carriedOut t pid c = some q) : q.target t.principal = pid := by
  cases c with
  | prepare c =>
    simp only [carriedOut] at h
    split at h
    · cases h
      rfl
    · cases h
  | commit c =>
    cases h
    rfl
  | abort c =>
    cases h
    rfl
  | storeDecision c =>
    simp only [carriedOut] at h
    split at h
    · rename_i hp
      cases h
      exact hp.symm
    · cases h
  | markTimedout c =>
    simp only [carriedOut] at h
    split at h
    · rename_i hp
      cases h
      exact hp.symm
    · cases h
  | autocommit c => cases h

theorem carriedOut_kind (h : carriedOut t pid c = some q) : match q, c with
    | .prepare _, .prepare _ | .commit _ _, .commit _ | .abort _, .abort _
    | .storeDecision _, .storeDecision _ | .markTimedout _, .markTimedout _ => True
    | _, _ => False := by
  cases c <;> simp only [carriedOut, Option.ite_none_right_eq_some, reduceCtorEq] at h
  case abort | commit =>
    cases h
    trivial
  case prepare | storeDecision | markTimedout =>
    cases h.2
    trivial

theorem carriedOut_storeDecision {c : StoreDecision}
    (h : carriedOut t pid (.storeDecision c) = some q) : q = .storeDecision c.decision := by
  simp only [carriedOut] at h
  split at h
  · cases h
    rfl
  · cases h

/-- Every command about the txn carries out a request that was sent. -/
def Backed (t : MultiTxn) (requests : List Request) (pid : Nat) (cs : List Cmd) : Prop :=
  ∀ c ∈ cs, c.id = t.id → ∃ q ∈ requests, carriedOut t pid c = some q
  deriving Decidable

def hasCmd (kind : Cmd → Bool) (id : TxnId) (cs : List Cmd) : Bool :=
  cs.any fun c => kind c && c.id = id

def prepares : TxnId → List Cmd → Bool :=
  hasCmd fun c => match c with | .prepare _ => true | _ => false

def storesDecision : TxnId → List Cmd → Bool :=
  hasCmd fun c => match c with | .storeDecision _ => true | _ => false

def aborts : TxnId → List Cmd → Bool :=
  hasCmd fun c => match c with | .abort _ => true | _ => false

theorem hasCmd_of_mem {kind : Cmd → Bool} {id : TxnId} {cs : List Cmd} (hc : c ∈ cs)
    (hk : kind c = true) (hid : c.id = id) : hasCmd kind id cs = true :=
  List.any_eq_true.mpr ⟨c, hc, by simp [hk, hid]⟩

def answersTo (id : TxnId) (cs : List Cmd) (rs : List BatchResult) : List (Cmd × BatchResult) :=
  (cs.zip rs).filter fun x => x.1.id = id

def responsesOf (t : MultiTxn) (pid : Nat) (as : List (Cmd × BatchResult)) :
    List (Request × BatchResult) :=
  as.filterMap fun x => (carriedOut t pid x.1).map fun q => (q, x.2)

def reportsOf (pid : Nat) (as : List (Cmd × BatchResult)) : List (Nat × State) :=
  as.filterMap fun x =>
    match x.2 with
    | .ok s => some (pid, s.state)
    | .error _ => none

/-- The txn is aborted, or timed out, and its locks are released. -/
def endedIn (m : Manager) (id : TxnId) : Bool :=
  match m.status.lookup id, m.prepared.lookup id with
  | some s, some p => (s.state == .aborted || s.state == .timedout) && p.locksReleased
  | _, _ => false

namespace System

variable (t : MultiTxn) (times : Timeouts) (s : System)

def partition (pid : Nat) : Manager × Store :=
  if pid = t.principal then s.principal.state else s.others pid

def apply (pid : Nat) (e : Entry) : System :=
  let p := s.partition t pid
  let answers := answersTo t.id (batchCmds e.batch) (applyEntry p e).2.all
  { s with
    principal := if pid = t.principal then (s.principal.step times (.applied e)).1
      else s.principal
    others := if pid = t.principal then s.others
      else Function.update s.others pid (applyEntry p e).1
    responses := s.responses ++ responsesOf t pid answers
    reported := s.reported ++ reportsOf pid answers
    finished := s.finished ||
      pid == t.principal && endedIn (p.1.runCmds p.2 (batchCmds e.batch)).1 t.id }

/-- The resolvers for the txn that an iteration of the main loop starts. -/
def spawned (handed : List (Resolver × Running)) : List (Resolution × List Request) :=
  (handed.filter fun x => x.2.id = t.id).map fun x => Resolution.start x.1 x.2

def watch (e : LeaderEvent) : System :=
  let x := s.principal.step times e
  let new := spawned t x.2
  { s with
    principal := x.1
    resolutions := s.resolutions ++ new.map Prod.fst
    requests := s.requests ++ new.flatMap Prod.snd }

def step (s : System) : Step → Option System
  | .begin => (s.coordinator.begin t).map fun x =>
      { s with coordinator := x.1, requests := s.requests ++ x.2 }
  | .coordinator pid r =>
    match s.coordinator.phase.call pid with
    | none => none
    | some q =>
      if (q, r) ∈ s.responses ∨ r = .error .unavailable then
        (s.coordinator.handle t pid r).map fun x =>
          { s with coordinator := x.1, requests := s.requests ++ x.2 }
      else none
  | .apply pid e =>
    if Backed t s.requests pid (batchCmds e.batch) then some (s.apply t times pid e) else none
  | .watchdog (.applied _) => none
  | .watchdog e => some (s.watch t times e)
  | .resolution i q r =>
    match s.resolutions[i]? with
    | none => none
    | some w =>
      if (q, r) ∈ s.responses then
        (w.handle q r).map fun x =>
          { s with resolutions := s.resolutions.set i x.1, requests := s.requests ++ x.2 }
      else none

/-- Before the first call: no partition has applied anything. -/
def initial (cleanAfter : Int) : System :=
  { principal := { state := newPartition t.principal cleanAfter }
    others := fun pid => newPartition pid cleanAfter }

theorem initial_partition (cleanAfter : Int) (p : Nat) :
    (initial t cleanAfter).partition t p = newPartition p cleanAfter := by
  unfold partition initial
  split
  · rename_i hp
    rw [hp]
  · rfl

theorem watch_partition {e : LeaderEvent} (hne : ∀ entry, e ≠ .applied entry) (p : Nat) :
    (s.watch t times e).partition t p = s.partition t p := by
  unfold partition watch
  rw [(leader_between_state times s.principal e hne).1]

theorem partition_principal : s.partition t t.principal = s.principal.state := if_pos rfl

theorem apply_partition (pid p : Nat) (e : Entry) : (s.apply t times pid e).partition t p =
      if p = pid then (applyEntry (s.partition t pid) e).1 else s.partition t p := by
  unfold partition apply
  by_cases hpid : pid = t.principal
  · subst hpid
    by_cases hp : p = t.principal
    · subst hp
      simp only [if_true]
      rfl
    · simp only [hp, if_false, if_true]
  · by_cases hp : p = pid
    · subst hp
      simp only [partition, hpid, if_false, Function.update_self, if_true]
    · simp only [hpid, hp, if_false, ne_eq, not_false_eq_true, Function.update_of_ne]

variable {t times s}

inductive Moves (t : MultiTxn) (times : Timeouts) (s : System) : Step → System → Prop
  | begin (x : Coordinator × List Request) (hx : s.coordinator.begin t = some x) :
      Moves t times s .begin { s with coordinator := x.1, requests := s.requests ++ x.2 }
  | coordinator (pid : Nat) (r : BatchResult) (q : Request) (x : Coordinator × List Request)
      (hq : s.coordinator.phase.call pid = some q)
      (hr : (q, r) ∈ s.responses ∨ r = .error .unavailable)
      (hx : s.coordinator.handle t pid r = some x) :
      Moves t times s (.coordinator pid r)
        { s with coordinator := x.1, requests := s.requests ++ x.2 }
  | apply (pid : Nat) (e : Entry) (hback : Backed t s.requests pid (batchCmds e.batch)) :
      Moves t times s (.apply pid e) (s.apply t times pid e)
  | watchdog (e : LeaderEvent) (hne : ∀ entry, e ≠ .applied entry) :
      Moves t times s (.watchdog e) (s.watch t times e)
  | resolution (i : Nat) (q : Request) (r : BatchResult) (w : Resolution)
      (x : Resolution × List Request) (hw : s.resolutions[i]? = some w)
      (hq : (q, r) ∈ s.responses) (hx : w.handle q r = some x) :
      Moves t times s (.resolution i q r)
        { s with resolutions := s.resolutions.set i x.1, requests := s.requests ++ x.2 }

theorem step_moves {s' : System} {a : Step} (hs : s.step t times a = some s') :
    Moves t times s a s' := by
  cases a with
  | begin =>
    obtain ⟨x, hx, rfl⟩ := Option.map_eq_some_iff.mp hs
    exact .begin x hx
  | coordinator pid r =>
    simp only [step] at hs
    split at hs
    · cases hs
    next q hq =>
    obtain ⟨hr, hs⟩ := Option.ite_none_right_eq_some.mp hs
    obtain ⟨x, hx, rfl⟩ := Option.map_eq_some_iff.mp hs
    exact .coordinator pid r q x hq hr hx
  | apply pid e =>
    obtain ⟨hback, hs⟩ := Option.ite_none_right_eq_some.mp hs
    cases hs
    exact .apply pid e hback
  | watchdog e =>
    cases e with
    | applied e => cases hs
    | _ =>
      cases hs
      exact .watchdog _ (by simp)
  | resolution i q r =>
    simp only [step] at hs
    split at hs
    · cases hs
    next w hw =>
    obtain ⟨hq, hs⟩ := Option.ite_none_right_eq_some.mp hs
    obtain ⟨x, hx, rfl⟩ := Option.map_eq_some_iff.mp hs
    exact .resolution i q r w x hw hq hx

end System

/-- **Invariant rule for a batch**, with the answers to the commands about one txn. -/
theorem answers_invariant (id : TxnId) (db : Store)
    (I : Manager → List (Cmd × BatchResult) → Prop) (cs : List Cmd) (m : Manager) (h₀ : I m [])
    (hother : ∀ m as, ∀ c ∈ cs, c.id ≠ id → I m as → I (m.applyCmd db c).1 as)
    (hown : ∀ m as, ∀ c ∈ cs, c.id = id → I m as →
      I (m.applyCmd db c).1 (as ++ [(c, (m.applyCmd db c).2.result)])) :
    I (m.runCmds db cs).1 (answersTo id cs ((m.runCmds db cs).2.map Outcome.result)) := by
  refine (loop_history (Manager.applyCmd db)
    (fun pre m os => os.length = pre.length ∧ I m (answersTo id pre (os.map Outcome.result)))
    cs m ⟨rfl, h₀⟩ ?_).2
  rintro pre c post m os hcs ⟨hlen, ih⟩
  have hc : c ∈ cs := by simp [hcs]
  refine ⟨by simp [hlen], ?_⟩
  have hzip : answersTo id (pre ++ [c]) ((os ++ [(m.applyCmd db c).2]).map Outcome.result) =
      answersTo id pre (os.map Outcome.result) ++
        if c.id = id then [(c, (m.applyCmd db c).2.result)] else [] := by
    unfold answersTo
    rw [List.map_append, List.zip_append (by simp [hlen]), List.filter_append]
    by_cases hid : c.id = id <;> simp [hid]
  rw [hzip]
  by_cases hid : c.id = id
  · rw [if_pos hid]
    exact hown m _ c hc hid ih
  · rw [if_neg hid, List.append_nil]
    exact hother m _ c hc hid ih

end Scout.TwoPhase
