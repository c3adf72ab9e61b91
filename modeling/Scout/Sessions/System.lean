import Scout.Sessions.Tracker
import Scout.Partitions.Planner

/-!
How a replica leaves: the replicated state machine of the control plane, the session
tracker and the assigner of the leader, the replicas on the data servers, and the
messages between them.

A status report that was sent may be delivered at any later time, and a submitted
command applied at any later time. The store publishes copies of the state machine's
state; a reader may get any state that there has been so far. A panic ends the run.
-/

namespace Scout.Sessions

open Lib Control

/-! ## Replicas on a data server -/

inductive Instance where
  | joining (ready : Bool)
  | serving
  | leaving (ready : Bool)
  deriving DecidableEq, Repr

def Instance.isLeaving : Instance → Bool
  | .leaving _ => true
  | .joining _ | .serving => false

/-- The instance after a new config; `started` tells whether a serving instance could be
started. -/
def transitionToState (old : Option Instance) (newState : ReplicaState) (started : Bool) :
    Option (Option Instance) :=
  match newState with
  | .stopped => some none
  | .joining =>
    match old with
    | none => some (some (.joining false))
    | some (.joining ready) => some (some (.joining ready))
    | some .serving | some (.leaving _) => some none
  | .voter | .nonVoter =>
    match old with
    | none | some (.joining _) => some (if started then some .serving else none)
    | some .serving => some (some .serving)
    | some (.leaving _) => some none
  | .leaving =>
    match old with
    | some (.leaving ready) => some (some (.leaving ready))
    | none | some (.joining _) | some .serving => some (some (.leaving false))
  | .other _ => none

/-- The status with the numbers of the Raft group; a leaving replica has none. -/
def Instance.getStatus (name : String) (isLeader : Bool)
    (leaderTerm commitedIndex appliedIndex : Nat) : Instance → DataServerStatus
  | .joining ready => ⟨name, isLeader, leaderTerm, commitedIndex, appliedIndex, ready⟩
  | .serving => ⟨name, isLeader, leaderTerm, commitedIndex, appliedIndex, true⟩
  | .leaving ready => ⟨name, false, 0, 0, 0, ready⟩

/-! ## The system -/

structure Sent where
  pid : Nat
  status : DataServerStatus
  source : Instance
  deriving DecidableEq, Repr

/-- `recorded` and `cleaned` are history: the reports that a tracker has recorded, and
the replicas whose server has finished the cleanup. -/
structure System where
  fsm : Fsm
  views : List Fsm
  tracker : Option StatusTracker
  submitted : List Payload
  instances : AList fun _ : Nat × String => Instance
  sent : List Sent
  recorded : List Sent
  cleaned : List (Nat × String)

def initial : System := ⟨newFsm, [newFsm], none, [], ∅, [], [], []⟩

inductive Event where
  /-- A command that is neither the tracker's nor a plan. -/
  | submit (payload : Payload)
  | apply (k : Nat) (index : Nat) (appendedAt : Time)
  | restore
  /-- A control server becomes the leader and starts a tracker. -/
  | lead (view : Nat)
  | syncServers (view : Nat)
  | syncPartitions (view : Nat)
  | newSession (sid : Nat) (address : String) (now : Time)
  | received (sid : Nat) (now : Time)
  | deliver (k : Nat) (now : Time)
  | write (succeeded : Bool)
  /-- A round of the assigner, on the servers and the partitions that it reads. -/
  | assign (servers partitions : Nat) (config : Partitions.Config) (ch : Partitions.Choices)
  /-- A data server gets the config of a partition. -/
  | configure (view : Nat) (pid : Nat) (name : String) (started : Bool)
  | stop (pid : Nat) (name : String)
  /-- A joining replica has got its data. -/
  | restored (pid : Nat) (name : String)
  /-- A leaving replica has dropped its Raft group and its data. -/
  | cleanup (pid : Nat) (name : String)
  | report (pid : Nat) (name : String) (isLeader : Bool)
      (leaderTerm commitedIndex appliedIndex : Nat)

namespace System

def serversAt (s : System) (view : Nat) : Option Servers := s.views[view]?.bind Fsm.servers

def partitionsAt (s : System) (view : Nat) : Option Control.Partitions :=
  s.views[view]?.bind Fsm.partitions

/-- The command that a round of the assigner makes. The loop makes rounds once it has seen
assignments; without them the command would be rejected. -/
def updateAssignments (s : System) (servers partitions : Nat) (config : Partitions.Config)
    (ch : Partitions.Choices) : Option UpdateAssignments := do
  let servers ← s.serversAt servers
  let partitions ← s.partitionsAt partitions
  let curr ← Partitions.makeState servers partitions
  let next ← Partitions.nextState config ch curr
  Partitions.makeUpdateAssignments ch partitions.assignmentsVersion curr next

def setInstance (s : System) (pid : Nat) (name : String) : Option Instance → System
  | some x => { s with instances := s.instances.insert (pid, name) x }
  | none => { s with instances := s.instances.erase (pid, name) }

/-- The state machine moves on, and the new state is published. -/
def advance (s : System) (a : Step) : Option System :=
  (Control.step s.fsm a).map fun f => { s with fsm := f, views := f :: s.views }

def track (s : System) (f : StatusTracker → Option StatusTracker) : Option System := do
  let t ← s.tracker
  let t ← f t
  return { s with tracker := some t }

end System

def step (s : System) : Event → Option System
  | .submit payload =>
    match payload with
    | .bootstrap _ | .register _ | .initAssignments _ =>
      some { s with submitted := s.submitted ++ [payload] }
    | .updateStatus _ | .updateAssignments _ => none
  | .apply k index appendedAt => do
    let payload ← s.submitted[k]?
    { s with submitted := s.submitted.eraseIdx k }.advance
      (.apply ⟨index, appendedAt, some ⟨0, some payload⟩⟩)
  | .restore => s.advance .restore
  | .lead view => do
    let servers ← s.serversAt view
    let partitions ← s.partitionsAt view
    return { s with tracker := some (newStatusTracker servers partitions) }
  | .syncServers view => do
    let servers ← s.serversAt view
    s.track fun t => some (t.syncServers servers)
  | .syncPartitions view => do
    let partitions ← s.partitionsAt view
    s.track fun t => some (t.syncPartitions partitions)
  | .newSession sid address now => s.track fun t => some (t.recordNewSession sid address now)
  | .received sid now => s.track fun t => some (t.recordSessionReceived sid now)
  | .deliver k now => do
    let x ← s.sent[k]?
    { s with recorded := x :: s.recorded }.track fun t =>
      (recordReplicaStatus t now [(x.pid, x.status)]).map Prod.fst
  | .write succeeded => do
    let t ← s.tracker
    let (update, t) := t.writeLatestStatus succeeded
    return { s with
      tracker := some t
      submitted := s.submitted ++ (update.map Payload.updateStatus).toList }
  | .assign servers partitions config ch => do
    let cmd ← s.updateAssignments servers partitions config ch
    return if cmd.isEmpty then s
      else { s with submitted := s.submitted ++ [.updateAssignments cmd] }
  | .configure view pid name started => do
    let partitions ← s.partitionsAt view
    let replica ← replicaAt partitions.items pid name
    let x ← transitionToState (s.instances.lookup (pid, name)) replica.state started
    return s.setInstance pid name x
  | .stop pid name => some (s.setInstance pid name none)
  | .restored pid name =>
    match s.instances.lookup (pid, name) with
    | some (.joining _) => some (s.setInstance pid name (some (.joining true)))
    | some .serving | some (.leaving _) | none => none
  | .cleanup pid name =>
    match s.instances.lookup (pid, name) with
    | some (.leaving _) =>
      some { s.setInstance pid name (some (.leaving true)) with
        cleaned := (pid, name) :: s.cleaned }
    | some (.joining _) | some .serving | none => none
  | .report pid name isLeader leaderTerm commitedIndex appliedIndex => do
    let x ← s.instances.lookup (pid, name)
    return { s with
      sent := s.sent ++
        [⟨pid, x.getStatus name isLeader leaderTerm commitedIndex appliedIndex, x⟩] }

end Scout.Sessions
