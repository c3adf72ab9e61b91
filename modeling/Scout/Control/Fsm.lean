import Mathlib.Algebra.Group.Nat.Defs
import Mathlib.Algebra.Group.Int.Defs
import Scout.Control.Cluster
import Scout.Lib.Runs

/-!
The replicated state machine of the control plane: its commands, what applying
one of them does, and snapshots.

A computation is `Go ApplyError`: it may return an error, which is the answer of
the command, or panic, which stops the process.
-/

namespace Scout.Control

open Lib

inductive ApplyError where
  | unmarshalFailed
  | failedPrecondition
  | invalidRequest
  | validationError (message : String)
  | error (message : String)
  deriving DecidableEq, Repr

/-! ## Commands -/

structure BootstrapServer where
  id : Nat
  name : String
  address : String
  tags : List String
  deriving DecidableEq, Repr

structure Bootstrap where
  clusterName : String
  servers : List BootstrapServer
  partitionCount : Nat
  deriving DecidableEq, Repr

structure Register where
  type : ServerType
  token : String
  address : String
  tags : List String
  deriving DecidableEq, Repr

structure ServerStatus where
  lastSeen : Option Time
  lastAddress : String

structure ReplicaStatus where
  lastUpdate : Option Time
  appliedIndex : Nat
  ready : Bool

structure PartitionStatus where
  replicas : AList fun _ : String => ReplicaStatus
  leader : String
  leaderTerm : Nat
  leaderAppliedIndex : Nat
  commitedIndex : Nat

structure UpdateStatus where
  servers : AList fun _ : Nat => ServerStatus
  partitions : AList fun _ : Nat => PartitionStatus

structure InitAdd where
  partitionId : Nat
  serverId : Nat
  voter : Bool
  deriving DecidableEq, Repr

structure InitAssignments where
  add : List InitAdd
  maxImbalance : Nat
  deriving DecidableEq, Repr

structure Add where
  partitionId : Nat
  serverId : Nat
  deriving DecidableEq, Repr

structure Update where
  partitionId : Nat
  replica : String
  state : ReplicaState
  deriving DecidableEq, Repr

structure Remove where
  partitionId : Nat
  replica : String
  deriving DecidableEq, Repr

structure UpdateAssignments where
  ifMatch : Nat
  add : List Add
  update : List Update
  remove : List Remove
  maxImbalance : Nat
  deriving DecidableEq, Repr

def UpdateAssignments.isEmpty (u : UpdateAssignments) : Bool :=
  u.add.isEmpty && u.update.isEmpty && u.remove.isEmpty

inductive Payload where
  | bootstrap (cmd : Bootstrap)
  | register (cmd : Register)
  | updateStatus (cmd : UpdateStatus)
  | initAssignments (cmd : InitAssignments)
  | updateAssignments (cmd : UpdateAssignments)

structure Command where
  ifMatch : Nat
  payload : Option Payload

/-- An entry of the log; `none` is data that cannot be decoded. -/
structure Entry where
  index : Nat
  appendedAt : Time
  data : Option Command

inductive Result where
  | bootstrapped (success : Bool)
  | registered (serverId : Nat) (serverName : String)
  | noResult
  | updated (newVersion : Nat)
  deriving DecidableEq, Repr

abbrev Answer := Except ApplyError Result

/-! ## The state machine -/

structure Fsm where
  index : Nat
  version : Nat
  clusterName : String
  createdTime : Time
  partitionCount : Nat
  servers : Option Servers
  partitions : Option Partitions

def newFsm : Fsm := ⟨0, 0, "", 0, 0, none, none⟩

def rejectIf (c : Prop) [Decidable c] (e : ApplyError) : Go ApplyError Unit :=
  if c then .error (.err e) else .ok ()

def setEntry {κ α : Type} [DecidableEq κ] (m : GoMap κ α) (k : κ) (v : α) :
    Go ApplyError (GoMap κ α) := deref (m.set k v)

/-! ### Bootstrap -/

def bootstrapServers (appendedAt : Time) (servers : List BootstrapServer) : Servers :=
  servers.foldl (fun s x =>
      { s with
        lastId := max s.lastId x.id
        items := .made (s.items.content.insert x.id
          ⟨x.id, x.name, .control, x.tags, appendedAt, some appendedAt, x.address⟩) })
    ⟨1, 1, .empty, 0, .empty⟩

def emptyPartition (id : Nat) : Partition := ⟨id, .empty, 0, 0, "", 0, 0, 0⟩

def bootstrapPartitions (count : Nat) : Partitions :=
  ⟨0, 0, .made ((List.range count).foldl (fun c id => c.insert id (emptyPartition id)) ∅), 0⟩

def applyBootstrap (f : Fsm) (appendedAt : Time) (cmd : Bootstrap) : Go ApplyError (Fsm × Result) :=
  if f.clusterName ≠ "" then .ok (f, .bootstrapped false)
  else .ok ({ f with
    clusterName := cmd.clusterName
    createdTime := appendedAt
    partitionCount := cmd.partitionCount
    servers := some (bootstrapServers appendedAt cmd.servers)
    partitions := some (bootstrapPartitions cmd.partitionCount) }, .bootstrapped true)

/-! ### Register -/

def tokenValidityWindow : Time := 2 * 24 * 3600 * 10 ^ 9

def serverNamePrefix : ServerType → String
  | .control => "control_"
  | .data => "data_"
  | .api => "api_"
  | .unknown | .other _ => ""

def nextServerId (s : Servers) : Nat := (s.lastId + 1) % 2 ^ 64

def registerNew (s : Servers) (appendedAt : Time) (cmd : Register) :
    Go ApplyError (Servers × Result) := do
  let id := nextServerId s
  let name := serverNamePrefix cmd.type ++ toString id
  let items ← setEntry s.items id
    ⟨id, name, cmd.type, cmd.tags, appendedAt, some appendedAt, cmd.address⟩
  let tokens ← setEntry s.tokens cmd.token id
  return (⟨s.version + 1, s.registerVersion + 1, items, id, tokens⟩, .registered id name)

def applyRegister (f : Fsm) (appendedAt : Time) (cmd : Register) :
    Go ApplyError (Fsm × Result) := do
  let servers ← deref f.servers
  match servers.tokens.get cmd.token with
  | some id =>
    let server ← deref (servers.items.get id)
    rejectIf (server.registeredAt < appendedAt - tokenValidityWindow)
      (.validationError "Token expired.")
    return (f, .registered id server.name)
  | none =>
    let (servers, result) ← registerNew servers appendedAt cmd
    return ({ f with servers := some servers }, result)

/-! ### Update status -/

def updateServer (items : GoMap Nat Server) (id : Nat) (u : ServerStatus) : GoMap Nat Server :=
  match items.get id with
  | some server => items.store id
      { server with lastSeen := u.lastSeen, lastAddress := u.lastAddress }
  | none => items

def updateReplica (replicas : GoMap String Replica) (name : String) (u : ReplicaStatus) :
    GoMap String Replica :=
  match replicas.get name with
  | some replica => replicas.store name
      { replica with lastUpdate := u.lastUpdate, appliedIndex := u.appliedIndex, ready := u.ready }
  | none => replicas

def Partition.updateStatus (part : Partition) (u : PartitionStatus) : Partition :=
  { part with
    leader := u.leader
    leaderTerm := u.leaderTerm
    leaderAppliedIndex := u.leaderAppliedIndex
    commitedIndex := u.commitedIndex
    replicas := u.replicas.entries.foldl (fun rs e => updateReplica rs e.1 e.2) part.replicas }

/-- A partition that does not exist is a nil pointer. -/
def onPartition (items : GoMap Nat Partition) (pid : Nat)
    (op : Partition → Go ApplyError Partition) : Go ApplyError (GoMap Nat Partition) := do
  let part ← deref (items.get pid)
  let part ← op part
  return items.store pid part

/-- The pointers are followed only where there is something to update. -/
def updateServersStatus (servers : Option Servers) (us : List (Nat × ServerStatus)) :
    Go ApplyError (Option Servers) :=
  if us.isEmpty then .ok servers
  else do
    let s ← deref servers
    let items := us.foldl (fun m u => updateServer m u.1 u.2) s.items
    return some { s with items := items, version := s.version + 1 }

def statusItem (items : GoMap Nat Partition) (u : Nat × PartitionStatus) :
    Go ApplyError (GoMap Nat Partition) :=
  onPartition items u.1 fun part => .ok (part.updateStatus u.2)

def updatePartitionsStatus (partitions : Option Partitions) (us : List (Nat × PartitionStatus)) :
    Go ApplyError (Option Partitions) :=
  if us.isEmpty then .ok partitions
  else do
    let p ← deref partitions
    let items ← us.foldlM statusItem p.items
    return some { p with items := items, version := p.version + 1 }

def applyUpdateStatus (f : Fsm) (cmd : UpdateStatus) : Go ApplyError (Fsm × Result) := do
  let servers ← updateServersStatus f.servers (cmd.servers.entries.map fun e => (e.1, e.2))
  let partitions ←
    updatePartitionsStatus f.partitions (cmd.partitions.entries.map fun e => (e.1, e.2))
  return ({ f with servers := servers, partitions := partitions }, .noResult)

/-! ### Assignments -/

def isValidDataServer (f : Fsm) (serverId : Nat) : Go ApplyError Bool := do
  let servers ← deref f.servers
  return match servers.items.get serverId with
    | some server => server.type == .data
    | none => false

def isValidPartitionId (f : Fsm) (pid : Nat) : Bool := decide (pid < f.partitionCount)

def replicaName (pid n : Nat) : String := s!"p{pid}_r{n}"

def nextReplicaName (items : GoMap Nat Partition) (pid : Nat) :
    Go ApplyError (GoMap Nat Partition × String) := do
  let part ← deref (items.get pid)
  let part := { part with lastReplicaId := part.lastReplicaId + 1 }
  return (items.store pid part, replicaName part.id part.lastReplicaId)

def newReplica (appendedAt : Time) (name : String) (serverId : Nat) (state : ReplicaState) :
    Replica := ⟨name, serverId, state, appendedAt, appendedAt, none, 0, false⟩

/-- The name is taken from the counter of the partition with the id that is
stored in the partition. -/
def addReplica (appendedAt : Time) (items : GoMap Nat Partition) (pid serverId : Nat)
    (state : ReplicaState) : Go ApplyError (GoMap Nat Partition) := do
  let part ← deref (items.get pid)
  let (items, name) ← nextReplicaName items part.id
  onPartition items pid fun part => do
    let replicas ← setEntry part.replicas name (newReplica appendedAt name serverId state)
    return { part with replicas := replicas }

def initCheck (f : Fsm) (seenPairs : List (Nat × Nat)) (x : InitAdd) :
    Go ApplyError (List (Nat × Nat)) := do
  rejectIf (¬isValidPartitionId f x.partitionId) (.error "has invalid fields")
  rejectIf (¬(← isValidDataServer f x.serverId)) (.error "has invalid fields")
  rejectIf ((x.partitionId, x.serverId) ∈ seenPairs) (.error "has duplicate entries")
  return (x.partitionId, x.serverId) :: seenPairs

def validateInitAssignments (f : Fsm) (cmd : InitAssignments) : Go ApplyError Unit := do
  let seenPairs ← cmd.add.foldlM (initCheck f) []
  rejectIf ((seenPairs.map Prod.fst).dedup.length ≠ f.partitionCount)
    (.error "has missing partitions")

def initAdd (appendedAt : Time) (items : GoMap Nat Partition) (x : InitAdd) :
    Go ApplyError (GoMap Nat Partition) := do
  let items ← addReplica appendedAt items x.partitionId x.serverId
    (if x.voter then .voter else .nonVoter)
  onPartition items x.partitionId fun part => .ok { part with assignmentsVersion := 1 }

def applyInitAssignments (f : Fsm) (appendedAt : Time) (cmd : InitAssignments) :
    Go ApplyError (Fsm × Result) := do
  let p ← deref f.partitions
  rejectIf p.hasAssignments .invalidRequest
  validateInitAssignments f cmd
  let items ← cmd.add.foldlM (initAdd appendedAt) p.items
  return ({ f with partitions := some ⟨1, 1, items, cmd.maxImbalance⟩ }, .updated 1)

def isValidReplicaTransition (replica : Option Replica) : ReplicaState → Bool
  | .joining => replica.isNone
  | .voter => replica.any fun r => r.state == .joining || r.state == .nonVoter
  | .nonVoter => replica.any fun r => r.state == .joining || r.state == .voter
  | .leaving => replica.isSome
  | .stopped | .other _ => false

def checkAdd (f : Fsm) (p : Partitions) (x : Add) : Go ApplyError Unit := do
  rejectIf (¬isValidPartitionId f x.partitionId) (.error "has invalid Add fields")
  rejectIf (¬(← isValidDataServer f x.serverId)) (.error "has invalid Add fields")
  let part ← deref (p.items.get x.partitionId)
  rejectIf (part.replicaForServer x.serverId).isSome (.error ("has partition "
    ++ toString x.partitionId ++ " with replicas on the same server " ++ toString x.serverId))

def checkUpdate (f : Fsm) (p : Partitions) (x : Update) : Go ApplyError Unit := do
  rejectIf (¬isValidPartitionId f x.partitionId) (.error "has invalid Update fields")
  let part ← deref (p.items.get x.partitionId)
  rejectIf (part.replicas.get x.replica).isNone (.error "has invalid Update fields")
  rejectIf (¬isValidReplicaTransition (part.replicas.get x.replica) x.state)
    (.error "has invalid state transition")
  rejectIf (¬x.state.isServing ∧ part.servingReplicaCount = 1
      ∧ (part.replicas.get x.replica).any fun r => r.state.isServing)
    (.error ("cannot remove last serving replica " ++ x.replica))

def checkRemove (f : Fsm) (p : Partitions) (x : Remove) : Go ApplyError Unit := do
  rejectIf (¬isValidPartitionId f x.partitionId) (.error "has invalid Remove fields")
  let part ← deref (p.items.get x.partitionId)
  rejectIf (part.replicas.get x.replica).isNone (.error "has invalid Remove fields")
  let replica ← deref (part.replicas.get x.replica)
  rejectIf (replica.state ≠ .leaving)
    (.error ("cannot remove non-leaving replica " ++ x.replica))

def validateUpdateAssignments (f : Fsm) (p : Partitions) (cmd : UpdateAssignments) :
    Go ApplyError Unit := do
  rejectIf cmd.isEmpty (.error "is empty")
  cmd.add.forM (checkAdd f p)
  cmd.update.forM (checkUpdate f p)
  cmd.remove.forM (checkRemove f p)

def addItem (appendedAt : Time) (items : GoMap Nat Partition) (x : Add) :
    Go ApplyError (GoMap Nat Partition) :=
  addReplica appendedAt items x.partitionId x.serverId .joining

def updateItem (appendedAt : Time) (items : GoMap Nat Partition) (x : Update) :
    Go ApplyError (GoMap Nat Partition) :=
  onPartition items x.partitionId fun part => do
    let replica ← deref (part.replicas.get x.replica)
    let replica := { replica with state := x.state, stateTransitionTime := appendedAt }
    return { part with replicas := part.replicas.store x.replica replica }

def removeItem (items : GoMap Nat Partition) (x : Remove) : Go ApplyError (GoMap Nat Partition) :=
  onPartition items x.partitionId fun part =>
    .ok { part with replicas := part.replicas.delete x.replica }

def bumpVersion (items : GoMap Nat Partition) (pid : Nat) : Go ApplyError (GoMap Nat Partition) :=
  onPartition items pid fun part =>
    .ok { part with assignmentsVersion := part.assignmentsVersion + 1 }

def UpdateAssignments.changed (cmd : UpdateAssignments) : List Nat :=
  (cmd.add.map (·.partitionId) ++ cmd.update.map (·.partitionId)
    ++ cmd.remove.map (·.partitionId)).dedup

def changeItems (appendedAt : Time) (items : GoMap Nat Partition) (cmd : UpdateAssignments) :
    Go ApplyError (GoMap Nat Partition) := do
  let items ← cmd.add.foldlM (addItem appendedAt) items
  let items ← cmd.update.foldlM (updateItem appendedAt) items
  let items ← cmd.remove.foldlM removeItem items
  cmd.changed.foldlM bumpVersion items

def applyUpdateAssignments (f : Fsm) (appendedAt : Time) (cmd : UpdateAssignments) :
    Go ApplyError (Fsm × Result) := do
  let p ← deref f.partitions
  rejectIf (cmd.ifMatch ≠ 0 ∧ cmd.ifMatch ≠ p.assignmentsVersion) .failedPrecondition
  rejectIf (¬p.hasAssignments) .invalidRequest
  validateUpdateAssignments f p cmd
  let items ← changeItems appendedAt p.items cmd
  let p : Partitions := ⟨p.version + 1, p.assignmentsVersion + 1, items, cmd.maxImbalance⟩
  return ({ f with partitions := some p }, .updated p.assignmentsVersion)

/-! ### Apply, Snapshot, Restore -/

def applyPayload (f : Fsm) (appendedAt : Time) : Payload → Go ApplyError (Fsm × Result)
  | .bootstrap cmd => applyBootstrap f appendedAt cmd
  | .register cmd => applyRegister f appendedAt cmd
  | .updateStatus cmd => applyUpdateStatus f cmd
  | .initAssignments cmd => applyInitAssignments f appendedAt cmd
  | .updateAssignments cmd => applyUpdateAssignments f appendedAt cmd

def applyCommand (f : Fsm) (appendedAt : Time) (cmd : Command) : Go ApplyError (Fsm × Result) := do
  rejectIf (cmd.ifMatch ≠ 0 ∧ cmd.ifMatch ≠ f.version) .failedPrecondition
  let payload ← deref cmd.payload
  let (f, result) ← applyPayload f appendedAt payload
  return ({ f with version := f.version + 1 }, result)

/-- Apply an entry of the log; `none` if the process panics. -/
def apply (f : Fsm) (e : Entry) : Option (Fsm × Answer) :=
  match e.data with
  | none => some ({ f with index := e.index }, .error .unmarshalFailed)
  | some cmd =>
    match applyCommand f e.appendedAt cmd with
    | .ok (f', result) => some ({ f' with index := e.index }, .ok result)
    | .error (.err err) => some ({ f with index := e.index }, .error err)
    | .error .panic => none

/-- The cluster message, as it is decoded from the bytes of a snapshot. -/
def snapshot (f : Fsm) : Fsm :=
  { f with servers := f.servers.map Servers.wire, partitions := f.partitions.map Partitions.wire }

/-- All fields are replaced, whatever the state machine held before. -/
def restore (_f c : Fsm) : Fsm := c

inductive Step where
  | apply (e : Entry)
  | restore

def Step.payload : Step → Option Payload
  | .apply e => e.data.bind Command.payload
  | .restore => none

def step (f : Fsm) : Step → Option Fsm
  | .apply e => (apply f e).map Prod.fst
  | .restore => some (restore newFsm (snapshot f))

end Scout.Control
