import Scout.Control.Fsm
import Scout.Lib.KeySet
import Mathlib.Data.List.Sort

/-!
The partition assigner of the control leader: the state it plans on, the passes of
the transition to the next state, and the command that it sends.

The order in which Go iterates over a map, an unstable sort and the random numbers
are choices that are not determined by the input. They are a parameter: every pass
asks `Choices` for some order of the keys. A panic is `none`.
-/

namespace Scout.Partitions

open Lib Control

structure Config where
  replicationFactor : Int
  maxJoining : Int
  maxJoiningForServer : Int
  maxJoiningForPartition : Int

structure ReplicaState where
  pid : Nat
  name : String
  createdTime : Time
  ready : Bool
  deriving DecidableEq, Repr

/-- The partitions of a server, or the servers of a partition, by role. -/
structure Sets where
  id : Nat
  serving : KeySet Nat
  joining : KeySet Nat
  leaving : KeySet Nat
  deriving DecidableEq

abbrev ServerState := Sets

abbrev PartitionState := Sets

/-- The fields of an entry that does not exist are read as empty. -/
def Sets.new (id : Nat) : Sets := ⟨id, .empty, .empty, .empty⟩

/-- Leaving replicas are considered to be removed already. -/
def Sets.totalCount (x : Sets) : Int := x.joining.size + x.serving.size

def Sets.joiningCount (x : Sets) : Int := x.joining.size

def Sets.servingCount (x : Sets) : Int := x.serving.size

structure State where
  serv : AList fun _ : Nat => ServerState
  part : AList fun _ : Nat => PartitionState
  replica : AList fun _ : Nat × Nat => ReplicaState
  joining : Int

namespace State

def new : State := ⟨∅, ∅, ∅, 0⟩

def addServer (s : State) (sid : Nat) : State :=
  if (s.serv.lookup sid).isSome then s
  else { s with serv := s.serv.insert sid (Sets.new sid) }

def addPartition (s : State) (pid : Nat) : State :=
  if (s.part.lookup pid).isSome then s
  else { s with part := s.part.insert pid (Sets.new pid) }

def server (s : State) (sid : Nat) : ServerState := (s.serv.lookup sid).getD (Sets.new 0)

def partition (s : State) (pid : Nat) : PartitionState := (s.part.lookup pid).getD (Sets.new 0)

/-- The sets of an entry that does not exist are nil maps. -/
def writable (s : State) (sid pid : Nat) : Bool :=
  (s.serv.lookup sid).isSome && (s.part.lookup pid).isSome

/-- Change the sets of the server and of the partition in the same way; `f` is given
the other id. -/
def modify (s : State) (sid pid : Nat) (f : Nat → Sets → Sets) : State :=
  { s with
    serv := match s.serv.lookup sid with
      | some x => s.serv.insert sid (f pid x)
      | none => s.serv
    part := match s.part.lookup pid with
      | some y => s.part.insert pid (f sid y)
      | none => s.part }

def addServing (s : State) (sid pid : Nat) : Option State :=
  if s.writable sid pid then
    some (s.modify sid pid fun k x => { x with serving := x.serving.insert k })
  else none

def addJoining (s : State) (sid pid : Nat) : Option State :=
  if s.writable sid pid then
    let s := s.modify sid pid fun k x => { x with joining := x.joining.insert k }
    some { s with joining := s.joining + 1 }
  else none

def addLeaving (s : State) (sid pid : Nat) : Option State :=
  if s.writable sid pid then
    some (s.modify sid pid fun k x => { x with leaving := x.leaving.insert k })
  else none

def transitionJoiningToServing (s : State) (sid pid : Nat) : Option State :=
  if s.writable sid pid then
    let s := s.modify sid pid fun k x =>
      { x with serving := x.serving.insert k, joining := x.joining.erase k }
    some { s with joining := s.joining - 1 }
  else none

def transitionServingToLeaving (s : State) (sid pid : Nat) : Option State :=
  if s.writable sid pid then
    some (s.modify sid pid fun k x =>
      { x with leaving := x.leaving.insert k, serving := x.serving.erase k })
  else none

/-- Deleting from a nil map does nothing. -/
def removeLeaving (s : State) (sid pid : Nat) : State :=
  s.modify sid pid fun k x => { x with leaving := x.leaving.erase k }

def addReplica (s : State) (sid pid : Nat) (state : ReplicaState) : State :=
  { s with replica := s.replica.insert (sid, pid) state }

def getReplica (s : State) (sid pid : Nat) : Option ReplicaState := s.replica.lookup (sid, pid)

def hasReplica (s : State) (sid pid : Nat) : Bool :=
  (s.getReplica sid pid).isSome || decide (sid ∈ (s.partition pid).joining)
    || decide (sid ∈ (s.partition pid).serving) || decide (sid ∈ (s.partition pid).leaving)

def partitionCount (s : State) : Nat := s.part.entries.length

def maxInt : Int := 2 ^ 63 - 1

def maxImbalance (s : State) : Int :=
  let counts := s.serv.entries.map fun e => e.2.totalCount
  counts.foldl max 0 - counts.foldl min maxInt

end State

/-! ## The passes -/

/-- Some order of the keys, for each place that asks for one. -/
structure Choices where
  order : List Nat → List Nat → List Nat
  perm : ∀ tag keys, (order tag keys).Perm keys

def inOrder : Choices := ⟨fun _ keys => keys, fun _ keys => List.Perm.refl keys⟩

def removeIfReady (sid : Nat) (s : State) (pid : Nat) : Option State := do
  let replica ← s.getReplica sid pid
  if replica.ready then some (s.removeLeaving sid pid) else some s

def serveIfReady (sid : Nat) (s : State) (pid : Nat) : Option State := do
  let replica ← s.getReplica sid pid
  if replica.ready then s.transitionJoiningToServing sid pid else some s

section Passes

variable (config : Config) (ch : Choices)

def removeLeavingServer (s : State) (sid : Nat) : Option State :=
  let server := s.server sid
  (ch.order [0, sid] server.leaving.elems).foldlM (removeIfReady server.id) s

def removeLeaving (s : State) : Option State :=
  (ch.order [0] s.serv.keys).foldlM (removeLeavingServer ch) s

def transitionServer (s : State) (sid : Nat) : Option State :=
  let server := s.server sid
  (ch.order [1, sid] server.joining.elems).foldlM (serveIfReady server.id) s

def transitionToServing (s : State) : Option State :=
  (ch.order [1] s.serv.keys).foldlM (transitionServer ch) s

def canAddReplica (s : State) (sid pid : Nat) : Bool :=
  decide (s.joining < config.maxJoining)
    && decide ((s.server sid).joiningCount < config.maxJoiningForServer)
    && decide ((s.partition pid).joiningCount < config.maxJoiningForPartition)
    && !s.hasReplica sid pid

/-- Servers with less replicas first, then with less joining replicas. -/
def LessLoaded (s : State) (i j : Nat) : Prop :=
  (s.server i).totalCount < (s.server j).totalCount ∨
    (s.server i).totalCount = (s.server j).totalCount ∧
      (s.server i).joiningCount ≤ (s.server j).joiningCount

instance (s : State) : DecidableRel (LessLoaded s) :=
  fun _ _ => inferInstanceAs (Decidable (_ ∨ _))

def addFirst (pid : Nat) : List Nat → Int → State → Option State
  | [], _, s => some s
  | sid :: candidates, count, s =>
    if count ≤ 0 then some s
    else if canAddReplica config s sid pid then do
      let s ← s.addJoining sid pid
      addFirst pid candidates (count - 1) s
    else addFirst pid candidates count s

def addMissing (s : State) (pid : Nat) : Option State :=
  let part := s.partition pid
  let count := min (config.replicationFactor - part.totalCount)
    (config.maxJoiningForPartition - part.joiningCount)
  if count ≤ 0 then some s
  else
    let candidates := (ch.order [2, pid] s.serv.keys).filter fun sid => !s.hasReplica sid pid
    addFirst config pid (candidates.insertionSort (LessLoaded s)) count s

/-- Servers with more replicas first, then older replicas. -/
def LeavesFirst (s : State) (pid i j : Nat) : Prop :=
  (s.server j).totalCount < (s.server i).totalCount ∨
    (s.server i).totalCount = (s.server j).totalCount ∧
      ((s.getReplica i pid).map ReplicaState.createdTime).getD 0 ≤
        ((s.getReplica j pid).map ReplicaState.createdTime).getD 0

instance (s : State) (pid : Nat) : DecidableRel (LeavesFirst s pid) :=
  fun _ _ => inferInstanceAs (Decidable (_ ∨ _))

def leaveFirst (pid : Nat) : List Nat → Int → State → Option State
  | [], _, s => some s
  | sid :: candidates, count, s =>
    if count ≤ 0 then some s
    else do
      let s ← s.transitionServingToLeaving sid pid
      leaveFirst pid candidates (count - 1) s

/-- Comparing a candidate without a replica entry is a nil dereference. -/
def removeExtra (s : State) (pid : Nat) : Option State :=
  let part := s.partition pid
  let count := part.servingCount - config.replicationFactor
  if count ≤ 0 then some s
  else
    let candidates := ch.order [3, pid] part.serving.elems
    if candidates.all fun sid => (s.getReplica sid pid).isSome then
      leaveFirst pid (candidates.insertionSort (LeavesFirst s pid)) count s
    else none

/-- Go through the less loaded servers, the least loaded one first. -/
def findDest (tag : List Nat) (s : State) (src : ServerState) :
    List ServerState → Option (Nat × Nat)
  | [] => none
  | dest :: dests =>
    if src.totalCount - dest.totalCount ≤ 1 then none
    else
      let candidates := src.serving.elems.filter fun pid => canAddReplica config s dest.id pid
      match ch.order (src.id :: dest.id :: tag) candidates with
      | [] => findDest tag s src dests
      | pid :: _ => some (dest.id, pid)

def findMove (tag : List Nat) (s : State) : List ServerState → Option (Nat × Nat)
  | [] => none
  | src :: servers =>
    match findDest config ch tag s src servers.reverse with
    | some move => some move
    | none => findMove tag s servers

/-- The servers, those with more replicas first. -/
def byLoad (tag : List Nat) (s : State) : List ServerState :=
  ((ch.order tag s.serv.keys).map s.server).insertionSort fun s1 s2 =>
    s2.totalCount ≤ s1.totalCount

/-- The loop; it is run with fuel, and `none` also if that is used up. -/
def rebalance : Nat → State → Option State
  | 0, _ => none
  | fuel + 1, s =>
    match findMove config ch [4, fuel] s (byLoad ch [4, fuel] s) with
    | none => some s
    | some (dest, pid) => do
      let s ← s.addJoining dest pid
      rebalance fuel s

/-- Each iteration of the loop adds a joining replica, up to the limit. -/
def rebalanceFuel (s : State) : Nat := (config.maxJoining - s.joining).toNat + 1

def nextState (curr : State) : Option State := do
  let s ← removeLeaving ch curr
  let s ← transitionToServing ch s
  let s ← (List.range curr.partitionCount).foldlM (addMissing config ch) s
  let s ← (List.range curr.partitionCount).foldlM (removeExtra config ch) s
  if 1 < s.maxImbalance then rebalance config ch (rebalanceFuel config s) s else some s

end Passes

/-! ## From and to the state machine -/

def makeReplica (pid : Nat) (s : State) (x : String × Replica) : Option State := do
  let sid := x.2.serverId
  let s ← if x.2.state.isServing then s.addServing sid pid
    else match x.2.state with
      | .joining => s.addJoining sid pid
      | .leaving => s.addLeaving sid pid
      | .stopped | .voter | .nonVoter | .other _ => none
  return s.addReplica sid pid ⟨pid, x.1, x.2.createdTime, x.2.ready⟩

def makePartition (s : State) (x : Nat × Partition) : Option State :=
  x.2.replicas.toList.foldlM (makeReplica x.1) (s.addPartition x.1)

def dataServers (servers : Servers) : List Nat :=
  (servers.items.toList.filter fun e => e.2.type == .data).map Prod.fst

def makeState (servers : Servers) (partitions : Control.Partitions) : Option State :=
  partitions.items.toList.foldlM makePartition
    ((dataServers servers).foldl State.addServer State.new)

def replicaNames (next : State) (pid : Nat) (sids : List Nat) : Option (List String) :=
  sids.mapM fun sid => (next.getReplica sid pid).map ReplicaState.name

def planPartition (ch : Choices) (curr next : State) (cmd : UpdateAssignments) (pid : Nat) :
    Option UpdateAssignments := do
  let currPart := curr.partition pid
  let nextPart := next.partition pid
  let joining := (ch.order [5, pid] nextPart.joining.elems).filter (· ∉ currPart.joining)
  let serving ← replicaNames next pid
    ((ch.order [6, pid] nextPart.serving.elems).filter (· ∉ currPart.serving))
  let leaving ← replicaNames next pid
    ((ch.order [7, pid] nextPart.leaving.elems).filter (· ∉ currPart.leaving))
  let removed ← replicaNames next pid
    ((ch.order [8, pid] currPart.leaving.elems).filter (· ∉ nextPart.leaving))
  return { cmd with
    add := cmd.add ++ joining.map fun sid => ⟨pid, sid⟩
    update := cmd.update ++ serving.map (fun name => ⟨pid, name, .voter⟩)
      ++ leaving.map fun name => ⟨pid, name, .leaving⟩
    remove := cmd.remove ++ removed.map fun name => ⟨pid, name⟩ }

def makeUpdateAssignments (ch : Choices) (version : Nat) (curr next : State) :
    Option UpdateAssignments :=
  (ch.order [9] next.part.keys).foldlM (planPartition ch curr next)
    ⟨version, [], [], [], (next.maxImbalance % 2 ^ 32).toNat⟩

end Scout.Partitions
