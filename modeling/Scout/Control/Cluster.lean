import Scout.Lib.Go

/-!
The cluster state that the control plane replicates: servers, partitions and the
replicas assigned to them. Times are nanoseconds; a timestamp that may be unset
is an `Option`.
-/

namespace Scout.Control

open Lib

abbrev Time := Int

inductive ServerType where
  | unknown
  | control
  | data
  | api
  | other (n : Int)
  deriving DecidableEq, Repr

structure Server where
  id : Nat
  name : String
  type : ServerType
  tags : List String
  registeredAt : Time
  lastSeen : Option Time
  lastAddress : String
  deriving DecidableEq, Repr

structure Servers where
  version : Nat
  registerVersion : Nat
  items : GoMap Nat Server
  lastId : Nat
  tokens : GoMap String Nat

inductive ReplicaState where
  | stopped
  | joining
  | voter
  | nonVoter
  | leaving
  | other (n : Int)
  deriving DecidableEq, Repr

def ReplicaState.isServing (s : ReplicaState) : Bool := s == .voter || s == .nonVoter

structure Replica where
  name : String
  serverId : Nat
  state : ReplicaState
  createdTime : Time
  stateTransitionTime : Time
  lastUpdate : Option Time
  appliedIndex : Nat
  ready : Bool
  deriving DecidableEq, Repr

structure Partition where
  id : Nat
  replicas : GoMap String Replica
  lastReplicaId : Nat
  assignmentsVersion : Nat
  leader : String
  leaderTerm : Nat
  leaderAppliedIndex : Nat
  commitedIndex : Nat

structure Partitions where
  version : Nat
  assignmentsVersion : Nat
  items : GoMap Nat Partition
  maxImbalance : Nat

def Partitions.hasAssignments (p : Partitions) : Bool := decide (0 < p.assignmentsVersion)

namespace Partition

/-- The map is searched in an arbitrary order, so with several replicas on one
server any of them may be returned; callers only ask whether there is one. -/
def replicaForServer (p : Partition) (serverId : Nat) : Option Replica :=
  (p.replicas.toList.map Prod.snd).find? fun x => x.serverId == serverId

def servingReplicaCount (p : Partition) : Nat :=
  (p.replicas.toList.map Prod.snd).countP fun x => x.state.isServing

theorem replicaForServer_eq_none {p : Partition} {sid : Nat} : p.replicaForServer sid = none ↔
      ∀ name r, p.replicas.get name = some r → r.serverId ≠ sid := by
  unfold replicaForServer
  rw [List.find?_eq_none]
  constructor
  · intro h name r hr hs
    exact h r (List.mem_map.mpr ⟨(name, r), GoMap.mem_toList.mpr hr, rfl⟩) (by simp [hs])
  · intro h r hr
    obtain ⟨⟨name, _⟩, hm, rfl⟩ := List.mem_map.mp hr
    have hne := h name _ (GoMap.mem_toList.mp hm)
    simpa using hne

def Served (p : Partition) : Prop :=
  ∃ name r, p.replicas.get name = some r ∧ r.state.isServing = true

theorem servingReplicaCount_pos {p : Partition} : 0 < p.servingReplicaCount ↔ p.Served := by
  unfold servingReplicaCount Served
  rw [List.countP_pos_iff]
  constructor
  · rintro ⟨r, hr, hs⟩
    obtain ⟨⟨name, _⟩, hm, rfl⟩ := List.mem_map.mp hr
    exact ⟨name, _, GoMap.mem_toList.mp hm, hs⟩
  · rintro ⟨name, r, hr, hs⟩
    exact ⟨r, List.mem_map.mpr ⟨(name, r), GoMap.mem_toList.mpr hr, rfl⟩, hs⟩

end Partition

/-! ## Protobuf round trip -/

def Partition.wire (p : Partition) : Partition := { p with replicas := p.replicas.wire }

def Servers.wire (s : Servers) : Servers :=
  { s with items := s.items.wire, tokens := s.tokens.wire }

def Partitions.wire (p : Partitions) : Partitions :=
  { p with items := (p.items.mapValues Partition.wire).wire }

end Scout.Control
