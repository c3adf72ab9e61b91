import Scout.Lib.Bytes
import Mathlib.Algebra.Order.Ring.Int

/-!
The transaction messages of `internal/data/data.proto`: what a client sends to
a partition, what the partition keeps about it, and what it answers. Numbers
are `Nat`; the few places where the 64-bit width of a timestamp is visible are
written out where they occur. Fields that carry only log tracing are left out.
-/

namespace Scout.Data

abbrev Byte := Fin 256

abbrev Bytes := List Byte

/-- `math.MaxUint64`. -/
def maxUint64 : Nat := 2 ^ 64 - 1

/-- `x - 1` on `uint64`: zero wraps to the largest value. -/
def decUint64 (x : Nat) : Nat := if x = 0 then maxUint64 else x - 1

theorem decUint64_of_pos {x : Nat} (h : 0 < x) : decUint64 x = x - 1 := by
  unfold decUint64
  rw [if_neg (by omega)]

structure TxnId where
  principalPid : Nat
  serverId : Nat
  timestamp : Nat
  deriving DecidableEq, Repr

structure KeyLock where
  keyspace : Nat
  key : Bytes
  exclusive : Bool
  deriving DecidableEq, Repr

structure RangeLock where
  keyspace : Nat
  startKey : Bytes
  endKey : Bytes
  exclusive : Bool
  deriving DecidableEq, Repr

inductive LockKeyCheck where
  | none | mustExist | mustNotExist
  deriving DecidableEq, Repr

inductive LockRangeCheck where
  | none | mustBeEmpty | mustNotBeEmpty
  deriving DecidableEq, Repr

/-- The `oneof payload` of an action. -/
inductive Payload where
  | read (keyspace : Nat) (key : Bytes)
  | readRange (keyspace : Nat) (startKey endKey : Bytes) (maxResults : Nat)
  | insert (keyspace : Nat) (key value : Bytes)
  | update (keyspace : Nat) (key value : Bytes)
  | upsert (keyspace : Nat) (key value : Bytes)
  | delete (keyspace : Nat) (key : Bytes)
  | lockKey (lock : KeyLock) (check : LockKeyCheck)
  | lockRange (lock : RangeLock) (check : LockRangeCheck)
  deriving DecidableEq, Repr

/-- An unset `oneof` is `none`; every switch over it has a default branch. -/
structure Action where
  id : Nat
  payload : Option Payload
  deriving DecidableEq, Repr

structure Txn where
  id : TxnId
  actions : List Action
  /-- Sent to the principal partition only. -/
  participantPids : List Nat := []
  deriving DecidableEq, Repr

inductive State where
  | pending | prepared | committed | aborted | failed | timedout | decided
  deriving DecidableEq, Repr

/-- `TxnStatus_State.IsFinal`. -/
def State.isFinal : State → Bool
  | .pending | .prepared | .decided => false
  | .committed | .aborted | .failed | .timedout => true

inductive Code where
  | success | keyNotFound | keyAlreadyExists | lockCheckFailed | lockFailed | corruptedData
  deriving DecidableEq, Repr

structure ActionStatus where
  id : Nat
  code : Code
  results : List Bytes := []
  deriving DecidableEq, Repr

/-- `actionStatus = none` is the nil map left by `newStatus`. -/
structure TxnStatus where
  id : TxnId
  timestamp : Nat
  state : State
  actionStatus : Option (List (Nat × ActionStatus)) := none
  participantPids : List Nat := []
  deriving DecidableEq, Repr

structure Decision where
  id : TxnId
  commit : Bool
  commitTimestamp : Nat
  deriving DecidableEq, Repr

/-- The errors of `internal/errors` that the transaction code returns. -/
inductive Err where
  | notFound | failedPrecondition | invalidRequest | permissionDenied | timeOutOfRange
  | unavailable | notLeader
  deriving DecidableEq, Repr

/-! ## Commands of the Raft log -/

structure Autocommit where
  timestamp : Nat
  txn : Txn
  deriving DecidableEq, Repr

structure Prepare where
  timestamp : Nat
  txn : Txn
  deriving DecidableEq, Repr

structure Commit where
  timestamp : Nat
  id : TxnId
  deriving DecidableEq, Repr

structure Abort where
  timestamp : Nat
  id : TxnId
  deriving DecidableEq, Repr

structure StoreDecision where
  timestamp : Nat
  decision : Decision
  deriving DecidableEq, Repr

/-- Applied twice for each timed out txn; the second one releases the locks. -/
structure MarkTimedout where
  timestamp : Nat
  id : TxnId
  releaseLocks : Bool
  deriving DecidableEq, Repr

structure TxnBatch where
  autocommit : List Autocommit := []
  prepare : List Prepare := []
  commit : List Commit := []
  abort : List Abort := []
  storeDecision : List StoreDecision := []
  markTimedout : List MarkTimedout := []
  maxTimestamp : Nat := 0
  deriving DecidableEq, Repr

/-! ## Status constructors (`status.go`) -/

def newStatus (id : TxnId) (timestamp : Nat) (state : State) : TxnStatus :=
  { id, timestamp, state }

def newFailedStatus (id : TxnId) (timestamp actionId : Nat) (code : Code) : TxnStatus :=
  { id, timestamp, state := .failed,
    actionStatus := some [(actionId, { id := actionId, code })] }

def newEmptyStatus (txn : Txn) (timestamp : Nat) (state : State) : TxnStatus :=
  { id := txn.id, timestamp, state, actionStatus := some [] }

end Scout.Data
