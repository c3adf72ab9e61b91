import Scout.Storage.Mvcc
import Scout.Lib.Loop

/-!
The replicated transaction state machine of one partition
(`internal/data/server/txn/manager*.go`): the `Manager`, the six commands of
the Raft log and `ApplyBatch`. Each command is a function from the state to
the next state and an `Outcome`. Meters and log lines are left out.
-/

namespace Scout.Txn

open Data Mvcc Lib

structure Prepared where
  txn : Txn
  timestamp : Nat
  locks : List Lock
  locksReleased : Bool := false
  decision : Option Decision := none
  deriving DecidableEq, Repr

structure Manager where
  pid : Nat
  cleanAfter : Int
  status : AList (fun _ : TxnId => TxnStatus) := ∅
  prepared : AList (fun _ : TxnId => Prepared) := ∅
  maxTimestamp : Nat := 0

def newManager (pid : Nat) (cleanAfter : Int) : Manager := { pid, cleanAfter }

abbrev BatchResult := Except Err TxnStatus

/-- What a command hands back to `ApplyBatch`: its answer, the records to write
and the txn whose locks are released once the batch is written. -/
structure Outcome where
  result : BatchResult
  writes : List Record := []
  completion : Option TxnId := none

structure BatchResults where
  autocommit : List BatchResult
  prepare : List BatchResult
  commit : List BatchResult
  abort : List BatchResult
  storeDecision : List BatchResult
  markTimedout : List BatchResult

/-! ## Locks (`manager_locks.go`) -/

def Manager.checkLock (m : Manager) (lock : Lock) : Bool :=
  m.prepared.entries.all fun e =>
    e.2.locksReleased || e.2.locks.all fun other => lock.compatibleWith other

def Manager.checkLocks (m : Manager) (id : TxnId) (timestamp : Nat) (locks : List Lock) :
    Option TxnStatus :=
  (locks.find? fun lock => !m.checkLock lock).map fun lock =>
    newFailedStatus id timestamp lock.actionId .lockFailed

def Prepared.releaseLocks (p : Prepared) : Prepared :=
  { p with locks := [], locksReleased := true }

def Manager.releaseLocks (m : Manager) (id : TxnId) : Manager :=
  match m.prepared.lookup id with
  | some p => { m with prepared := m.prepared.insert id p.releaseLocks }
  | none => m

/-- A prepared txn always has a status; the source relies on it when it reads
the state here. -/
def Manager.isFinal (m : Manager) (id : TxnId) : Bool :=
  match m.status.lookup id with
  | some s => s.state.isFinal
  | none => false

def Manager.safeTimestampForLock (m : Manager) (lock : Lock) : Nat :=
  m.prepared.entries.foldl (fun result e =>
    if e.2.locksReleased then result
    else if m.isFinal e.1 then result
    else if e.2.locks.any fun other => !lock.compatibleWith other then min result e.2.timestamp
    else result) maxUint64

def Manager.safeTimestampForLocks (m : Manager) (locks : List Lock) : Nat × Bool :=
  let conflicting := locks.foldl (fun c lock => min c (m.safeTimestampForLock lock)) maxUint64
  if conflicting = maxUint64 then (m.maxTimestamp, false)
  else (min m.maxTimestamp (decUint64 conflicting), true)

def Manager.getSafeTimestamp (m : Manager) (txn : Txn) : Nat × Bool :=
  m.safeTimestampForLocks txn.buildLocks

/-! ## Validation and write records -/

/-- What the validation asks of the engine. -/
structure Reads where
  exists_ : Nat → Address → Bool
  existsInRange : Nat → Address → Address → Bool

/-- The reads of the default engine. -/
def storeReads (db : Store) : Reads := ⟨db.exists, db.existsInRange⟩

instance : Coe Store Reads := ⟨storeReads⟩

@[simp]
theorem storeReads_exists (db : Store) : (storeReads db).exists_ = db.exists := rfl

@[simp]
theorem storeReads_existsInRange (db : Store) :
    (storeReads db).existsInRange = db.existsInRange := rfl

/-- Validation of one action against the engine just before `timestamp`. -/
def validateAction (db : Reads) (timestamp : Nat) (a : Action) : Option Code :=
  match a.payload with
  | some (.insert ks k _) =>
    if db.exists_ (decUint64 timestamp) ⟨ks, k⟩ then some .keyAlreadyExists else none
  | some (.update ks k _) =>
    if !db.exists_ (decUint64 timestamp) ⟨ks, k⟩ then some .keyNotFound else none
  | some (.delete ks k) =>
    if !db.exists_ (decUint64 timestamp) ⟨ks, k⟩ then some .keyNotFound else none
  | some (.lockKey l check) =>
    if check = .none then none
    else if db.exists_ (decUint64 timestamp) ⟨l.keyspace, l.key⟩ != (check == .mustExist) then
      some .lockCheckFailed
    else none
  | some (.lockRange l check) =>
    if check = .none then none
    else if db.existsInRange (decUint64 timestamp) ⟨l.keyspace, l.startKey⟩
        ⟨l.keyspace, l.endKey⟩ != (check == .mustNotBeEmpty) then
      some .lockCheckFailed
    else none
  | _ => none

def validate (db : Reads) (id : TxnId) (timestamp : Nat) (txn : Txn) : Option TxnStatus :=
  txn.actions.findSome? fun a =>
    (validateAction db timestamp a).map (newFailedStatus id timestamp a.id)

/-- Base-128 varint of the protobuf wire format; ten groups hold 64 bits. -/
def varint : Nat → Nat → Bytes
  | 0, _ => []
  | fuel + 1, n =>
    if n < 128 then [Fin.ofNat 256 n] else Fin.ofNat 256 (n % 128 + 128) :: varint fuel (n / 128)

/-- The protobuf encoding of `Value{Bytes: v}`: field 1, length-delimited. -/
def mustEncodeValue (v : Bytes) : Bytes := Fin.ofNat 256 10 :: (varint 10 v.length ++ v)

def writeRecord (timestamp : Nat) (a : Action) : Option Record :=
  match a.payload with
  | some (.insert ks k v) => some ⟨⟨ks, k⟩, timestamp, mustEncodeValue v, flagEmpty⟩
  | some (.update ks k v) => some ⟨⟨ks, k⟩, timestamp, mustEncodeValue v, flagEmpty⟩
  | some (.upsert ks k v) => some ⟨⟨ks, k⟩, timestamp, mustEncodeValue v, flagEmpty⟩
  | some (.delete ks k) => some ⟨⟨ks, k⟩, timestamp, [], flagTombstone⟩
  | _ => none

def buildWriteRecords (timestamp : Nat) (txn : Txn) : List Record :=
  txn.actions.filterMap (writeRecord timestamp)

/-! ## Commands (`manager_apply.go`) -/

def Manager.applyAutocommit (m : Manager) (db : Reads) (cmd : Autocommit) : Manager × Outcome :=
  let id := cmd.txn.id
  match m.status.lookup id with
  | some status =>
    match status.state with
    | .committed | .failed => (m, { result := .ok status })
    | _ => (m, { result := .error .failedPrecondition })
  | none =>
    match m.checkLocks id cmd.timestamp cmd.txn.buildLocks with
    | some failed => (m, { result := .ok failed })
    | none =>
      match validate db id cmd.timestamp cmd.txn with
      | some failed => (m, { result := .ok failed })
      | none =>
        let status := newStatus id cmd.timestamp .committed
        ({ m with status := m.status.insert id status },
          { result := .ok status, writes := buildWriteRecords cmd.timestamp cmd.txn })

def Manager.applyPrepare (m : Manager) (db : Reads) (cmd : Prepare) : Manager × Outcome :=
  let id := cmd.txn.id
  match m.status.lookup id with
  | some status =>
    match status.state with
    | .prepared | .failed => (m, { result := .ok status })
    | _ => (m, { result := .error .failedPrecondition })
  | none =>
    match m.checkLocks id cmd.timestamp cmd.txn.buildLocks with
    | some failed => (m, { result := .ok failed })
    | none =>
      match validate db id cmd.timestamp cmd.txn with
      | some failed => (m, { result := .ok failed })
      | none =>
        let status := newStatus id cmd.timestamp .prepared
        let prepared : Prepared :=
          { txn := cmd.txn, timestamp := cmd.timestamp, locks := cmd.txn.buildLocks }
        ({ m with status := m.status.insert id status,
                  prepared := m.prepared.insert id prepared },
          { result := .ok status })

/-- The locks stay held until the batch is written: releasing them is the
completion, not part of the command. -/
def Manager.applyCommit (m : Manager) (cmd : Commit) : Manager × Outcome :=
  match m.status.lookup cmd.id with
  | none => (m, { result := .error .notFound })
  | some status =>
    match m.prepared.lookup cmd.id with
    | none => (m, { result := .error .notFound })
    | some prepared =>
      let commit :=
        let status := { newStatus cmd.id cmd.timestamp .committed with
          participantPids := prepared.txn.participantPids }
        ({ m with status := m.status.insert cmd.id status },
          { result := .ok status, writes := buildWriteRecords cmd.timestamp prepared.txn,
            completion := some cmd.id })
      match status.state with
      | .committed => (m, { result := .ok status })
      | .decided =>
        -- the principal partition stores the decision, so a decided txn always has one
        if cmd.timestamp ≠ (prepared.decision.map Decision.commitTimestamp).getD 0 then
          (m, { result := .error .invalidRequest })
        else commit
      | .prepared =>
        if cmd.timestamp < status.timestamp then (m, { result := .error .invalidRequest })
        else commit
      | _ => (m, { result := .error .failedPrecondition })

def Manager.applyAbort (m : Manager) (cmd : Abort) : Manager × Outcome :=
  match m.status.lookup cmd.id with
  | none => (m, { result := .error .notFound })
  | some status =>
    match m.prepared.lookup cmd.id with
    | none => (m, { result := .error .notFound })
    | some prepared =>
      match status.state with
      | .aborted => (m, { result := .ok status })
      | .timedout => (m, { result := .ok status })
      | .prepared =>
        let status := newStatus cmd.id cmd.timestamp .aborted
        ({ m with status := m.status.insert cmd.id status,
                  prepared := m.prepared.insert cmd.id prepared.releaseLocks },
          { result := .ok status })
      | _ => (m, { result := .error .failedPrecondition })

def Manager.applyStoreDecision (m : Manager) (cmd : StoreDecision) : Manager × Outcome :=
  let id := cmd.decision.id
  match m.status.lookup id with
  | none => (m, { result := .error .notFound })
  | some status =>
    if id.principalPid ≠ m.pid then (m, { result := .error .permissionDenied })
    else
      match m.prepared.lookup id with
      | none => (m, { result := .error .notFound })
      | some prepared =>
        match status.state with
        | .decided =>
          if (prepared.decision.map Decision.commit).getD false ≠ cmd.decision.commit then
            (m, { result := .error .failedPrecondition })
          else (m, { result := .ok status })
        | .timedout => (m, { result := .ok status })
        | .prepared =>
          if cmd.decision.commitTimestamp < status.timestamp then
            (m, { result := .error .invalidRequest })
          else
            let status := newStatus id cmd.timestamp .decided
            ({ m with status := m.status.insert id status,
                      prepared := m.prepared.insert id
                        { prepared with decision := some cmd.decision } },
              { result := .ok status })
        | _ => (m, { result := .error .failedPrecondition })

def Manager.applyMarkTimedout (m : Manager) (cmd : MarkTimedout) : Manager × Outcome :=
  match m.status.lookup cmd.id with
  | none => (m, { result := .error .notFound })
  | some status =>
    if cmd.id.principalPid ≠ m.pid then (m, { result := .error .permissionDenied })
    else
      match m.prepared.lookup cmd.id with
      | none => (m, { result := .error .notFound })
      | some prepared =>
        match status.state with
        | .timedout =>
          if cmd.releaseLocks then
            ({ m with prepared := m.prepared.insert cmd.id prepared.releaseLocks },
              { result := .ok status })
          else (m, { result := .ok status })
        | .prepared =>
          let status := newStatus cmd.id cmd.timestamp .timedout
          ({ m with status := m.status.insert cmd.id status }, { result := .ok status })
        | _ => (m, { result := .error .failedPrecondition })

/-! ## Batches -/

inductive Cmd where
  | abort (cmd : Abort)
  | markTimedout (cmd : MarkTimedout)
  | commit (cmd : Commit)
  | autocommit (cmd : Autocommit)
  | prepare (cmd : Prepare)
  | storeDecision (cmd : StoreDecision)
  deriving DecidableEq, Repr

def Cmd.id : Cmd → TxnId
  | .abort c => c.id
  | .markTimedout c => c.id
  | .commit c => c.id
  | .autocommit c => c.txn.id
  | .prepare c => c.txn.id
  | .storeDecision c => c.decision.id

def Manager.applyCmd (db : Reads) (m : Manager) : Cmd → Manager × Outcome
  | .abort c => m.applyAbort c
  | .markTimedout c => m.applyMarkTimedout c
  | .commit c => m.applyCommit c
  | .autocommit c => m.applyAutocommit db c
  | .prepare c => m.applyPrepare db c
  | .storeDecision c => m.applyStoreDecision c

/-- One of the loops of `ApplyBatch`: every command reads the store as it was
before the batch. -/
def Manager.runCmds (m : Manager) (db : Reads) (cmds : List Cmd) : Manager × List Outcome :=
  loop (Manager.applyCmd db) m cmds

/-- `FromTime`: nanoseconds as `uint64`. -/
def fromTime (t : Int) : Nat := (t % 2 ^ 64).toNat

/-- The filter of `cleanup`: old, final, and without held locks. -/
def Manager.removable (m : Manager) (oldest : Nat) (id : TxnId) (status : TxnStatus) : Bool :=
  if status.timestamp > oldest || !status.state.isFinal then false
  else
    match m.prepared.lookup id with
    | some x => x.locksReleased
    | none => true

def Manager.cleanup (m : Manager) (now : Int) : Manager :=
  let oldest := fromTime (now - m.cleanAfter)
  let toRemove := (m.status.entries.filter fun e => m.removable oldest e.1 e.2).map Sigma.fst
  { m with status := eraseAll toRemove m.status, prepared := eraseAll toRemove m.prepared }

/-- `ApplyBatch`: the commands that release locks come first, then those that
only need them free, then those that acquire them; the records are written in
one `Put`, after which committed txns release their locks. `now` is the wall
clock that `cleanup` reads. -/
def Manager.applyBatch (m : Manager) (db : Store) (index : Nat) (now : Int) (batch : TxnBatch) :
    Manager × Store × BatchResults :=
  let aborts := m.runCmds db (batch.abort.map .abort)
  let timedouts := aborts.1.runCmds db (batch.markTimedout.map .markTimedout)
  let commits := timedouts.1.runCmds db (batch.commit.map .commit)
  let autocommits := commits.1.runCmds db (batch.autocommit.map .autocommit)
  let prepares := autocommits.1.runCmds db (batch.prepare.map .prepare)
  let decisions := prepares.1.runCmds db (batch.storeDecision.map .storeDecision)
  let writes := commits.2.flatMap Outcome.writes ++ autocommits.2.flatMap Outcome.writes
  let m := (commits.2.filterMap Outcome.completion).foldl Manager.releaseLocks decisions.1
  let m := { m with maxTimestamp := batch.maxTimestamp }
  (m.cleanup now, db.put index writes,
    { autocommit := autocommits.2.map Outcome.result
      prepare := prepares.2.map Outcome.result
      commit := commits.2.map Outcome.result
      abort := aborts.2.map Outcome.result
      storeDecision := decisions.2.map Outcome.result
      markTimedout := timedouts.2.map Outcome.result })

end Scout.Txn
