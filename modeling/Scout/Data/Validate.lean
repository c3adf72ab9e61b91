import Scout.Data.Lock

/-!
`Validate` of the transaction messages (`data_txn.go`): requests are checked by the
server before a handler runs, replies by the client. A function returns the text of
the error, or `none` for the nil error. A nil message is refused by each of them and
has no value here; the same holds of enumeration values without a name.
-/

namespace Scout.Data

/-- `keyspace.FirstUserKeyspace`. -/
def firstUserKeyspace : Nat := 16

/-- `errors.Wrap`. -/
def wrap (message err : String) : String := message ++ " error " ++ err

/-- The checks that the fields of actions and locks have in common. -/
def checkFields (name : String) (keyspace : Nat) (keys : List Bytes) : Option String :=
  if keyspace < firstUserKeyspace ∨ [] ∈ keys then some (name ++ " has invalid fields") else none

/-! ## Txns -/

def TxnId.validate (t : TxnId) : Option String :=
  if t.serverId = 0 ∨ t.timestamp = 0 then some "TxnId has missing fields" else none

def KeyLock.validate (l : KeyLock) : Option String := checkFields "KeyLock" l.keyspace [l.key]

def RangeLock.validate (l : RangeLock) : Option String :=
  checkFields "RangeLock" l.keyspace [l.startKey, l.endKey]

def Action.validate (a : Action) : Option String :=
  match a.payload with
  | some (.read ks k) => checkFields "Action.Read" ks [k]
  | some (.readRange ks s e _) => checkFields "Action.ReadRange" ks [s, e]
  | some (.insert ks k _) => checkFields "Action.Insert" ks [k]
  | some (.update ks k _) => checkFields "Action.Update" ks [k]
  | some (.upsert ks k _) => checkFields "Action.Upsert" ks [k]
  | some (.delete ks k) => checkFields "Action.Delete" ks [k]
  | some (.lockKey l _) => l.validate.map (wrap "Action.LockKey.Lock is invalid")
  | some (.lockRange l _) => l.validate.map (wrap "Action.LockRange.Lock is invalid")
  | none => some "Action.Payload is unknown."

def Txn.validate (t : Txn) : Option String :=
  t.id.validate.map (wrap "Txn.Id is invalid") <|>
  (if t.actions = [] then some "Txn has missing fields" else none) <|>
  t.actions.findSome? fun a => a.validate.map (wrap "Txn.Actions is invalid")

/-! ## Replies -/

def ActionStatus.validate (a : ActionStatus) : Option String :=
  if a.code = .success ∧ a.results = [] then some "ActionStatus success with empty results"
  else if a.code ≠ .success ∧ a.results ≠ [] then
    some "ActionStatus failed with non-empty results"
  else none

/-- One iteration over the map of action statuses. -/
def checkEntry (x : Nat × ActionStatus) : Option String :=
  x.2.validate.map (wrap "TxnStatus.ActionStatus is invalid") <|>
  if x.1 ≠ x.2.id then some "TxnStatus.ActionStatus.Id does not match" else none

def TxnStatus.validate (t : TxnStatus) : Option String :=
  t.id.validate.map (wrap "Txn.Id is invalid") <|>
  (if t.timestamp = 0 then some "TxnStatus has missing fields" else none) <|>
  (t.actionStatus.getD []).findSome? checkEntry

theorem TxnStatus.validate_eq_none {t : TxnStatus} : t.validate = none ↔
    t.id.validate = none ∧ t.timestamp ≠ 0 ∧ ∀ x ∈ t.actionStatus.getD [], checkEntry x = none := by
  simp [TxnStatus.validate]

theorem ActionStatus.validate_eq_none {a : ActionStatus} :
    a.validate = none ↔ (a.code = .success ↔ a.results ≠ []) := by
  unfold ActionStatus.validate
  by_cases hc : a.code = .success <;> by_cases hr : a.results = [] <;> simp [hc, hr]

theorem checkEntry_own {a : ActionStatus} : checkEntry (a.id, a) = none ↔ a.validate = none := by
  simp [checkEntry]

/-! ## Requests -/

structure AutocommitRequest where
  partitionId : Nat
  txn : Txn
  readTimestamp : Nat := 0

structure PrepareRequest where
  participantPid : Nat
  txn : Txn
  readOnly : Bool := false

structure CommitRequest where
  participantPid : Nat
  id : TxnId
  commitTimestamp : Nat
  readOnly : Bool := false
  fetchResults : Bool := false

structure AbortRequest where
  participantPid : Nat
  id : TxnId

def AutocommitRequest.isSnapshotRead (r : AutocommitRequest) : Bool :=
  r.readTimestamp != 0 && r.txn.isReadOnly

def AutocommitRequest.validate (r : AutocommitRequest) : Option String :=
  r.txn.validate.map (wrap "AutocommitRequest.Txn is invalid") <|>
  (if !r.isSnapshotRead ∧ r.partitionId ≠ r.txn.id.principalPid then
    some "AutocommitRequest.PartitionId is invalid" else none) <|>
  if r.readTimestamp ≠ 0 ∧ !r.txn.isReadOnly then
    some "AutocommitRequest.ReadTimestamp invalid for read-write txn" else none

def PrepareRequest.validate (r : PrepareRequest) : Option String :=
  r.txn.validate.map (wrap "PrepareRequest.Txn is invalid") <|>
  if r.participantPid = r.txn.id.principalPid ∧ r.txn.participantPids = [] then
    some "PrepareRequest.Txn.ParticipantPids is missing" else none

/-- The text names the other request, as the source has it. -/
def CommitRequest.validate (r : CommitRequest) : Option String :=
  r.id.validate.map (wrap "PrepareRequest.Id is invalid") <|>
  if r.commitTimestamp = 0 then some "CommitRequest has missing fields" else none

def AbortRequest.validate (r : AbortRequest) : Option String :=
  r.id.validate.map (wrap "AbortRequest.Id is invalid")

def Decision.validate (d : Decision) : Option String :=
  d.id.validate.map (wrap "Decision.Id is invalid") <|>
  if d.commitTimestamp = 0 then some "Decision has missing fields" else none

/-- The five requests of a partition's data service. -/
inductive Request where
  | autocommit (r : AutocommitRequest)
  | prepare (r : PrepareRequest)
  | commit (r : CommitRequest)
  | abort (r : AbortRequest)
  | storeDecision (d : Decision)

def Request.validate : Request → Option String
  | .autocommit r => r.validate
  | .prepare r => r.validate
  | .commit r => r.validate
  | .abort r => r.validate
  | .storeDecision d => d.validate

def Request.id : Request → TxnId
  | .autocommit r => r.txn.id
  | .prepare r => r.txn.id
  | .commit r => r.id
  | .abort r => r.id
  | .storeDecision d => d.id

theorem Request.validate_id {r : Request} (h : r.validate = none) : r.id.validate = none := by
  cases r with
  | autocommit r =>
    simp only [Request.validate, AutocommitRequest.validate, Txn.validate, Option.orElse_eq_none,
      Option.map_eq_none_iff] at h
    exact h.1.1
  | prepare r =>
    simp only [Request.validate, PrepareRequest.validate, Txn.validate, Option.orElse_eq_none,
      Option.map_eq_none_iff] at h
    exact h.1.1
  | commit r =>
    simp only [Request.validate, CommitRequest.validate, Option.orElse_eq_none,
      Option.map_eq_none_iff] at h
    exact h.1
  | abort r => exact Option.map_eq_none_iff.mp h
  | storeDecision d =>
    simp only [Request.validate, Decision.validate, Option.orElse_eq_none,
      Option.map_eq_none_iff] at h
    exact h.1

end Scout.Data
