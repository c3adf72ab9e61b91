import Scout.TwoPhase.Process
import Scout.Txn.SafeRead

/-!
Read-only txns over several partitions (`processorReadOnly`,
`processorReadSnapshot`): the reads of all participants are at one timestamp, and
every participant reads at its own moment, on its leader or on a follower. The
partitions serve any other requests meanwhile.
-/

namespace Scout.TwoPhase

open Data Mvcc Txn Lib

/-! ## The processors -/

/-- `processorReadOnly.decide`. -/
def readOnlyDecide (status : List (Nat × TxnStatus)) : Nat × Bool :=
  if status.all fun s => s.2.state == .prepared then
    (status.foldl (fun ts s => max ts s.2.timestamp) 0, true)
  else (0, false)

/-- A fan-out to all participants; `none` when one of them returns an error. -/
def gather (pids : List Nat) (call : Nat → BatchResult) : Option (List (Nat × TxnStatus)) :=
  pids.mapM fun pid =>
    match call pid with
    | .ok s => some (pid, s)
    | .error _ => none

/-- `processorReadOnly.Process`; `none` is an error. -/
def processReadOnly (t : MultiTxn) (prepare : Nat → BatchResult)
    (commit : Nat → Nat → BatchResult) : Option TxnResult := do
  let status ← gather t.participants prepare
  let decision := readOnlyDecide status
  if !decision.2 then return aggregateResults ⟨t.id, false, decision.1⟩ status
  let status ← gather t.participants (commit decision.1)
  if status.all fun s => s.2.state == .committed then
    return aggregateResults ⟨t.id, true, decision.1⟩ status
  none

/-- `processorReadSnapshot.Process`. -/
def processReadSnapshot (t : MultiTxn) (readTimestamp : Nat) (autocommit : Nat → BatchResult) :
    Option TxnResult :=
  (gather t.participants autocommit).map (aggregateResults ⟨t.id, true, readTimestamp⟩)

/-! ## The reads of one partition -/

/-- Who serves the reads of a partition, and when. Moments count the entries that the
replica has applied: the first check of the safe timestamp, the second one if the max
timestamp can be bumped, and the reads themselves, `delay` entries after the check. -/
structure PartRead {pid : Nat} (P : Partition pid) where
  replica : Replica P
  isLeader : Bool
  leader_log : isLeader = true → replica.entries = P.log
  /-- The reader still remembers the prepared txn. -/
  prepared : Bool
  first : Nat
  second : Option Nat
  delay : Nat

namespace PartRead

variable {pid : Nat} {P : Partition pid} (R : PartRead P) (t : MultiTxn)
  (decodeValue : Bytes → Option Bytes) (cfg : ReaderConfig)

/-- The check of the timestamp, with the moment at which it passes. -/
def check (T : Nat) : Except Err Nat :=
  checkSafeTimestamp R.isLeader (fun n => (R.replica.state n).1) R.first R.second (t.txnFor pid) T

/-- `AutocommitSnapshotRead`. -/
def snapshotRead (T : Nat) : BatchResult :=
  match R.check t T with
  | .error e => .error e
  | .ok k =>
    match readAt decodeValue cfg (R.replica.state (k + R.delay)).2 (t.txnFor pid) T with
    | some status => .ok status
    | none => .error .unavailable

/-- `CommitReadOnly`, behind `CommitRequest.Validate` and `Service.Commit`. -/
def commitReadOnly (T : Nat) : BatchResult :=
  if T = 0 then .error .invalidRequest
  else if !R.isLeader then .error .notLeader
  else if !R.prepared then .error .notFound
  else R.snapshotRead t decodeValue cfg T

end PartRead

section Processor

variable {P : ∀ pid, Partition pid} (t : MultiTxn) (reads : ∀ pid, PartRead (P pid))
  (decodeValue : Bytes → Option Bytes) (cfg : ReaderConfig)

/-- `Processor.Process` for a read-only txn with several participants. The answers to
`PrepareReadOnly` are any. -/
def processRead (readTimestamp : Nat) (prepare : Nat → BatchResult) : Option TxnResult :=
  if readTimestamp = 0 then
    processReadOnly t prepare fun T pid => (reads pid).commitReadOnly t decodeValue cfg T
  else
    processReadSnapshot t readTimestamp fun pid =>
      (reads pid).snapshotRead t decodeValue cfg readTimestamp

end Processor

/-! ## A successful read has passed all checks -/

theorem gather_ok {pids : List Nat} {call : Nat → BatchResult} {status : List (Nat × TxnStatus)}
    (h : gather pids call = some status) : ∀ pid ∈ pids, ∃ s, call pid = .ok s := by
  induction pids generalizing status with
  | nil => simp
  | cons p pids ih =>
    unfold gather at h
    rw [List.mapM_cons] at h
    obtain ⟨x, hx, h⟩ := Option.bind_eq_some_iff.mp h
    obtain ⟨rest, hrest, _⟩ := Option.bind_eq_some_iff.mp h
    intro pid hp
    rcases List.mem_cons.mp hp with rfl | hp
    · cases hc : call pid with
      | ok s => exact ⟨s, rfl⟩
      | error e =>
        rw [hc] at hx
        cases hx
    · exact ih hrest pid hp

section Accepted

variable {P : ∀ pid, Partition pid} {t : MultiTxn} {reads : ∀ pid, PartRead (P pid)}
  {decodeValue : Bytes → Option Bytes} {cfg : ReaderConfig}

theorem snapshotRead_checked {pid : Nat} {R : PartRead (P pid)} {T : Nat} {s : TxnStatus}
    (h : R.snapshotRead t decodeValue cfg T = .ok s) : ∃ k, R.check t T = .ok k := by
  unfold PartRead.snapshotRead at h
  split at h
  · cases h
  · rename_i k hk
    exact ⟨k, hk⟩

theorem commitReadOnly_checked {pid : Nat} {R : PartRead (P pid)} {T : Nat} {s : TxnStatus}
    (h : R.commitReadOnly t decodeValue cfg T = .ok s) : 0 < T ∧ ∃ k, R.check t T = .ok k := by
  unfold PartRead.commitReadOnly at h
  split at h
  · cases h
  rename_i hT
  refine ⟨Nat.pos_of_ne_zero hT, ?_⟩
  split at h
  · cases h
  · split at h
    · cases h
    · exact snapshotRead_checked h

theorem aggregateResults_timestamp (id : TxnId) (T : Nat) (status : List (Nat × TxnStatus)) :
    (aggregateResults ⟨id, true, T⟩ status).timestamp = T := rfl

/-- **All reads were accepted at the timestamp of the result.** -/
theorem processRead_checked {readTimestamp : Nat} {prepare : Nat → BatchResult} {result : TxnResult}
    (h : processRead t reads decodeValue cfg readTimestamp prepare = some result)
    (hsuccess : result.success = true) : 0 < result.timestamp ∧
      ∀ pid ∈ t.participants, ∃ k, (reads pid).check t result.timestamp = .ok k := by
  unfold processRead at h
  split at h
  · unfold processReadOnly at h
    obtain ⟨prepared, _, h⟩ := Option.bind_eq_some_iff.mp h
    dsimp only at h
    split at h
    · cases h
      cases hsuccess
    · obtain ⟨status, hgather, h⟩ := Option.bind_eq_some_iff.mp h
      split at h
      · cases h
        rw [aggregateResults_timestamp]
        have hok := gather_ok hgather
        obtain ⟨s, hs⟩ := hok t.principal t.principal_mem
        refine ⟨(commitReadOnly_checked hs).1, ?_⟩
        intro pid hp
        obtain ⟨s, hs⟩ := hok pid hp
        exact (commitReadOnly_checked hs).2
      · cases h
  · rename_i hT
    obtain ⟨status, hgather, rfl⟩ := Option.map_eq_some_iff.mp h
    rw [aggregateResults_timestamp]
    refine ⟨Nat.pos_of_ne_zero hT, ?_⟩
    intro pid hp
    obtain ⟨s, hs⟩ := gather_ok hgather pid hp
    exact snapshotRead_checked hs

end Accepted

/-! ## Atomicity -/

/-- The txn is committed by all its participants at one timestamp, and nothing else is
ever written for it. -/
structure CommittedAt (P : ∀ pid, Partition pid) (X : MultiTxn) (C : Nat) : Prop where
  everywhere : ∀ pid ∈ X.participants,
    ((P pid).trace.any fun x => x.commitsTxn (X.txnFor pid) C) = true
  once : ∀ pid ∈ X.participants, ∀ v ∈ (P pid).versions, v.1 = X.id → v.2.timestamp = C

/-- What the reads of a partition at `T` see of a txn that is committed at `C`, from the
moment at which they were accepted: its write or a newer one if it is not after `T`, and
nothing of it otherwise. -/
structure SeesAtomically {pid : Nat} {P : Partition pid} (R : PartRead P) (X : MultiTxn)
    (T C n : Nat) (a : Address) : Prop where
  before : C ≤ T → (X.txnFor pid).writes a = true →
    ∃ r, versionAt (R.replica.state n).2 T a = some r ∧ C ≤ r.timestamp ∧ r.timestamp ≤ T ∧
      (r.timestamp = C → (X.id, r) ∈ P.versions)
  after : T < C → ∀ r, versionAt (R.replica.state n).2 T a = some r → (X.id, r) ∉ P.versions

/-- The replica knows the txns that the leader knows, whenever a command names them. -/
def PartRead.SameKnown {pid : Nat} {P : Partition pid} (R : PartRead P) : Prop :=
  Txn.SameKnown P.new P.new P.log R.replica.entries

theorem PartRead.versions_eq {pid : Nat} {P : Partition pid} {R : PartRead P}
    (h : R.isLeader = true ∨ R.SameKnown) : R.replica.versions = P.versions := by
  rcases h with h | h
  · unfold Replica.versions Partition.versions Partition.trace
    rw [R.leader_log h]
  · exact (logTrace_tagged_agree (Sim.refl _) R.replica.same h).symm

/-- **Multi-partition reads are atomic.** For every history of every partition, every
moment at which the participants serve the reads, and every 2PC txn that is committed by
all its participants: a successful read sees all of the txn or nothing of it, on leaders,
and on followers that know the same txns as their leader. -/
theorem multi_reads_atomic (P : ∀ pid, Partition pid) (t X : MultiTxn)
    (reads : ∀ pid, PartRead (P pid)) (decodeValue : Bytes → Option Bytes) (cfg : ReaderConfig)
    (readTimestamp : Nat) (prepare : Nat → BatchResult) (result : TxnResult)
    (hresult : processRead t reads decodeValue cfg readTimestamp prepare = some result)
    (hsuccess : result.success = true)
    (hknown : ∀ pid ∈ t.participants, (reads pid).isLeader = true ∨ (reads pid).SameKnown)
    (C : Nat) (hX : CommittedAt P X C) :
    ∀ pid ∈ t.participants, ∃ k, (reads pid).check t result.timestamp = .ok k ∧
      ∀ n, k ≤ n → pid ∈ X.participants → ∀ a, (t.txnFor pid).reads a = true →
        SeesAtomically (reads pid) X result.timestamp C n a := by
  obtain ⟨hpos, hchecked⟩ := processRead_checked hresult hsuccess
  intro pid hp
  obtain ⟨k, hk⟩ := hchecked pid hp
  have hversions := PartRead.versions_eq (hknown pid hp)
  have hsafe := checkSafeTimestamp_safe hk
  refine ⟨k, hk, ?_⟩
  intro n hn hpX a ha
  constructor
  · intro hle hw
    obtain ⟨r₀, hr₀, hra, hrt⟩ := Partition.commit_version (hX.everywhere pid hpX) hw
    rw [← hversions] at hr₀
    subst hra hrt
    rw [← hversions]
    exact Replica.read_sees hpos hsafe hn hr₀ ha hle
  · intro hlt r hr hmem
    have hle := Replica.read_le hpos hr
    have hC := hX.once pid hpX (X.id, r) hmem rfl
    dsimp only at hC
    omega

/-! ## A follower that has forgotten an aborted txn -/

/-- Writes keys 0 and 1 of partition 1, and key 0 of partition 2. -/
def spread : MultiTxn where
  id := ⟨1, 1, 9⟩
  participantActions := AList.insert 1
    [⟨0, some (.upsert 16 [0] [])⟩, ⟨1, some (.upsert 16 [1] [])⟩]
    (AList.insert 2 [⟨2, some (.upsert 16 [0] [])⟩] ∅)
  principal_mem := by decide

def spreadReader : MultiTxn where
  id := ⟨1, 1, 20⟩
  participantActions := AList.insert 1 [⟨0, some (.read 16 [1])⟩]
    (AList.insert 2 [⟨1, some (.read 16 [0])⟩] ∅)
  principal_mem := by decide

/-- The HLC and the leaders' wall clocks start at two seconds. -/
abbrev spreadStart : Nat := 2000000000

/-- On partition 1 another txn on key 0 is aborted and its `Prepare` comes again. Then
`spread` is prepared, at 1 on partition 2 and at 4 on partition 1, counted from the
start, and commits at 4. -/
def spreadEvents : Nat → List Event
  | 1 =>
    let other : Txn := ⟨⟨1, 1, 5⟩, [⟨0, some (.upsert 16 [0] [])⟩], []⟩
    [.prepare other, .flush [] (some (1, spreadStart)), .abort other.id,
      .flush [] (some (2, spreadStart)), .prepare other, .flush [] (some (3, spreadStart)),
      .prepare (spread.txnFor 1), .flush [] (some (4, spreadStart)),
      .commit spread.id (spreadStart + 4), .flush [] (some (5, spreadStart))]
  | 2 =>
    [.prepare (spread.txnFor 2), .flush [] (some (1, spreadStart)),
      .commit spread.id (spreadStart + 4), .flush [] (some (2, spreadStart))]
  | _ => []

def spreadClock : Clock := ⟨spreadStart, by decide⟩

theorem spreadEvents_fits : ∀ pid,
    (Writer.run { clock := spreadClock } (spreadEvents pid)).clock.last < maxUint64
  | 0 => by decide
  | 1 => by decide
  | 2 => by decide
  | _ + 3 => by
    show spreadStart < maxUint64
    decide

/-- Finished txns are forgotten after one second. -/
def spreadPartition (pid : Nat) : Partition pid :=
  ⟨1000000000, spreadClock, spreadEvents pid, spreadEvents_fits pid⟩

/-- The log, applied at time `now`. -/
def Replica.applying {pid : Nat} (P : Partition pid) (now : Int) : Replica P where
  entries := P.log.map fun e => { e with now }
  same := by
    unfold SameLog
    rw [List.forall₂_map_right_iff]
    exact List.forall₂_same.mpr fun e _ => ⟨rfl, rfl⟩

/-- Followers that apply the whole log one and a half seconds later. -/
def lateReads (pid : Nat) : PartRead (spreadPartition pid) where
  replica := Replica.applying (spreadPartition pid) 3500000000
  isLeader := false
  leader_log := by simp
  prepared := false
  first := 5
  second := none
  delay := 0

def leaderReads (pid : Nat) : PartRead (spreadPartition pid) where
  replica := ⟨(spreadPartition pid).log, List.forall₂_same.mpr fun _ _ => ⟨rfl, rfl⟩⟩
  isLeader := true
  leader_log := fun _ => rfl
  prepared := true
  first := 5
  second := none
  delay := 0

theorem spread_committedAt : CommittedAt spreadPartition spread (spreadStart + 4) where
  everywhere := by decide
  once := by decide

/-- A snapshot read at the commit timestamp. -/
def spreadResult (reads : ∀ pid, PartRead (spreadPartition pid)) : Option TxnResult :=
  processRead spreadReader reads some ⟨10, false⟩ (spreadStart + 4) fun _ => .error .unavailable

theorem multi_reads_atomic_leaderReads :
    ∃ result, spreadResult leaderReads = some result ∧ result.success = true ∧
      CommittedAt spreadPartition spread (spreadStart + 4) ∧
      ∃ r, versionAt ((leaderReads 1).replica.state 5).2 result.timestamp ⟨16, [1]⟩ = some r ∧
        spreadStart + 4 ≤ r.timestamp ∧ r.timestamp ≤ result.timestamp := by
  have hmap : (spreadResult leaderReads).map (fun r => (r.success, r.timestamp)) =
      some (true, spreadStart + 4) := by decide
  obtain ⟨result, hresult, hr⟩ := Option.map_eq_some_iff.mp hmap
  obtain ⟨hsuccess, hts⟩ := Prod.mk.inj hr
  obtain ⟨k, hk, hall⟩ := multi_reads_atomic spreadPartition spreadReader spread leaderReads some
    ⟨10, false⟩ _ _ result hresult hsuccess (fun _ _ => .inl rfl) _ spread_committedAt 1
    (by decide)
  have hcheck : (leaderReads 1).check spreadReader (spreadStart + 4) = .ok 5 := by rfl
  rw [hts, hcheck] at hk
  cases hk
  have hsees := (hall 5 le_rfl (by decide) ⟨16, [1]⟩ (by decide)).before hts.ge (by decide)
  obtain ⟨r, hr, hC, hT, _⟩ := hsees
  exact ⟨result, hresult, hsuccess, spread_committedAt, r, hr, hC, hT⟩

/-- The late follower of partition 1 prepares the aborted txn again, which then keeps
`spread` from being prepared. A snapshot read on the followers at its commit timestamp
misses its write to key 1. -/
theorem multi_reads_miss_commit :
    ¬ ∀ (P : ∀ pid, Partition pid) (t X : MultiTxn) (reads : ∀ pid, PartRead (P pid))
      (decodeValue : Bytes → Option Bytes) (cfg : ReaderConfig) (readTimestamp : Nat)
      (prepare : Nat → BatchResult) (result : TxnResult),
      processRead t reads decodeValue cfg readTimestamp prepare = some result →
      result.success = true → ∀ C, CommittedAt P X C →
      ∀ pid ∈ t.participants, ∃ k, (reads pid).check t result.timestamp = .ok k ∧
        ∀ n, k ≤ n → pid ∈ X.participants → ∀ a, (t.txnFor pid).reads a = true →
          SeesAtomically (reads pid) X result.timestamp C n a := by
  intro h
  have hmap : (spreadResult lateReads).map (fun r => (r.success, r.timestamp)) =
      some (true, spreadStart + 4) := by decide
  obtain ⟨result, hresult, hr⟩ := Option.map_eq_some_iff.mp hmap
  obtain ⟨hsuccess, hts⟩ := Prod.mk.inj hr
  obtain ⟨k, hk, hall⟩ := h spreadPartition spreadReader spread lateReads some ⟨10, false⟩ _ _
    result hresult hsuccess _ spread_committedAt 1 (by decide)
  have hcheck : (lateReads 1).check spreadReader (spreadStart + 4) = .ok 5 := by rfl
  rw [hts, hcheck] at hk
  cases hk
  obtain ⟨r, hr, _⟩ := (hall 5 le_rfl (by decide) ⟨16, [1]⟩ (by decide)).before hts.ge (by decide)
  have hnone : versionAt ((lateReads 1).replica.state 5).2 (spreadStart + 4) ⟨16, [1]⟩ = none := by
    decide
  rw [hts, hnone] at hr
  cases hr

end Scout.TwoPhase
