import Scout.Lib.Runs
import Scout.Storage.Engines
import Scout.Txn.Snapshot

/-!
The state machine of a partition (`storage/fsm.go`) over RocksDB without a write-ahead log:
`Apply`, `Snapshot` and `Restore`, with flushes and crashes between them. Raft calls them one at
a time, numbers the entries, and after a crash restores the last snapshot that was persisted
and applies the entries after it again. Each `Put` is one atomic write batch; a flush persists
the oldest ones.
-/

namespace Scout.Fsm

open Data Mvcc Lib Txn

/-! ## The column family (`rocksdb_kv.go`) -/

/-- A `Put` that is still in memory. -/
structure WriteBatch where
  index : Nat
  records : List Record

structure ColumnFamily where
  disk : Store := {}
  memtable : List WriteBatch := []

def writeAll (db : Store) (ws : List WriteBatch) : Store :=
  ws.foldl (fun db w => db.put w.index w.records) db

/-- What reads see. -/
def ColumnFamily.view (cf : ColumnFamily) : Store := writeAll cf.disk cf.memtable

def ColumnFamily.put (cf : ColumnFamily) (index : Nat) (records : List Record) : ColumnFamily :=
  { cf with memtable := cf.memtable ++ [⟨index, records⟩] }

def ColumnFamily.flush (cf : ColumnFamily) (n : Nat) : ColumnFamily :=
  ⟨writeAll cf.disk (cf.memtable.take n), cf.memtable.drop n⟩

/-- `SyncPartition` waits for a flush of the whole memtable. -/
def ColumnFamily.sync (cf : ColumnFamily) : ColumnFamily := cf.flush cf.memtable.length

/-- A crash loses the memtable. -/
def ColumnFamily.lose (cf : ColumnFamily) : ColumnFamily := { cf with memtable := [] }

theorem writeAll_append (db : Store) (ws ws' : List WriteBatch) :
    writeAll db (ws ++ ws') = writeAll (writeAll db ws) ws' := List.foldl_append

theorem ColumnFamily.put_view (cf : ColumnFamily) (index : Nat) (records : List Record) :
    (cf.put index records).view = cf.view.put index records :=
  writeAll_append cf.disk cf.memtable _

theorem ColumnFamily.flush_view (cf : ColumnFamily) (n : Nat) : (cf.flush n).view = cf.view := by
  unfold ColumnFamily.view ColumnFamily.flush
  rw [← writeAll_append, List.take_append_drop]

theorem ColumnFamily.sync_disk (cf : ColumnFamily) : cf.sync.disk = cf.view := by
  unfold ColumnFamily.sync ColumnFamily.flush ColumnFamily.view
  rw [List.take_length]

/-! ## The log -/

/-- `none` is a command that does not decode, or has a payload of another type. -/
structure LogEntry where
  index : Nat
  payload : Option TxnBatch

/-- The commands of a partition's log. The indexes between them belong to entries that raft
keeps to itself. -/
structure Log where
  entries : List LogEntry
  positive : ∀ e ∈ entries, 0 < e.index
  increasing : entries.Pairwise fun e e' => e.index < e'.index

/-- The first entry that is not applied yet. -/
def Log.next (log : Log) (index : Nat) : Option LogEntry :=
  (log.entries.dropWhile fun e => decide (e.index ≤ index)).head?

/-! ## The state machine (`fsm.go`) -/

structure Snapshot where
  index : Nat
  txnSnapshot : TxnSnapshot

structure Replica where
  index : Nat := 0
  txn : Manager
  cf : Option ColumnFamily := none
  /-- The last snapshot that raft persisted. -/
  snapshot : Option Snapshot := none
  /-- For each record that an `Apply` wrote so far, before any crash or after, the index of the
  entry and the record. -/
  written : List (Nat × Record) := []

section Fsm

variable (pid : Nat) (cleanAfter : Int)

def newReplica : Replica := { txn := newManager pid cleanAfter }

def Replica.restore (s : Replica) (snap : Snapshot) : Replica :=
  { s with index := snap.index, txn := s.txn.restore snap.txnSnapshot.roundTrip }

/-- The process ends, and a new one is restored from the last snapshot. -/
def Replica.crash (s : Replica) : Replica :=
  let fresh := { s with
    index := 0, txn := newManager pid cleanAfter, cf := s.cf.map ColumnFamily.lose }
  match s.snapshot with
  | none => fresh
  | some snap => fresh.restore snap

/-- The records that one `Put` writes: of two at one address and timestamp the later one. -/
def putRecords (records : List Record) : List Record :=
  overwriteAll Record.address Record.timestamp [] records

/-- `InitPartition` creates the column family if there is none. -/
def Replica.initPartition (s : Replica) : Option ColumnFamily :=
  if s.index = 0 then some (s.cf.getD {}) else s.cf

/-- `Apply`, at a reading of the wall clock. A `Put` without a column family ends the
process. -/
def Replica.apply (s : Replica) (e : LogEntry) (now : Int) : Replica :=
  match e.payload with
  | none => { s with cf := s.initPartition, index := e.index }
  | some batch =>
    match s.initPartition with
    | none => s.crash pid cleanAfter
    | some cf =>
      let entry : Entry := ⟨e.index, now, batch⟩
      let writes := entryWrites (s.txn, cf.view) entry
      { s with
        index := e.index
        txn := (applyEntry (s.txn, cf.view) entry).1.1
        cf := some (cf.put e.index writes)
        written := s.written ++ (putRecords writes).map fun r => (e.index, r) }

/-- `Snapshot`: sync, read the persisted index, and compare it. -/
def Replica.takeSnapshot (s : Replica) : Replica × Except String Snapshot :=
  match s.cf with
  | none => (s, .error ("failed to sync partition " ++ toString pid ++ " error " ++ Kv.notFound))
  | some cf =>
    let cf := cf.sync
    let s := { s with cf := some cf }
    if cf.disk.index ≠ s.index then (s, .error "nothing new to snapshot")
    else (s, .ok ⟨s.index, s.txn.snapshot⟩)

inductive Action where
  | apply (now : Int)
  | flush (n : Nat)
  | crash
  /-- Raft stores the data that `Snapshot` returns, or fails to. -/
  | snapshot (persisted : Bool)

def step (log : Log) (s : Replica) : Action → Option Replica
  | .apply now => (log.next s.index).map fun e => s.apply pid cleanAfter e now
  | .flush n => some { s with cf := s.cf.map fun cf => cf.flush n }
  | .crash => some (s.crash pid cleanAfter)
  | .snapshot persisted =>
    match s.takeSnapshot pid with
    | (s', .ok data) => some (if persisted then { s' with snapshot := some data } else s')
    | (s', .error _) => some s'

/-- If `Snapshot` returns data now, what the entries up to its index wrote is on disk. -/
def Durable (s : Replica) : Prop :=
  ∀ data, (s.takeSnapshot pid).2 = .ok data → ∀ w ∈ s.written, w.1 ≤ data.index →
    ∃ cf, (s.takeSnapshot pid).1.cf = some cf ∧ w.2 ∈ cf.disk.records

/-! ## What the calls do -/

variable {s : Replica}

/-- **Inversion of `Snapshot`.** -/
theorem takeSnapshot_ok {data : Snapshot} (h : (s.takeSnapshot pid).2 = .ok data) :
    ∃ cf, s.cf = some cf ∧ data = ⟨s.index, s.txn.snapshot⟩ := by
  unfold Replica.takeSnapshot at h
  split at h
  · cases h
  rename_i cf hcf
  dsimp only at h
  split at h
  · cases h
  · exact ⟨cf, hcf, (Except.ok.inj h).symm⟩

/-- With or without an answer, `Snapshot` syncs the column family and does nothing else. -/
theorem takeSnapshot_state :
    (s.takeSnapshot pid).1 = { s with cf := s.cf.map ColumnFamily.sync } := by
  unfold Replica.takeSnapshot
  obtain ⟨index, txn, cf, snapshot, written⟩ := s
  cases cf with
  | none => rfl
  | some cf =>
    dsimp only
    split <;> rfl

/-- A crash leaves the disk, and the manager of the last snapshot or a new one. -/
theorem crash_cases : (s.snapshot = none ∧ s.crash pid cleanAfter =
      { s with index := 0, txn := newManager pid cleanAfter, cf := s.cf.map ColumnFamily.lose }) ∨
    ∃ snap, s.snapshot = some snap ∧ s.crash pid cleanAfter =
      { s with
        index := snap.index
        txn := (newManager pid cleanAfter).restore snap.txnSnapshot.roundTrip
        cf := s.cf.map ColumnFamily.lose } := by
  obtain ⟨index, txn, cf, snapshot, written⟩ := s
  cases snapshot with
  | none => exact Or.inl ⟨rfl, rfl⟩
  | some snap => exact Or.inr ⟨snap, rfl, rfl⟩

/-- A call of `Snapshot` leaves the synced replica, and perhaps its data with raft. -/
theorem step_snapshot {log : Log} {persisted : Bool} {s' : Replica}
    (h : step pid cleanAfter log s (.snapshot persisted) = some s') :
    s' = (s.takeSnapshot pid).1 ∨ ∃ data, (s.takeSnapshot pid).2 = .ok data ∧
      s' = { (s.takeSnapshot pid).1 with snapshot := some data } := by
  simp only [step] at h
  split at h
  · rename_i s₁ data heq
    rw [heq]
    cases persisted with
    | true => exact Or.inr ⟨data, rfl, (Option.some.inj h).symm⟩
    | false => exact Or.inl (Option.some.inj h).symm
  · rename_i s₁ err heq
    rw [heq]
    exact Or.inl (Option.some.inj h).symm

/-- **Inversion of `Apply`.** -/
theorem apply_cases (e : LogEntry) (now : Int) : (e.payload = none ∧
      s.apply pid cleanAfter e now = { s with cf := s.initPartition, index := e.index }) ∨
    s.apply pid cleanAfter e now = s.crash pid cleanAfter ∨
    ∃ batch cf, e.payload = some batch ∧ s.initPartition = some cf ∧
      s.apply pid cleanAfter e now =
        { s with
          index := e.index
          txn := (applyEntry (s.txn, cf.view) ⟨e.index, now, batch⟩).1.1
          cf := some (cf.put e.index (entryWrites (s.txn, cf.view) ⟨e.index, now, batch⟩))
          written := s.written ++ (putRecords (entryWrites (s.txn, cf.view)
            ⟨e.index, now, batch⟩)).map fun r => (e.index, r) } := by
  unfold Replica.apply
  cases hp : e.payload with
  | none => exact Or.inl ⟨rfl, rfl⟩
  | some batch =>
    cases hcf : s.initPartition with
    | none => exact Or.inr (Or.inl rfl)
    | some cf => exact Or.inr (Or.inr ⟨batch, cf, rfl, rfl, rfl⟩)

theorem initPartition_getD : s.initPartition.getD {} = s.cf.getD {} := by
  unfold Replica.initPartition
  split <;> rfl

end Fsm

end Scout.Fsm
