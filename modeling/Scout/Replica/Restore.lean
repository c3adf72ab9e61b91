import Scout.Data.Validate
import Scout.Lib.Runs
import Scout.Storage.Engines

/-!
A joining replica restores its partition (`joining/restore_fsm.go`): it initialises the
partition, reads the checkpoint of an earlier attempt, and streams the records of a sponsor. Every
response is stored in one batch with a new checkpoint, through `kv.DBBreaker`, which ends the
process when a call keeps failing. A restore is a run of the steps below, for any sequence of
streams, responses and stream failures.
-/

namespace Scout.Restore

open Kv Lib
open Data (Bytes firstUserKeyspace wrap)

/-- `addressCheckpoint`: `keyspace.ReservedReplica`, the key "checkpoint" and timestamp 42. -/
def addressCheckpoint : Address := ⟨1, [99, 104, 101, 99, 107, 112, 111, 105, 110, 116], 42⟩

structure Checkpoint where
  minIndex : Nat
  lastAddress : Option Address
  completed : Bool
  deriving DecidableEq, Repr

/-- `encoding/json` on checkpoints; `unmarshal` gives `none` for an error. -/
structure Codec where
  marshal : Checkpoint → Bytes
  unmarshal : Bytes → Option Checkpoint
  unmarshal_marshal : ∀ c, unmarshal (marshal c) = some c

/-! ## Stream responses -/

structure Response where
  records : List Record
  completed : Bool
  deriving DecidableEq, Repr

/-- `KVAddress.Validate`. -/
def validateAddress (a : Address) : Option String :=
  if a.keyspace < firstUserKeyspace ∨ a.key = [] then some "KVAddress has invalid fields" else none

/-- `StreamResponse.Validate`. -/
def Response.validate (r : Response) : Option String :=
  r.records.findSome? fun e => (validateAddress e.address).map fun err =>
    wrap "StreamResponse.Records is invalid" (wrap "KVRecord.Address is invalid" err)

theorem validate_empty (completed : Bool) : (⟨[], completed⟩ : Response).validate = none := rfl

/-! ## The replica -/

/-- `waiting`: between two streams, with the address to continue from. `halted` is the shutdown
of the replica, `dead` that of the process. -/
inductive Phase where
  | idle
  | waiting (lastAddr : Option Address)
  | streaming (lastAddr : Option Address)
  | done
  | halted
  | dead (message : String)
  deriving DecidableEq, Repr

structure Joiner (σ : Type) where
  store : σ
  phase : Phase

inductive Event where
  | restoreAt
  | connect
  | recv (res : Response)
  | fail
  | halt

section Steps

variable {σ : Type} (engine : Engine σ) (codec : Codec) (pid retries minIndex : Nat)

/-- The partition, the address to continue from, and whether there is nothing left to do. -/
def loadCheckpoint (s : σ) : Except String (σ × Option Address × Bool) :=
  match engine.get s addressCheckpoint with
  | .error err =>
    .error ("DBBreaker.Get in partition " ++ toString pid ++ " failed with error " ++ err)
  | .ok none => .ok (s, none, false)
  | .ok (some record) =>
    match codec.unmarshal record.data with
    | none => .ok (s, none, false)
    | some chk =>
      if chk.minIndex < minIndex then
        -- past progress is dropped
        (breaker retries ("DBBreaker.DropPartition " ++ toString pid) engine.dropPartition s).map
          fun s' => (s', none, false)
      else if chk.completed then .ok (s, none, true)
      else .ok (s, chk.lastAddress.map Address.next, false)

def loaded (s : σ) : Except String (σ × Option Address × Bool) → Joiner σ
  | .error message => ⟨s, .dead message⟩
  | .ok (s', _, true) => ⟨s', .done⟩
  | .ok (s', lastAddr, false) => ⟨s', .waiting lastAddr⟩

/-- `restoreAt` up to the first stream. -/
def begin (s : σ) : Joiner σ :=
  match breaker retries ("DBBreaker.InitPartition " ++ toString pid) engine.initPartition s with
  | .error message => ⟨s, .dead message⟩
  | .ok s' => loaded s' (loadCheckpoint engine codec pid retries minIndex s')

/-- The records of a response and the checkpoint, in one batch. -/
def newRecords (res : Response) : List Record :=
  res.records ++ [⟨addressCheckpoint, codec.marshal
    ⟨minIndex, res.records.getLast?.map Record.address, res.completed⟩⟩]

/-- One iteration of the loop of `tryStreamPartition`. -/
def receive (s : σ) (res : Response) : Joiner σ :=
  match breaker retries ("DBBreaker.Put in partition " ++ toString pid) (fun s =>
      engine.put s (if res.completed then minIndex else 0) (newRecords codec minIndex res)) s with
  | .error message => ⟨s, .dead message⟩
  | .ok s' =>
    ⟨s', if res.completed then .done else .streaming (res.records.getLast?.map Record.address)⟩

/-- A response that is not valid counts as a failure of the stream. -/
def step (j : Joiner σ) : Event → Option (Joiner σ)
  | .restoreAt =>
    match j.phase with
    | .idle => some (begin engine codec pid retries minIndex j.store)
    | _ => none
  | .connect =>
    match j.phase with
    | .waiting lastAddr => some ⟨j.store, .streaming lastAddr⟩
    | _ => none
  | .recv res =>
    match j.phase with
    | .streaming lastAddr =>
      if res.validate = none then some (receive engine codec pid retries minIndex j.store res)
      else some ⟨j.store, .waiting lastAddr⟩
    | _ => none
  | .fail =>
    match j.phase with
    | .streaming lastAddr => some ⟨j.store, .waiting lastAddr⟩
    | _ => none
  | .halt =>
    match j.phase with
    | .waiting _ => some ⟨j.store, .halted⟩
    | _ => none

end Steps

/-! ## What a restore finds -/

section Stored

variable (codec : Codec) (minIndex : Nat)

/-- The stored checkpoint belongs to an older snapshot. -/
def Stale (stored : Option Record) : Prop :=
  ∃ r ∈ stored, ∃ chk ∈ codec.unmarshal r.data, chk.minIndex < minIndex

/-- The stored checkpoint says that the restore is complete. -/
def Finished (stored : Option Record) : Prop :=
  ∃ r ∈ stored, ∃ chk ∈ codec.unmarshal r.data, minIndex ≤ chk.minIndex ∧ chk.completed = true

end Stored

variable {codec : Codec} {minIndex : Nat}

theorem Stale.not_finished {stored : Option Record} (h : Stale codec minIndex stored) :
    ¬ Finished codec minIndex stored := by
  rintro ⟨r', hr', chk', hchk', hle, _⟩
  obtain ⟨r, hr, chk, hchk, hlt⟩ := h
  obtain rfl : r = r' := Option.some.inj (hr.symm.trans hr')
  obtain rfl : chk = chk' := Option.some.inj (hchk.symm.trans hchk')
  omega

def Survives {σ : Type} (engine : Engine σ) (codec : Codec) (pid retries minIndex : Nat) (s : σ) :
    Prop :=
  ∀ es j, runSteps (step engine codec pid retries minIndex) ⟨s, .idle⟩ es = some j →
    ∀ message, j.phase ≠ .dead message

/-! ## The start of a restore -/

/-- What the two engines have in common. -/
structure Lawful {α : Type} (engine : Engine (Option α)) (empty : α)
    (get : α → Address → Option Record) : Prop where
  init : ∀ s, engine.initPartition s = (some (s.getD empty), none)
  drop : ∀ a, engine.dropPartition (some a) = (none, none)
  get_some : ∀ a addr, engine.get (some a) addr = .ok (get a addr)
  put_none : ∀ index rs, engine.put none index rs = (none, some notFound)

theorem lawful_inmem : Lawful inmemEngine {} Inmem.Partition.get :=
  ⟨fun _ => rfl, fun _ => rfl, fun _ _ => rfl, fun _ _ => rfl⟩

theorem lawful_rocks : Lawful rocksEngine {} ColumnFamily.get :=
  ⟨fun _ => rfl, fun _ => rfl, fun _ _ => rfl, fun _ _ => rfl⟩

section Start

variable {α : Type} {engine : Engine (Option α)} {empty : α} {get : α → Address → Option Record}
  (h : Lawful engine empty get) (codec : Codec) (pid retries minIndex : Nat) (s : Option α)

include h

/-- **The three ways a restore starts.** A stale checkpoint drops the partition, a finished one
ends the restore, and anything else leads to the streams. -/
theorem Lawful.begin_cases : (Stale codec minIndex (get (s.getD empty) addressCheckpoint) ∧
      begin engine codec pid retries minIndex s = ⟨none, .waiting none⟩) ∨
    (Finished codec minIndex (get (s.getD empty) addressCheckpoint) ∧
      begin engine codec pid retries minIndex s = ⟨some (s.getD empty), .done⟩) ∨
    (¬ Stale codec minIndex (get (s.getD empty) addressCheckpoint) ∧
      ¬ Finished codec minIndex (get (s.getD empty) addressCheckpoint) ∧
      ∃ lastAddr, begin engine codec pid retries minIndex s =
          ⟨some (s.getD empty), .waiting lastAddr⟩ ∧
        ∀ a ∈ lastAddr, ∃ r ∈ get (s.getD empty) addressCheckpoint,
          ∃ chk ∈ codec.unmarshal r.data, chk.completed = false ∧
            ∃ b ∈ chk.lastAddress, a = b.next) := by
  have hbegin : begin engine codec pid retries minIndex s =
      loaded (some (s.getD empty))
        (loadCheckpoint engine codec pid retries minIndex (some (s.getD empty))) := by
    rw [begin, breaker_ok _ _ _ (h.init s)]
  rw [hbegin, loadCheckpoint, h.get_some]
  cases hget : get (s.getD empty) addressCheckpoint with
  | none => exact .inr (.inr ⟨by simp [Stale], by simp [Finished], none, rfl, nofun⟩)
  | some r =>
    cases hchk : codec.unmarshal r.data with
    | none =>
      refine .inr (.inr ⟨?_, ?_, none, ?_, nofun⟩)
      · simp [Stale, hchk]
      · simp [Finished, hchk]
      · simp only [hchk, loaded]
    | some chk =>
      by_cases hlt : chk.minIndex < minIndex
      · refine .inl ⟨⟨r, rfl, chk, hchk, hlt⟩, ?_⟩
        simp only [hchk, if_pos hlt, breaker_ok _ _ _ (h.drop (s.getD empty)), Except.map, loaded]
      · have hns : ¬ Stale codec minIndex (some r) := by simpa [Stale, hchk] using hlt
        cases hc : chk.completed with
        | true =>
          refine .inr (.inl ⟨⟨r, rfl, chk, hchk, not_lt.mp hlt, hc⟩, ?_⟩)
          simp only [hchk, if_neg hlt, hc, if_true, loaded]
        | false =>
          refine .inr (.inr ⟨hns, by simp [Finished, hchk, hc],
            chk.lastAddress.map Address.next, by simp [hchk, hlt, hc, loaded], ?_⟩)
          intro a ha
          obtain ⟨b, hb, rfl⟩ := Option.map_eq_some_iff.mp ha
          exact ⟨r, rfl, chk, hchk, hc, b, hb, rfl⟩

/-- A response that comes after the drop finds no partition. -/
theorem Lawful.stale_dies (hs : Stale codec minIndex (get (s.getD empty) addressCheckpoint)) :
    ¬ Survives engine codec pid retries minIndex s := by
  intro hall
  have hbegin : begin engine codec pid retries minIndex s = ⟨none, .waiting none⟩ := by
    rcases h.begin_cases codec pid retries minIndex s with ⟨_, hb⟩ | ⟨hf, _⟩ | ⟨hn, _⟩
    · exact hb
    · exact absurd hf hs.not_finished
    · exact absurd hs hn
  obtain ⟨message, hput⟩ := breaker_error retries ("DBBreaker.Put in partition " ++ toString pid)
    (fun s => engine.put s minIndex (newRecords codec minIndex ⟨[], true⟩))
    (h.put_none minIndex (newRecords codec minIndex ⟨[], true⟩))
  refine hall [.restoreAt, .connect, .recv ⟨[], true⟩] ⟨none, .dead message⟩ ?_ message rfl
  have hrecv : receive engine codec pid retries minIndex none ⟨[], true⟩ =
      ⟨none, .dead message⟩ := by
    simp only [receive, if_true]
    rw [hput]
  simp only [runSteps, step, hbegin, Option.bind_some, validate_empty, if_true, hrecv]

end Start

/-! ## RocksDB -/

/-- What a run keeps when the checkpoint is not stale: the partition exists. -/
def Present {α : Type} (s : Option α) (j : Joiner (Option α)) : Prop :=
  match j.phase with
  | .idle => j.store = s
  | .waiting _ | .streaming _ => j.store.isSome = true
  | .done | .halted => True
  | .dead _ => False

variable {pid retries : Nat}

theorem present_step {s : Option ColumnFamily}
    (hs : ¬ Stale codec minIndex ((s.getD {}).get addressCheckpoint))
    {j j' : Joiner (Option ColumnFamily)} {e : Event} (hj : Present s j)
    (h : step rocksEngine codec pid retries minIndex j e = some j') : Present s j' := by
  obtain ⟨store, phase⟩ := j
  cases e with
  | restoreAt =>
    cases phase with
    | idle =>
      cases h
      obtain rfl : store = s := hj
      rcases lawful_rocks.begin_cases codec pid retries minIndex store with
        ⟨hst, _⟩ | ⟨_, hb⟩ | ⟨_, _, l, hb, _⟩
      · exact absurd hst hs
      · rw [hb]
        trivial
      · rw [hb]
        exact rfl
    | _ => cases h
  | connect =>
    cases phase with
    | waiting l =>
      cases h
      exact hj
    | _ => cases h
  | recv res =>
    cases phase with
    | streaming l =>
      simp only [step] at h
      split at h
      · cases h
        obtain ⟨cf, rfl⟩ := Option.isSome_iff_exists.mp hj
        have hput : rocksEngine.put (some cf) (if res.completed then minIndex else 0)
            (newRecords codec minIndex res) =
          (some (cf.put (if res.completed then minIndex else 0)
            (newRecords codec minIndex res)), none) := rfl
        rw [receive, breaker_ok _ _ _ hput]
        cases hc : res.completed with
        | true => trivial
        | false => exact rfl
      · cases h
        exact hj
    | _ => cases h
  | fail =>
    cases phase with
    | streaming l =>
      cases h
      exact hj
    | _ => cases h
  | halt =>
    cases phase with
    | waiting l =>
      cases h
      trivial
    | _ => cases h

/-! ## The in-memory engine -/

theorem Codec.marshal_inj (codec : Codec) {c d : Checkpoint}
    (h : codec.marshal c = codec.marshal d) : c = d := by
  have hc := codec.unmarshal_marshal c
  rw [h, codec.unmarshal_marshal] at hc
  exact (Option.some.inj hc).symm

theorem newRecords_empty (codec : Codec) (minIndex : Nat) (completed : Bool) :
    newRecords codec minIndex ⟨[], completed⟩ =
      [⟨addressCheckpoint, codec.marshal ⟨minIndex, none, completed⟩⟩] := rfl

section Checkpoints

variable {codec : Codec} (pid retries : Nat) {minIndex : Nat} {p p' : Inmem.Partition}
  {completed : Bool}

theorem receive_refused {err : String} (h : p.put (if completed then minIndex else 0)
      [⟨addressCheckpoint, codec.marshal ⟨minIndex, none, completed⟩⟩] = (p, some err)) :
    ∃ message, receive inmemEngine codec pid retries minIndex (some p) ⟨[], completed⟩ =
      ⟨some p, .dead message⟩ := by
  have hput : inmemEngine.put (some p) (if completed then minIndex else 0)
      (newRecords codec minIndex ⟨[], completed⟩) = (some p, some err) := by
    simp only [inmemEngine, newRecords_empty, h]
  obtain ⟨message, hb⟩ := breaker_error retries
    ("DBBreaker.Put in partition " ++ toString pid) (fun s => inmemEngine.put s
      (if completed then minIndex else 0) (newRecords codec minIndex ⟨[], completed⟩)) hput
  exact ⟨message, by rw [receive, hb]⟩

theorem receive_accepted (h : p.put (if completed then minIndex else 0)
      [⟨addressCheckpoint, codec.marshal ⟨minIndex, none, completed⟩⟩] = (p', none)) :
    receive inmemEngine codec pid retries minIndex (some p) ⟨[], completed⟩ =
      ⟨some p', if completed then .done else .streaming none⟩ := by
  have hput : inmemEngine.put (some p) (if completed then minIndex else 0)
      (newRecords codec minIndex ⟨[], completed⟩) = (some p', none) := by
    simp only [inmemEngine, newRecords_empty, h]
  rw [receive, breaker_ok _ _ _ hput]
  rfl

end Checkpoints

/-- **In memory a second checkpoint is never accepted**, whatever was stored before. -/
theorem inmem_dies {s : Option Inmem.Partition} (hs : ∀ p ∈ s, p.records.Pairwise Inmem.notAfter)
    (hf : ¬ Finished codec minIndex ((s.getD {}).get addressCheckpoint)) :
    ¬ Survives inmemEngine codec pid retries minIndex s := by
  rcases lawful_inmem.begin_cases codec pid retries minIndex s with
    ⟨hst, _⟩ | ⟨hfin, _⟩ | ⟨_, _, l, hbegin, _⟩
  · exact lawful_inmem.stale_dies codec pid retries minIndex s hst
  · exact absurd hfin hf
  intro hall
  have hsorted : (s.getD {}).records.Pairwise Inmem.notAfter := by
    cases s with
    | none => exact List.Pairwise.nil
    | some p => exact hs p rfl
  have ht : addressCheckpoint.timestamp ≠ 0 := by decide
  rcases Inmem.Partition.put_single 0 hsorted (r := ⟨addressCheckpoint,
    codec.marshal ⟨minIndex, none, false⟩⟩) ht with ⟨err, hput⟩ | ⟨p', x, hput, hg, hd⟩
  · obtain ⟨message, hrecv⟩ := receive_refused pid retries hput
    refine hall [.restoreAt, .connect, .recv ⟨[], false⟩] ⟨some (s.getD {}), .dead message⟩ ?_
      message rfl
    simp only [runSteps, step, hbegin, Option.bind_some, validate_empty, if_true, hrecv]
  · have hfirst := receive_accepted pid retries hput
    -- the second checkpoint differs from the first one
    have hne : x.data ≠ codec.marshal ⟨minIndex, none, true⟩ := by
      rw [hd]
      intro he
      have hc := codec.marshal_inj he
      cases hc
    obtain ⟨err, hput'⟩ := Inmem.Partition.put_refused minIndex
      (r := ⟨addressCheckpoint, codec.marshal ⟨minIndex, none, true⟩⟩) ht hg hne
    obtain ⟨message, hrecv⟩ := receive_refused pid retries hput'
    refine hall [.restoreAt, .connect, .recv ⟨[], false⟩, .recv ⟨[], true⟩]
      ⟨some p', .dead message⟩ ?_ message rfl
    simp only [runSteps, step, hbegin, Option.bind_some, validate_empty, if_true, hfirst,
      Bool.false_eq_true, if_false, hrecv]

theorem finished_step {s : Option Inmem.Partition}
    (hf : Finished codec minIndex ((s.getD {}).get addressCheckpoint))
    {j j' : Joiner (Option Inmem.Partition)} {e : Event} (hj : j = ⟨s, .idle⟩ ∨ j.phase = .done)
    (h : step inmemEngine codec pid retries minIndex j e = some j') : j'.phase = .done := by
  rcases hj with rfl | hj
  · cases e with
    | restoreAt =>
      cases h
      rcases lawful_inmem.begin_cases codec pid retries minIndex s with
        ⟨hst, _⟩ | ⟨_, hb⟩ | ⟨_, hn, _⟩
      · exact absurd hf hst.not_finished
      · rw [hb]
      · exact absurd hf hn
    | _ => cases h
  · cases e <;> simp only [step, hj] at h <;> cases h

/-- **When a restore never ends the process.** Over RocksDB: exactly when the stored checkpoint
is not older than the snapshot. In memory: exactly when it says that the restore is complete. -/
theorem restore_survives_iff (codec : Codec) (pid retries minIndex : Nat) :
    (∀ cf : Option ColumnFamily, Survives rocksEngine codec pid retries minIndex cf ↔
      ¬ Stale codec minIndex ((cf.getD {}).get addressCheckpoint)) ∧
    ∀ part : Option Inmem.Partition, (∀ p ∈ part, p.records.Pairwise Inmem.notAfter) →
      (Survives inmemEngine codec pid retries minIndex part ↔
        Finished codec minIndex ((part.getD {}).get addressCheckpoint)) := by
  constructor
  · intro cf
    constructor
    · intro h hs
      exact lawful_rocks.stale_dies codec pid retries minIndex cf hs h
    · intro hs es j hrun message hdead
      have hstart : Present cf ⟨cf, .idle⟩ := rfl
      have hj : Present cf j := runSteps_preserves (step rocksEngine codec pid retries minIndex)
        (Present cf) (fun _ _ _ hi hstep => present_step hs hi hstep) hstart hrun
      rw [Present, hdead] at hj
      exact hj
  · intro part hp
    constructor
    · intro h
      by_contra hf
      exact inmem_dies hp hf h
    · intro hf es j hrun message hdead
      have hj : j = ⟨part, .idle⟩ ∨ j.phase = .done :=
        runSteps_preserves (step inmemEngine codec pid retries minIndex) _
          (fun _ _ _ hi hstep => Or.inr (finished_step hf hi hstep)) (Or.inl rfl) hrun
      rcases hj with rfl | hj
      · cases hdead
      · rw [hj] at hdead
        cases hdead

/-! ## Two restores that end the process -/

/-- Numbers in unary, then whatever follows. -/
def putNat (n : Nat) (rest : Bytes) : Bytes := List.replicate n 1 ++ 0 :: rest

def takeNat : Bytes → Nat × Bytes
  | [] => (0, [])
  | b :: bs => if b = 1 then ((takeNat bs).1 + 1, (takeNat bs).2) else (0, bs)

theorem takeNat_putNat (n : Nat) (rest : Bytes) : takeNat (putNat n rest) = (n, rest) := by
  induction n with
  | zero => rfl
  | succ n ih =>
    change takeNat (1 :: putNat n rest) = _
    rw [takeNat, if_pos rfl, ih]

/-- A codec for the runs below, in the place of JSON. -/
def unaryCodec : Codec where
  marshal c := 7 :: putNat c.minIndex (putNat c.completed.toNat (match c.lastAddress with
    | none => []
    | some a => putNat a.keyspace (putNat a.timestamp a.key)))
  unmarshal data :=
    if data.head? ≠ some 7 then none
    else
      let m := takeNat data.tail
      let c := takeNat m.2
      let k := takeNat c.2
      let t := takeNat k.2
      some ⟨m.1, if c.2 = [] then none else some ⟨k.1, t.2, t.1⟩, c.1 == 1⟩
  unmarshal_marshal := by
    rintro ⟨m, last, completed⟩
    cases last with
    | none => cases completed <;> simp [takeNat_putNat]
    | some a =>
      have hne : putNat a.keyspace (putNat a.timestamp a.key) ≠ [] := by simp [putNat]
      cases completed <;> simp [takeNat_putNat, hne]

def userRecord (key : Data.Byte) : Record := ⟨⟨16, [key], 3⟩, [9, 0]⟩

/-- What a restore at index 5 has left after its first response. -/
def interrupted : ColumnFamily where
  records := newRecords unaryCodec 5 ⟨[userRecord 1], false⟩

/-- Over RocksDB: the checkpoint of an older snapshot, then one response. In memory: a new
partition and two responses. -/
theorem restore_ends_process :
    (runSteps (step rocksEngine unaryCodec 1 2 10) ⟨some interrupted, .idle⟩
      [.restoreAt, .connect, .recv ⟨[userRecord 1], true⟩]).map Joiner.phase =
        some (.dead "DBBreaker.Put in partition 1 failed with error not found") ∧
    ∃ message, (runSteps (step inmemEngine unaryCodec 1 2 10) ⟨none, .idle⟩
      [.restoreAt, .connect, .recv ⟨[userRecord 1], false⟩,
        .recv ⟨[userRecord 2], true⟩]).map Joiner.phase = some (.dead message) :=
  ⟨by decide, _, rfl⟩

/-- A new replica over RocksDB survives, and so does one in memory that has finished. -/
theorem restore_survives_iff_new : Survives rocksEngine unaryCodec 1 2 10 none ∧
      Survives inmemEngine unaryCodec 1 2 10 (some ⟨10, newRecords unaryCodec 10 ⟨[], true⟩⟩) := by
  obtain ⟨hrocks, hinmem⟩ := restore_survives_iff unaryCodec 1 2 10
  refine ⟨(hrocks none).mpr ?_, (hinmem _ ?_).mpr ?_⟩
  · rintro ⟨r, hr, _⟩
    cases hr
  · rintro p ⟨⟩
    exact List.pairwise_singleton _ _
  · exact ⟨_, rfl, _, rfl, le_rfl, rfl⟩

end Scout.Restore
