import Scout.Storage.Emulated
import Mathlib.Data.Set.List

/-!
The in-memory engine behind `mvcc.DBBreaker` (`mvcc/emulated.go`, `mvcc/db_breaker.go`): an
operation that fails is repeated a few times and then ends the process. Reads of a partition
that exists never fail; a `Put` is accepted when no version that it brings differs from another
one with the same address and timestamp.
-/

namespace Scout.Emulated

open Data Lib

/-- `Address.String` of the versioned layer. -/
def addressString (a : Address) : String :=
  "ks:" ++ toString a.keyspace ++ ",key:" ++
    String.ofList (base64RawUrl (a.key.map fun b => UInt8.ofNat b.val))

def put (part : Inmem.Partition) (index : Nat) (records : List Mvcc.Record) :
    Inmem.Partition × Option String :=
  match records.find? fun r => r.timestamp = 0 with
  | some r =>
    (part, some ("trying to put record with missing timestamp at " ++ addressString r.address))
  | none => part.put index (records.map toKVRecord)

/-- `DBBreaker.Put`; `none` when it shuts the process down. -/
def breakerPut (retries : Nat) (part : Inmem.Partition) (index : Nat)
    (records : List Mvcc.Record) : Option Inmem.Partition :=
  match retry (fun p => put p index records) retries part with
  | (part', none) => some part'
  | (_, some _) => none

/-! ## Writes -/

/-- Versions with one record for each address and timestamp agree as they are stored. -/
theorem agreeing_of_keyed {rs : List Mvcc.Record} (h : Mvcc.Keyed rs) :
    Inmem.Agreeing (rs.map toKVRecord) := by
  intro x hx y hy ha
  obtain ⟨r, hr, rfl⟩ := List.mem_map.mp hx
  obtain ⟨s, hs, rfl⟩ := List.mem_map.mp hy
  obtain ⟨⟨ks, k⟩, t, v, f⟩ := r
  obtain ⟨⟨ks', k'⟩, t', v', f'⟩ := s
  obtain ⟨rfl, rfl, rfl⟩ := ha
  rw [h _ hr _ hs rfl rfl]

def Holds (part : Inmem.Partition) (rs : List Mvcc.Record) : Prop :=
  ∀ x, x ∈ part.records ↔ x ∈ rs.map toKVRecord

/-- **`Put` accepts versions that differ from no other.** -/
theorem breakerPut_keyed {part : Inmem.Partition} {rs records : List Mvcc.Record}
    (hp : Holds part rs) (hk : Mvcc.Keyed (rs ++ records))
    (ht : ∀ r ∈ records, 0 < r.timestamp) (retries index : Nat) :
    ∃ out, breakerPut retries part index records = some out ∧ Holds out (rs ++ records) := by
  have hagree : Inmem.Agreeing (part.records ++ records.map toKVRecord) := by
    have hmem : ∀ x, x ∈ part.records ++ records.map toKVRecord →
        x ∈ (rs ++ records).map toKVRecord := by
      intro x hx
      rw [List.map_append, List.mem_append, ← hp x]
      exact List.mem_append.mp hx
    intro x hx y hy
    exact agreeing_of_keyed hk x (hmem x hx) y (hmem y hy)
  have hts : ∀ x ∈ records.map toKVRecord, x.address.timestamp ≠ 0 := by
    intro x hx
    obtain ⟨r, hr, rfl⟩ := List.mem_map.mp hx
    exact (ht r hr).ne'
  obtain ⟨out, hout, _, hrec⟩ := Inmem.put_agreeing index hagree hts
  have hfind : records.find? (fun r => r.timestamp = 0) = none := by
    rw [List.find?_eq_none]
    intro r hr
    simpa using (ht r hr).ne'
  have hput : put part index records = (out, none) := by
    rw [put, hfind]
    exact hout
  refine ⟨out, by rw [breakerPut, retry_ok hput], fun x => ?_⟩
  rw [hrec, hp x, List.map_append, List.mem_append]

/-! ## Reads -/

section Reads

variable {db : DB} {pid : Nat} {part : Inmem.Partition} {rs : List Mvcc.Record}
  (hp : Holds part rs) (hdb : db.lookup pid = some part)

include hp

theorem Holds.getRange_versions (start : Kv.Address) (stop : Option Kv.Address) :
    ∃ vs : List Mvcc.Record, part.getRange start stop = vs.map toKVRecord := by
  have hsub : part.getRange start stop ∈ Set.range (List.map toKVRecord) := by
    rw [Set.range_list_map]
    intro x hx
    have hx' : x ∈ part.records :=
      List.mem_of_mem_drop ((List.takeWhile_subset _) hx)
    obtain ⟨r, _, rfl⟩ := List.mem_map.mp ((hp x).mp hx')
    exact ⟨r, rfl⟩
  obtain ⟨vs, hvs⟩ := hsub
  exact ⟨vs, hvs.symm⟩

include hdb

theorem Holds.exists_ok (t : Nat) (a : Address) : ∃ b, exists_ db pid t a = .ok b := by
  obtain ⟨vs, hvs⟩ := hp.getRange_versions ⟨a.keyspace, a.key, Mvcc.readTimestamp t⟩
    (some (lastAddressForKey a.keyspace a.key).next)
  have hpart : getPartition db pid = .ok part := by rw [getPartition, hdb]
  have hfirst : getFirst db pid t a = .ok vs.head? := by
    simp only [getFirst, hpart, bind, Except.bind, hvs]
    cases vs with
    | nil => rfl
    | cons v vs =>
      simp only [List.map_cons, fromKVRecord_toKVRecord]
      rfl
  have hlive : getLive db pid t a = .ok (vs.head?.filter fun r => !Mvcc.tombstone r.flags) := by
    rw [getLive, hfirst]
    rfl
  refine ⟨(vs.head?.filter fun r => !Mvcc.tombstone r.flags).isSome, ?_⟩
  simp only [exists_, get, List.mapM_cons, List.mapM_nil, hlive]
  rfl

theorem Holds.existsInRange_ok (t : Nat) (start stop : Address) :
    ∃ b, existsInRange db pid t start stop = .ok b := by
  obtain ⟨vs, hvs⟩ := hp.getRange_versions ⟨start.keyspace, start.key, Mvcc.readTimestamp t⟩
    (some ⟨stop.keyspace, stop.key, Mvcc.readTimestamp t⟩)
  have hpart : getPartition db pid = .ok part := by rw [getPartition, hdb]
  have hiter : iterator db pid t start stop =
      .ok (scanRecords (Mvcc.readTimestamp t) stop [] vs, false) := by
    simp only [iterator, hpart, bind, Except.bind, hvs, scan_toKVRecord]
    rfl
  simp only [existsInRange, hiter, bind, Except.bind]
  split
  · exact ⟨true, rfl⟩
  · exact ⟨false, rfl⟩

end Reads

end Scout.Emulated
