import Scout.Lib.Go
import Scout.Lib.Versioned
import Scout.Storage.Inmem

/-!
One partition of a `kv.DB`, in memory (`inmem.go`) and as a column family of RocksDB
(`rocksdb_kv.go`): the calls that a joining replica makes, and the same calls through
`kv.DBBreaker`. RocksDB overwrites a record with an equal key and timestamp; its own failures
(disk, memory) are left out.
-/

namespace Scout

open Lib Data

/-- `Get` of the in-memory engine. -/
def Inmem.Partition.get (p : Inmem.Partition) (addr : Kv.Address) : Option Kv.Record :=
  let f := p.findFirst addr
  if f.2 then p.records[f.1]? else none

namespace Kv

/-- `keyIndex` and the records of a column family. -/
structure ColumnFamily where
  index : Nat := 0
  records : List Record := []
  deriving DecidableEq, Repr

/-- What `encodeKey` encodes. -/
def Record.userKey (r : Record) : Nat × Bytes := (r.address.keyspace, r.address.key)

def Record.timestamp (r : Record) : Nat := r.address.timestamp

/-- One write batch; the merge operator keeps the larger index. -/
def ColumnFamily.put (cf : ColumnFamily) (index : Nat) (records : List Record) : ColumnFamily where
  index := if index > 0 then max cf.index index else cf.index
  records := overwriteAll Record.userKey Record.timestamp cf.records records

/-- `GetCFWithTS` finds the newest version at or before the timestamp. -/
def ColumnFamily.get (cf : ColumnFamily) (addr : Address) : Option Record :=
  match newest Record.userKey Record.timestamp cf.records (addr.keyspace, addr.key)
      addr.timestamp with
  | none => none
  | some r => if r.timestamp ≠ addr.timestamp then none else some ⟨addr, r.data⟩

/-- The calls on one partition; each returns the state after it and its error. -/
structure Engine (σ : Type) where
  initPartition : σ → σ × Option String
  dropPartition : σ → σ × Option String
  put : σ → Nat → List Record → σ × Option String
  get : σ → Address → Except String (Option Record)

/-- `errors.NotFound`. -/
def notFound : String := "not found"

def inmemEngine : Engine (Option Inmem.Partition) where
  initPartition s := (some (s.getD {}), none)
  dropPartition _ := (none, none)
  put s index records :=
    match s with
    | none => (none, some notFound)
    | some p => (some (p.put index records).1, (p.put index records).2)
  get s addr :=
    match s with
    | none => .error notFound
    | some p => .ok (p.get addr)

def rocksEngine : Engine (Option ColumnFamily) where
  initPartition s := (some (s.getD {}), none)
  dropPartition s :=
    match s with
    | none => (none, some notFound)
    | some _ => (none, none)
  put s index records :=
    match s with
    | none => (none, some notFound)
    | some cf => (some (cf.put index records), none)
  get s addr :=
    match s with
    | none => .error notFound
    | some cf => .ok (cf.get addr)

/-- A call through `DBBreaker`: the state after it, or the text that the process ends with. -/
def breaker {σ : Type} (retries : Nat) (call : String) (work : σ → σ × Option String) (s : σ) :
    Except String σ :=
  match retry work retries s with
  | (s', none) => .ok s'
  | (_, some err) => .error (call ++ " failed with error " ++ err)

section Breaker

variable {σ : Type} (retries : Nat) (call : String) (work : σ → σ × Option String) {s s' : σ}

theorem breaker_ok (h : work s = (s', none)) : breaker retries call work s = .ok s' := by
  rw [breaker, retry_ok h]

/-- A call that fails without any effect fails for ever. -/
theorem breaker_error {err : String} (h : work s = (s, some err)) :
    ∃ message, breaker retries call work s = .error message := by
  obtain ⟨err', he⟩ := retry_fails work h h retries
  exact ⟨_, by rw [breaker, he]⟩

end Breaker

/-! ## A single record in memory -/

end Kv

namespace Inmem

open Kv

variable {p : Partition} {r x : Record} (index : Nat)

theorem findFirst_sorted (hp : p.records.Pairwise notAfter) (hr : r ∈ p.records) :
    (p.findFirst r.address).2 = true := by
  obtain ⟨ls, us, hsplit, hl, hu⟩ := sorted_divide hp r.address
  rw [findFirst_divided hsplit hl hu]
  rw [hsplit, List.mem_append] at hr
  have hus := hr.resolve_left fun hin => lt_irrefl _ (hl r hin)
  obtain _ | ⟨y, us⟩ := us
  · cases hus
  · -- the first record of the second part is not above `r`
    have hy : y.address = r.address := by
      rcases List.mem_cons.mp hus with rfl | hin
      · rfl
      · rw [hsplit] at hp
        have hle := (List.pairwise_cons.mp (List.pairwise_append.mp hp).2.1).1 r hin
        exact le_antisymm (notAfter_iff.mp hle) (hu y (by simp))
    simp [Address.compare_eq_zero.mpr hy.symm]

theorem Partition.get_found (hf : (p.findFirst r.address).2 = true) :
    ∃ x, p.get r.address = some x ∧ x ∈ p.records ∧ x.address = r.address := by
  obtain ⟨x, hx, hc⟩ := search_found hf
  refine ⟨x, ?_, List.mem_of_getElem? hx, (Address.compare_eq_zero.mp hc).symm⟩
  rw [Partition.get, if_pos hf]
  exact hx

theorem Partition.put_refused (hr : r.address.timestamp ≠ 0) (hg : p.get r.address = some x)
    (hd : x.data ≠ r.data) : ∃ err, p.put index [r] = (p, some err) := by
  have hf : (p.findFirst r.address).2 = true := by
    by_contra hf
    rw [Partition.get, if_neg hf] at hg
    cases hg
  have hx : p.records[(p.findFirst r.address).1]? = some x := by
    rw [← hg, Partition.get, if_pos hf]
  have hone : p.putOne r =
      .error ("key overwrite detected at address " ++ r.address.string) := by
    simp [Partition.putOne, hf, hx, hd]
  refine ⟨"key overwrite detected at address " ++ r.address.string, ?_⟩
  simp only [Partition.put, Partition.putLoop, if_neg hr, hone]

theorem Partition.put_single (hp : p.records.Pairwise notAfter) (hr : r.address.timestamp ≠ 0) :
    (∃ err, p.put index [r] = (p, some err)) ∨
      ∃ p' x, p.put index [r] = (p', none) ∧ p'.get r.address = some x ∧ x.data = r.data := by
  cases hf : (p.findFirst r.address).2 with
  | true =>
    obtain ⟨x, hg, _, _⟩ := Partition.get_found hf
    by_cases hd : x.data = r.data
    · -- nothing changes but the index
      have hx : p.records[(p.findFirst r.address).1]? = some x := by
        rw [← hg, Partition.get, if_pos hf]
      have hone : p.putOne r = .ok p := by simp [Partition.putOne, hf, hx, hd]
      refine .inr ⟨⟨max p.index index, p.records⟩, x, ?_, hg, hd⟩
      simp only [Partition.put, Partition.putLoop, if_neg hr, hone, hp.insertionSort_eq]
    · exact .inl (Partition.put_refused index hr hg hd)
  | false =>
    have hone : p.putOne r = .ok { p with records := p.records ++ [r] } := by
      simp [Partition.putOne, hf]
    have hsorted := List.pairwise_insertionSort notAfter (p.records ++ [r])
    have hmem : r ∈ (p.records ++ [r]).insertionSort notAfter := by simp
    obtain ⟨x, hg, hx, ha⟩ := Partition.get_found (findFirst_sorted
      (p := ⟨max p.index index, (p.records ++ [r]).insertionSort notAfter⟩) hsorted hmem)
    refine .inr ⟨_, x, ?_, hg, ?_⟩
    · simp only [Partition.put, Partition.putLoop, if_neg hr, hone]
    · -- no other record has the address
      rw [List.mem_insertionSort, List.mem_append, List.mem_singleton] at hx
      rcases hx with hx | rfl
      · have hfound := findFirst_sorted hp hx
        rw [ha, hf] at hfound
        cases hfound
      · rfl

end Inmem

namespace Kv

/-! ## What RocksDB holds after a batch -/

abbrev Keyed (rs : List Record) : Prop := Lib.Keyed Record.userKey Record.timestamp rs

variable {r : Record}

theorem same_address {x : Record} :
    r.userKey = x.userKey ∧ r.timestamp = x.timestamp ↔ r.address = x.address := by
  obtain ⟨⟨ks, key, t⟩, d⟩ := r
  obtain ⟨⟨ks', key', t'⟩, d'⟩ := x
  simp [Record.userKey, Record.timestamp, and_assoc]

variable {cf : ColumnFamily}

theorem ColumnFamily.get_eq_some (hk : Keyed cf.records) {addr : Address} :
    cf.get addr = some r ↔ r ∈ cf.records ∧ r.address = addr := by
  unfold ColumnFamily.get
  constructor
  · intro h
    split at h
    · cases h
    rename_i x hx
    split at h
    · cases h
    rename_i ht
    cases h
    obtain ⟨hm, ha, _, _⟩ := newest_spec hx
    have hts : x.timestamp = addr.timestamp := not_not.mp ht
    have hadr : x.address = (⟨addr, []⟩ : Record).address := same_address.mp ⟨ha, hts⟩
    obtain ⟨a, d⟩ := x
    cases hadr
    exact ⟨hm, rfl⟩
  · rintro ⟨hm, rfl⟩
    split
    · rename_i hn
      exact absurd (newest_none.mp hn r hm rfl) (lt_irrefl _)
    · rename_i x hx
      obtain ⟨hxm, hxa, hxt, hmax⟩ := newest_spec hx
      have ht : x.timestamp = r.timestamp := le_antisymm hxt (hmax r hm rfl le_rfl)
      obtain rfl : x = r := hk x hxm r hm hxa ht
      simp [Record.timestamp]

theorem ColumnFamily.keyed_put (hk : Keyed cf.records) (index : Nat) (rs : List Record) :
    Keyed (cf.put index rs).records := Lib.Keyed.overwriteAll rs hk

theorem ColumnFamily.mem_put_snoc {index : Nat} {rs : List Record} {last : Record} :
    r ∈ (cf.put index (rs ++ [last])).records ↔
      r = last ∨ r ∈ (cf.put index rs).records ∧ r.address ≠ last.address := by
  change r ∈ overwriteAll _ _ _ _ ↔ _
  rw [overwriteAll_append]
  exact mem_overwrite.trans (or_congr_right (and_congr_right fun _ => not_congr same_address))

theorem ColumnFamily.mem_put_of_agrees {rs : List Record} (h : r ∈ cf.records ∨ r ∈ rs)
    (hw : ∀ w ∈ rs, w.address = r.address → w = r) (index : Nat) : r ∈ (cf.put index rs).records :=
  mem_overwriteAll_of_agrees h fun w hm hk ht => hw w hm (same_address.mp ⟨hk, ht⟩).symm

theorem ColumnFamily.mem_of_mem_put {index : Nat} {rs : List Record}
    (h : r ∈ (cf.put index rs).records) : r ∈ cf.records ∨ r ∈ rs :=
  mem_of_mem_overwriteAll h

end Kv

end Scout
