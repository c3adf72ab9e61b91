import Scout.Replica.Stream
import Scout.Txn.Engine

/-!
Serving replicas are sponsors. A replica that has applied the first entries of a log holds every
record that they have written, at a timestamp above zero, as long as no txn writes a key with two
values; and it knows from its index which entries these are.
-/

namespace Scout.Restore

open Txn Lib
open Mvcc (Store)
open Emulated (toKVRecord)

/-- The records of the log entry with index `i`, as they are stored. -/
def writtenBy (s : Manager × Store) : List Entry → Nat → List Kv.Record
  | [], _ => []
  | e :: es, i =>
    (if e.index = i then (entryWrites s e).map toKVRecord else []) ++
      writtenBy (applyEntry s e).1 es i

theorem writtenBy_append (s : Manager × Store) (es es' : List Entry) (i : Nat) :
    writtenBy s (es ++ es') i = writtenBy s es i ++ writtenBy (applyLog s es).1 es' i := by
  induction es generalizing s with
  | nil => rfl
  | cons e es ih =>
    rw [List.cons_append, writtenBy, writtenBy, ih, List.append_assoc]
    rfl

theorem writtenBy_subset (s : Manager × Store) (es : List Entry) (i : Nat) :
    ∀ r ∈ writtenBy s es i, r ∈ (logWrites s es).map toKVRecord := by
  induction es generalizing s with
  | nil => exact nofun
  | cons e es ih =>
    intro r hr
    rw [logWrites, List.map_append, List.mem_append]
    rcases List.mem_append.mp hr with hr | hr
    · split at hr
      · exact .inl hr
      · cases hr
    · exact .inr (ih _ r hr)

theorem writtenBy_later (s : Manager × Store) {es : List Entry} {i : Nat}
    (h : ∀ e ∈ es, i < e.index) : writtenBy s es i = [] := by
  induction es generalizing s with
  | nil => rfl
  | cons e es ih =>
    have hne : e.index ≠ i := (h e (by simp)).ne'
    rw [writtenBy, if_neg hne, List.nil_append]
    exact ih _ fun x hx => h x (by simp [hx])

theorem applyLog_index (s : Manager × Store) (es : List Entry) {n : Nat} (hs : s.2.index < n)
    (h : ∀ e ∈ es, e.index < n) : (applyLog s es).1.2.index < n := by
  refine applyLog_invariant (fun s => s.2.index < n) s es hs ?_
  intro s e he hi
  exact Nat.max_lt.mpr ⟨hi, h e he⟩

/-- **A replica that has applied a part of the log is a sponsor** with its index and records.
Indexes grow along a Raft log and start at one; addresses have the widths of their types. -/
theorem exists_sponsor (clock : Clock) (evs : List Txn.Event) (pid : Nat) (cleanAfter : Int)
    (pre post : List Entry) (hlog : (Writer.run { clock } evs).log = pre ++ post)
    (hidx : (0 :: (pre ++ post).map Entry.index).Pairwise (· < ·))
    (hs : ∀ e ∈ pre ++ post, ∀ txn ∈ newTxns e.batch, SingleValued txn)
    (hfits : ∀ r ∈ logWrites (newPartition pid cleanAfter) pre, (toKVRecord r).address.Fits)
    (inmem : Bool) : ∃ s : Sponsor (writtenBy (newPartition pid cleanAfter) (pre ++ post)),
      s.inmem = inmem ∧ s.index = (applyLog (newPartition pid cleanAfter) pre).1.2.index ∧
      ∀ r, r ∈ s.stored.records ↔
        r ∈ (applyLog (newPartition pid cleanAfter) pre).1.2.records.map toKVRecord := by
  set P := newPartition pid cleanAfter
  have hc := writer_chain clock evs
  rw [hlog, List.map_append] at hc
  obtain ⟨f, hpre, _⟩ := hc.append
  have hfiled := (filed_new clock.last pid cleanAfter).log (s := P) hpre
    fun e he => hs e (List.mem_append_left _ he)
  rw [List.nil_append] at hfiled
  have hrecs : (applyLog P pre).1.2.records = overwriteAll Mvcc.Record.address
      Mvcc.Record.timestamp [] (logWrites P pre) := applyLog_records _ pre
  -- immutable records: the store holds exactly what was written
  have hmem : ∀ r, r ∈ (applyLog P pre).1.2.records ↔ r ∈ logWrites P pre := by
    intro r
    rw [hrecs]
    constructor
    · intro hr
      exact (mem_of_mem_overwriteAll hr).resolve_left List.not_mem_nil
    · intro hr
      exact mem_overwriteAll_of_agrees (.inr hr) fun w hw ha ht =>
        hfiled.keyed w hw r hr ha.symm ht.symm
  have hdist : Inmem.Distinct ((applyLog P pre).1.2.records.map toKVRecord) := by
    rw [Inmem.Distinct, List.pairwise_map, hrecs]
    refine (pairwise_overwriteAll _ List.Pairwise.nil).imp ?_
    intro a b hne ha
    simp only [toKVRecord, Kv.Address.mk.injEq] at ha
    exact hne ⟨by rw [Data.Address.mk.injEq]; exact ⟨ha.1, ha.2.1⟩, ha.2.2⟩
  have hsorted : ∀ r, r ∈ ((applyLog P pre).1.2.records.map toKVRecord).insertionSort
      Inmem.notAfter ↔ ∃ x ∈ logWrites P pre, toKVRecord x = r := by
    intro r
    rw [List.mem_insertionSort, List.mem_map]
    exact exists_congr fun x => and_congr_left fun _ => hmem x
  have hlater : ∀ e ∈ post, (applyLog P pre).1.2.index < e.index := by
    intro e he
    rw [List.map_append, List.pairwise_cons, List.pairwise_append] at hidx
    refine applyLog_index _ pre (hidx.1 _ ?_) fun x hx => ?_
    · exact List.mem_append_right _ (List.mem_map_of_mem he)
    · exact hidx.2.2.2 _ (List.mem_map_of_mem hx) _ (List.mem_map_of_mem he)
  refine ⟨⟨inmem, (applyLog P pre).1.2.index, ⟨_, hdist.sorted, ?_, ?_⟩, ?_, ?_⟩, rfl, rfl,
    fun r => List.mem_insertionSort _⟩
  · intro r hr
    obtain ⟨x, hx, rfl⟩ := (hsorted r).mp hr
    exact hfits x hx
  · -- the engine's own records carry no timestamp
    intro r hr
    obtain ⟨x, hx, rfl⟩ := (hsorted r).mp hr
    have hpos : 0 < (toKVRecord x).address.timestamp := hfiled.positive x hx
    constructor <;> intro h <;> rw [h] at hpos <;> exact absurd hpos (by decide)
  · intro i hi r hr
    rw [writtenBy_append, writtenBy_later _ fun e he => hi.trans_lt (hlater e he),
      List.append_nil] at hr
    exact (hsorted r).mpr (List.mem_map.mp (writtenBy_subset _ _ _ r hr))
  · intro r hr _
    obtain ⟨x, hx, rfl⟩ := (hsorted r).mp hr
    exact hfiled.positive x hx

def oneWrite : List Txn.Event := [.autocommit (upserts 1 [[1]]), .flush [] (some (1, 0))]

theorem exists_sponsor_oneWrite :
    ∃ s : Sponsor (writtenBy (newPartition 1 0) (logOf oneWrite ++ [])), s.inmem = true ∧
      s.index = 1 ∧ ∀ r, r ∈ s.stored.records ↔ r ∈ [⟨⟨16, [1], 2⟩, [10, 1, 1, 0]⟩] := by
  have hwrites : logWrites (newPartition 1 0) (logOf oneWrite) =
      [⟨⟨16, [1]⟩, 2, [10, 1, 1], 0⟩] := by decide
  refine exists_sponsor ⟨1, Nat.one_pos⟩ oneWrite 1 0 (logOf oneWrite) [] rfl (by decide)
    (by decide) ?_ true
  rw [hwrites, List.forall_mem_singleton]
  exact ⟨by decide, by decide⟩

end Scout.Restore
