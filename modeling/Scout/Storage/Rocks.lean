import Scout.Lib.Bytes
import Scout.Storage.Inmem

/-!
Range reads of the RocksDB engine (`rocksdb_kv.go`, `comparator.go`, `encoding.go`). A
column family is listed in the order of the comparator; an iterator starts at the first
user key that is not before the sought one, sees all versions, and stops at the first
user key that is not before its upper bound. The engine keeps two records of its own in every
column family, in keyspace 0, and its iterators do not leave them out.
-/

namespace Scout.Rocks

open Kv Lib Inmem
open Data (Bytes maxUint64)

/-! ## Encoding and comparator -/

def encodeKey (keyspace : Nat) (key : Bytes) : Bytes := bigEndian 4 keyspace ++ key

def encodeUint32 (v : Nat) : Bytes := bigEndian 4 v

def encodeUint64 (v : Nat) : Bytes := bigEndian 8 v

def decodeKey (key : Bytes) : Nat × Bytes := (ofBigEndian (key.take 4), key.drop 4)

def decodeUint64 (data : Bytes) : Nat := ofBigEndian data

structure Entry where
  key : Bytes
  ts : Bytes
  value : Bytes
  deriving DecidableEq

/-- What `Put` writes for a record. -/
def entry (r : Record) : Entry :=
  ⟨encodeKey r.address.keyspace r.address.key, encodeUint64 r.address.timestamp, r.data⟩

/-- What `getIterator` reads back. -/
def Entry.record (e : Entry) : Record :=
  ⟨⟨(decodeKey e.key).1, (decodeKey e.key).2, decodeUint64 e.ts⟩, e.value⟩

/-- On user keys, as seeks and bounds are compared. -/
def compareWithoutTs (a b : Bytes) : Int := bytesCompare a b

/-! ## Iterators -/

def iterator (cf : List Entry) (seek : Bytes) (upper : Option Bytes) : List Entry :=
  (cf.dropWhile fun e => decide (compareWithoutTs e.key seek < 0)).takeWhile fun e =>
    upper.all fun u => decide (compareWithoutTs e.key u < 0)

/-- The loop of `getIterator`. -/
def yieldLoop (start : Address) (stop : Option Address) : List Entry → List Record
  | [] => []
  | e :: es =>
    if e.record.address.before start then yieldLoop start stop es
    else if stop.any fun b => decide (0 ≤ e.record.address.compare b) then []
    else e.record :: yieldLoop start stop es

def getRange (cf : List Entry) (start : Address) (stop : Option Address) : List Record :=
  yieldLoop start stop
    (iterator cf (encodeKey start.keyspace start.key)
      (stop.map fun e => encodeKey e.nextKey.keyspace e.nextKey.key))

/-! ## Encoded keys keep the order -/

theorem encodeKey_lt {ks ks' : Nat} (h : ks < 2 ^ 32) (h' : ks' < 2 ^ 32) {k k' : Bytes} :
    encodeKey ks k < encodeKey ks' k' ↔ ks < ks' ∨ ks = ks' ∧ k < k' := by
  have hx : ks < 256 ^ 4 := h
  have hy : ks' < 256 ^ 4 := h'
  rw [encodeKey, encodeKey, append_lt_append_iff_of_length (by simp), bigEndian_lt_iff hx hy,
    bigEndian_inj hx hy]

theorem decodeKey_encodeKey {ks : Nat} (h : ks < 2 ^ 32) (k : Bytes) :
    decodeKey (encodeKey ks k) = (ks, k) := by
  have hx : ks < 256 ^ 4 := h
  have ht : (bigEndian 4 ks ++ k).take 4 = bigEndian 4 ks := by simp
  have hd : (bigEndian 4 ks ++ k).drop 4 = k := by simp
  rw [decodeKey, encodeKey, ht, hd, ofBigEndian_bigEndian hx]

theorem decodeUint64_encodeUint64 {v : Nat} (h : v ≤ maxUint64) :
    decodeUint64 (encodeUint64 v) = v :=
  ofBigEndian_bigEndian (lt_of_le_of_lt h (by decide))

variable {r : Record}

theorem entry_record (h : r.address.Fits) : (entry r).record = r := by
  unfold Entry.record entry
  rw [decodeKey_encodeKey h.keyspace_lt, decodeUint64_encodeUint64 h.timestamp_le]

/-! ## The same records in both engines -/

/-- `keyPartition`, the characters `pid`. -/
def keyPartition : Address := ⟨0, [112, 105, 100], 0⟩

/-- `keyIndex`, the characters `index`. -/
def keyIndex : Address := ⟨0, [105, 110, 100, 101, 120], 0⟩

/-- The records that the engine keeps for itself: `initCF` puts the first one, and `Put` the
second one once it is called with an index. -/
def reserved (pid index : Nat) : List Record :=
  ⟨keyPartition, encodeUint32 pid⟩ ::
    if 0 < index then [⟨keyIndex, encodeUint64 index⟩] else []

/-- The records that were put, none of them under a key of the engine. -/
structure Stored where
  records : List Record
  increasing : Increasing records
  fits : ∀ r ∈ records, r.address.Fits
  separate : ∀ r ∈ records, r.address ≠ keyPartition ∧ r.address ≠ keyIndex

def Stored.partition (s : Stored) : Partition := { records := s.records }

def Stored.rows (s : Stored) (pid index : Nat) : List Record :=
  (reserved pid index ++ s.records).insertionSort notAfter

def Stored.columnFamily (s : Stored) (pid index : Nat) : List Entry :=
  (s.rows pid index).map entry

def inRange (start : Address) (stop : Option Address) (r : Record) : Bool :=
  decide (start ≤ r.address) && stop.all fun e => decide (r.address < e)

theorem stop_any_eq (stop : Option Address) (a : Address) :
    (stop.any fun e => decide (0 ≤ a.compare e)) = !stop.all fun e => decide (a < e) := by
  cases stop with
  | none => rfl
  | some e =>
    rw [Option.any_some, Option.all_some, ← decide_not, decide_eq_decide, ← Address.compare_neg,
      not_lt]

/-- Once a record is past the end, so are those after it. -/
theorem stop_divides {rs : List Record} (h : Increasing rs) (stop : Option Address) :
    rs.Pairwise fun a b => (stop.all fun e => decide (b.address < e)) = true →
        (stop.all fun e => decide (a.address < e)) = true := by
  refine h.imp ?_
  intro a b hab
  cases stop with
  | none => exact fun _ => rfl
  | some e => simpa using fun hb => hab.trans hb

/-- **The in-memory range** is the set of records between the addresses, in order. -/
theorem partition_getRange {p : Partition} (h : Increasing p.records) (start : Address)
    (stop : Option Address) : p.getRange start stop = p.records.filter (inRange start stop) := by
  obtain ⟨ls, us, hp, hl, hu⟩ := h.divide start
  have hus : Increasing us := by
    rw [hp] at h
    exact (List.pairwise_append.mp h).2.1
  have hlow : ls.filter (inRange start stop) = [] := by
    rw [List.filter_eq_nil_iff]
    intro r hr
    simp [inRange, not_le.mpr (hl r hr)]
  have hhigh : us.filter (inRange start stop) =
      us.filter fun r => stop.all fun e => decide (r.address < e) := by
    refine List.filter_congr ?_
    intro r hr
    simp [inRange, hu r hr]
  rw [Partition.getRange, findFirst_divided hp hl hu, hp, List.drop_left, List.filter_append, hlow,
    hhigh, List.nil_append, ← takeWhile_eq_filter (stop_divides hus stop)]
  congr 1
  funext r
  rw [stop_any_eq, Bool.not_not]

theorem yieldLoop_eq {rs : List Record} (h : Increasing rs) (hf : ∀ r ∈ rs, r.address.Fits)
    (start : Address) (stop : Option Address) :
    yieldLoop start stop (rs.map entry) = rs.filter (inRange start stop) := by
  induction rs with
  | nil => rfl
  | cons r rs ih =>
    obtain ⟨hr, hrs⟩ := List.pairwise_cons.mp h
    have hrec := ih hrs (fun x hx => hf x (by simp [hx]))
    rw [List.map_cons, yieldLoop, entry_record (hf r (by simp)), hrec]
    by_cases hlt : r.address < start
    · rw [if_pos (Address.before_iff.mpr hlt), List.filter_cons_of_neg]
      simp [inRange, not_le.mpr hlt]
    · rw [if_neg (mt Address.before_iff.mp hlt), stop_any_eq]
      have hge := not_lt.mp hlt
      cases hend : stop.all fun e => decide (r.address < e) with
      | true =>
        rw [List.filter_cons_of_pos (by simp [inRange, hge, hend])]
        rfl
      | false =>
        -- the records after `r` are past the end as well
        have hrest : rs.filter (inRange start stop) = [] := by
          rw [List.filter_eq_nil_iff]
          intro x hx hin
          have hxe := (Bool.and_eq_true_iff.mp hin).2
          have hre := (List.pairwise_cons.mp (stop_divides h stop)).1 x hx hxe
          rw [hre] at hend
          cases hend
        rw [List.filter_cons_of_neg (by simp [inRange, hend]), hrest]
        rfl

theorem nextKey_fits {e : Address} (h : e.Fits) :
    e.nextKey.Fits ∧ e.nextKey.timestamp = maxUint64 := by
  unfold Address.nextKey
  split
  · exact ⟨⟨Nat.mod_lt _ (by decide), le_rfl⟩, rfl⟩
  · exact ⟨⟨h.keyspace_lt, le_rfl⟩, rfl⟩

variable {a : Address}

theorem compareWithoutTs_neg (hr : r.address.Fits) (ha : a.Fits) :
    compareWithoutTs (entry r).key (encodeKey a.keyspace a.key) < 0 ↔
      r.address.keyspace < a.keyspace ∨
        r.address.keyspace = a.keyspace ∧ r.address.key < a.key := by
  rw [compareWithoutTs, bytesCompare_neg]
  exact encodeKey_lt hr.keyspace_lt ha.keyspace_lt

theorem compareWithoutTs_first (hr : r.address.Fits) (ha : a.Fits) (ht : a.timestamp = maxUint64) :
    compareWithoutTs (entry r).key (encodeKey a.keyspace a.key) < 0 ↔ r.address < a := by
  rw [compareWithoutTs_neg hr ha, Address.lt_iff]
  have hle := hr.timestamp_le
  constructor
  · rintro (h | ⟨h, h'⟩)
    · exact .inl h
    · exact .inr ⟨h, .inl h'⟩
  · rintro (h | ⟨h, h' | ⟨_, h'⟩⟩)
    · exact .inl h
    · exact .inr ⟨h, h'⟩
    · omega

theorem lt_of_compareWithoutTs (hr : r.address.Fits) (ha : a.Fits)
    (h : compareWithoutTs (entry r).key (encodeKey a.keyspace a.key) < 0) : r.address < a := by
  rw [compareWithoutTs_neg hr ha] at h
  rw [Address.lt_iff]
  rcases h with h | ⟨h, h'⟩
  · exact .inl h
  · exact .inr ⟨h, .inl h'⟩

theorem entry_key_le {a b : Record} (ha : a.address.Fits) (hb : b.address.Fits)
    (hab : a.address < b.address) : (entry a).key ≤ (entry b).key := by
  rw [← not_lt]
  intro h
  have hba := lt_of_compareWithoutTs hb ha (bytesCompare_neg.mpr h)
  exact lt_asymm hab hba

section Listed

variable {rs : List Record} (hinc : Increasing rs) (hfits : ∀ r ∈ rs, r.address.Fits)

include hinc hfits

theorem key_divides (u : Bytes) : rs.Pairwise fun a b =>
    decide (compareWithoutTs (entry b).key u < 0) = true →
      decide (compareWithoutTs (entry a).key u < 0) = true := by
  refine hinc.imp_of_mem ?_
  intro a b ha hb hab h
  simp only [decide_eq_true_eq, compareWithoutTs, bytesCompare_neg] at h ⊢
  exact lt_of_le_of_lt (entry_key_le (hfits a ha) (hfits b hb) hab) h

theorem iterator_eq (seek : Bytes) (upper : Option Bytes) : iterator (rs.map entry) seek upper =
    (rs.filter fun r => !decide (compareWithoutTs (entry r).key seek < 0) &&
      upper.all fun u => decide (compareWithoutTs (entry r).key u < 0)).map entry := by
  have hupper : rs.Pairwise fun a b =>
      (upper.all fun u => decide (compareWithoutTs (entry b).key u < 0)) = true →
        (upper.all fun u => decide (compareWithoutTs (entry a).key u < 0)) = true := by
    cases upper with
    | none => exact hinc.imp fun _ _ => rfl
    | some u => exact key_divides hinc hfits u
  rw [iterator, List.dropWhile_map, List.takeWhile_map]
  congr 1
  simp only [Function.comp_def]
  rw [dropWhile_eq_filter (key_divides hinc hfits seek),
    takeWhile_eq_filter (hupper.sublist List.filter_sublist), List.filter_filter]
  exact List.filter_congr fun r _ => Bool.and_comm _ _

end Listed

/-- The upper bound of the iterator, as an address. -/
def belowBound (stop : Option Address) (r : Record) : Bool :=
  stop.all fun e => decide (r.address < e.nextKey)

theorem upper_eq {stop : Option Address} (hstop : ∀ e ∈ stop, e.Fits) (hr : r.address.Fits) :
    ((stop.map fun e => encodeKey e.nextKey.keyspace e.nextKey.key).all fun u =>
      decide (compareWithoutTs (entry r).key u < 0)) = belowBound stop r := by
  cases stop with
  | none => rfl
  | some e =>
    obtain ⟨hf, ht⟩ := nextKey_fits (hstop e rfl)
    exact decide_eq_decide.mpr (compareWithoutTs_first hr hf ht)

/-- **The range of listed records** also stops at the successor of the end key. -/
theorem getRange_listed {rs : List Record} (hinc : Increasing rs)
    (hfits : ∀ r ∈ rs, r.address.Fits) {start : Address} (hstart : start.Fits)
    {stop : Option Address} (hstop : ∀ e ∈ stop, e.Fits) :
    getRange (rs.map entry) start stop =
      rs.filter fun r => inRange start stop r && belowBound stop r := by
  rw [getRange, iterator_eq hinc hfits, yieldLoop_eq (hinc.sublist List.filter_sublist)
    (fun r hr => hfits r (List.mem_of_mem_filter hr)), List.filter_filter]
  refine List.filter_congr ?_
  intro r hr
  rw [upper_eq hstop (hfits r hr)]
  cases hin : inRange start stop r with
  | false => rfl
  | true =>
    -- what is in the range is not before the key that was sought
    have hge : start ≤ r.address := of_decide_eq_true (Bool.and_eq_true_iff.mp hin).1
    have hseek : ¬ compareWithoutTs (entry r).key (encodeKey start.keyspace start.key) < 0 :=
      fun h => absurd (lt_of_compareWithoutTs (hfits r hr) hstart h) (not_lt.mpr hge)
    simp [hseek]

/-! ## The rows of a column family -/

section Rows

variable {pid index : Nat} {q : Record}

theorem mem_reserved (h : q ∈ reserved pid index) :
    q.address = keyPartition ∨ q.address = keyIndex := by
  rcases List.mem_cons.mp h with rfl | h
  · exact .inl rfl
  · split at h
    · rw [List.mem_singleton.mp h]
      exact .inr rfl
    · cases h

theorem reserved_fits (h : q ∈ reserved pid index) : q.address.Fits := by
  rcases mem_reserved h with h | h <;> rw [h] <;> exact ⟨by decide, by decide⟩

theorem reserved_distinct (pid index : Nat) : Distinct (reserved pid index) := by
  unfold reserved
  split <;> simp [keyPartition, keyIndex]

theorem Stored.ne_reserved (s : Stored) {r : Record} (hq : q ∈ reserved pid index)
    (hr : r ∈ s.records) : q.address ≠ r.address := by
  intro h
  rcases mem_reserved hq with hq | hq
  · exact (s.separate r hr).1 (h ▸ hq)
  · exact (s.separate r hr).2 (h ▸ hq)

variable (s : Stored) (pid index : Nat)

theorem Stored.rows_increasing : Increasing (s.rows pid index) :=
  Distinct.sorted (List.pairwise_append.mpr ⟨reserved_distinct pid index, s.increasing.distinct,
    fun _ hq _ hr => s.ne_reserved hq hr⟩)

theorem Stored.mem_rows {r : Record} :
    r ∈ s.rows pid index ↔ r ∈ reserved pid index ∨ r ∈ s.records := by
  rw [Stored.rows, List.mem_insertionSort, List.mem_append]

theorem Stored.rows_fits : ∀ r ∈ s.rows pid index, r.address.Fits := by
  intro r hr
  rcases (s.mem_rows pid index).mp hr with hr | hr
  · exact reserved_fits hr
  · exact s.fits r hr

/-- Two choices of rows and of records are the same if the first one leaves out the records of the
engine. -/
theorem Stored.filter_rows_iff (p p' : Record → Bool) :
    (s.rows pid index).filter p = s.records.filter p' ↔
      (∀ q ∈ reserved pid index, p q = false) ∧ ∀ r ∈ s.records, p r = p' r := by
  have hrows := (s.rows_increasing pid index).sublist (List.filter_sublist (p := p))
  have hrecs := s.increasing.sublist (List.filter_sublist (p := p'))
  have hmem : (∀ r, r ∈ (s.rows pid index).filter p ↔ r ∈ s.records.filter p') ↔
      (∀ q ∈ reserved pid index, p q = false) ∧ ∀ r ∈ s.records, p r = p' r := by
    simp only [List.mem_filter, s.mem_rows]
    constructor
    · intro h
      refine ⟨fun q hq => ?_, fun r hr => ?_⟩
      · by_contra hp
        exact s.ne_reserved hq ((h q).mp ⟨.inl hq, by simpa using hp⟩).1 rfl
      · rw [Bool.eq_iff_iff]
        exact ⟨fun hp => ((h r).mp ⟨.inr hr, hp⟩).2, fun hp => ((h r).mpr ⟨hr, hp⟩).2⟩
    · rintro ⟨hres, hsame⟩ r
      constructor
      · rintro ⟨hr | hr, hp⟩
        · rw [hres r hr] at hp
          cases hp
        · exact ⟨hr, hsame r hr ▸ hp⟩
      · rintro ⟨hr, hp⟩
        exact ⟨.inr hr, (hsame r hr).symm ▸ hp⟩
  rw [← hmem]
  constructor
  · intro h r
    rw [h]
  · intro h
    have hperm := (List.perm_ext_iff_of_nodup (hrows.imp fun hlt e => by simp [e] at hlt)
      (hrecs.imp fun hlt e => by simp [e] at hlt)).mpr h
    exact hperm.eq_of_pairwise (fun a b _ _ hab hba => absurd hba (lt_asymm hab)) hrows hrecs

/-- **The range of a column family.** -/
theorem Stored.columnFamily_getRange {start : Address} (hstart : start.Fits)
    {stop : Option Address} (hstop : ∀ e ∈ stop, e.Fits) :
    getRange (s.columnFamily pid index) start stop =
      (s.rows pid index).filter fun r => inRange start stop r && belowBound stop r :=
  getRange_listed (s.rows_increasing pid index) (s.rows_fits pid index) hstart hstop

end Rows

/-- The addresses that an iterator of the column family yields. -/
def Covers (start : Address) (stop : Option Address) (a : Address) : Prop :=
  start ≤ a ∧ ∀ e ∈ stop, a < e ∧ a < e.nextKey

theorem covers_iff {start : Address} {stop : Option Address} :
    (inRange start stop r && belowBound stop r) = true ↔ Covers start stop r.address := by
  cases stop with
  | none => simp [inRange, belowBound, Covers]
  | some e => simp [inRange, belowBound, Covers, and_assoc]

/-- **When the engines agree on a range.** The in-memory engine returns the records from
`start` up to the end; the range of the column family is the same exactly when it does not cover
a record of the engine itself, and no other record of it lies at or after the successor of an end
key whose first byte carries. -/
theorem getRange_agree_iff (s : Stored) (pid index : Nat) {start : Address} (hstart : start.Fits)
    {stop : Option Address} (hstop : ∀ e ∈ stop, e.Fits) :
    s.partition.getRange start stop = s.records.filter (inRange start stop) ∧
    (getRange (s.columnFamily pid index) start stop = s.partition.getRange start stop ↔
      (∀ q ∈ reserved pid index, ¬ Covers start stop q.address) ∧
      ∀ e ∈ stop, e.wrapsBack = true → ∀ r ∈ s.records, start ≤ r.address → r.address < e →
        r.address < e.nextKey) := by
  have hpart : s.partition.getRange start stop = s.records.filter (inRange start stop) :=
    partition_getRange (p := s.partition) s.increasing start stop
  refine ⟨hpart, ?_⟩
  rw [hpart, s.columnFamily_getRange pid index hstart hstop, s.filter_rows_iff]
  refine and_congr ?_ ?_
  · refine forall₂_congr fun q _ => ?_
    rw [← covers_iff, Bool.not_eq_true]
  cases stop with
  | none => simp [belowBound]
  | some e =>
    simp only [inRange, belowBound, Option.all_some, Option.mem_some_iff, forall_eq']
    constructor
    · intro h _ r hr hge hlt
      have := h r hr
      simpa [hge, hlt] using this
    · intro h r hr
      by_cases hin : start ≤ r.address ∧ r.address < e
      · have hbelow : r.address < e.nextKey := by
          cases hw : e.wrapsBack with
          | true => exact h hw r hr hin.1 hin.2
          | false => exact hin.2.trans (Address.lt_nextKey (hstop e rfl) hw)
        simp [hbelow]
      · rw [← Bool.decide_and, decide_eq_false hin]
        rfl

def oneKey : Stored where
  records := [⟨⟨16, [1], 5⟩, [7]⟩]
  increasing := List.pairwise_singleton _ _
  fits := by
    intro r hr
    rw [List.mem_singleton.mp hr]
    exact ⟨by decide, by decide⟩
  separate := by decide

/-- The keys of the keyspace up to `[255, 1]`: RocksDB stops at `[0, 2]`. -/
theorem getRange_carry_loses :
    oneKey.partition.getRange ⟨16, [], 0⟩ (some ⟨16, [255, 1], 0⟩) = oneKey.records ∧
    getRange (oneKey.columnFamily 3 9) ⟨16, [], 0⟩ (some ⟨16, [255, 1], 0⟩) = [] := by
  decide

/-- Everything there is: RocksDB begins with its own records. -/
example : getRange (oneKey.columnFamily 3 9) ⟨0, [], maxUint64⟩ none =
    [⟨keyIndex, [0, 0, 0, 0, 0, 0, 0, 9]⟩, ⟨keyPartition, [0, 0, 0, 3]⟩] ++ oneKey.records := by
  decide

theorem getRange_agree_iff_plain :
    getRange (oneKey.columnFamily 3 9) ⟨16, [], 0⟩ (some ⟨16, [254, 1], 0⟩) =
      oneKey.partition.getRange ⟨16, [], 0⟩ (some ⟨16, [254, 1], 0⟩) := by
  have hstop : ∀ e ∈ some (⟨16, [254, 1], 0⟩ : Address), e.Fits := by
    rintro e ⟨⟩
    exact ⟨by decide, by decide⟩
  refine (getRange_agree_iff oneKey 3 9 ⟨by decide, by decide⟩ hstop).2.mpr ⟨?_, ?_⟩
  · intro q hq hc
    have hlow : q.address < ⟨16, [], 0⟩ := by
      rcases mem_reserved hq with h | h <;> rw [h] <;> decide
    exact absurd hc.1 (not_le.mpr hlow)
  · rintro e ⟨⟩ hw
    cases hw

end Scout.Rocks
