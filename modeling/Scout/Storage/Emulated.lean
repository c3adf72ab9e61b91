import Scout.Lib.Go
import Scout.Storage.Mvcc
import Scout.Storage.Rocks
import Scout.Storage.Successor

/-!
Multi-version reads over the in-memory engine (`mvcc/emulated.go`, `mvcc/value.go`). A version
is a key-value record whose last byte holds the flags. `Get` takes the first record of a range
that should hold the versions of one key; `GetRange` walks over all versions between two keys
and skips those that are newer than the timestamp, hidden or already seen.
-/

namespace Scout.Emulated

open Data Lib
open Mvcc (Flags tombstone readTimestamp visible)

def encodeData (value : Bytes) (flags : Flags) : Bytes := value ++ [flags]

/-- Slicing empty data panics. -/
def decodeData (data : Bytes) : Go String (Bytes × Flags) :=
  match data.getLast? with
  | none => .error .panic
  | some flags => .ok (data.dropLast, flags)

def toKVRecord (r : Mvcc.Record) : Kv.Record :=
  ⟨⟨r.address.keyspace, r.address.key, r.timestamp⟩, encodeData r.value r.flags⟩

def fromKVRecord (p : Kv.Record) : Go String Mvcc.Record := do
  let (value, flags) ← decodeData p.data
  return ⟨⟨p.address.keyspace, p.address.key⟩, p.address.timestamp, value, flags⟩

abbrev DB := AList fun _ : Nat => Inmem.Partition

def getPartition (db : DB) (pid : Nat) : Go String Inmem.Partition :=
  match db.lookup pid with
  | none => .error (.err "not found")
  | some part => .ok part

def lastAddressForKey (keyspace : Nat) (key : Bytes) : Kv.Address := ⟨keyspace, key, 0⟩

/-! ## Point reads -/

def getFirst (db : DB) (pid timestamp : Nat) (addr : Address) : Go String (Option Mvcc.Record) := do
  let start : Kv.Address := ⟨addr.keyspace, addr.key, readTimestamp timestamp⟩
  let stop := (lastAddressForKey addr.keyspace addr.key).next
  let part ← getPartition db pid
  match part.getRange start (some stop) with
  | [] => return none
  | p :: _ => return some (← fromKVRecord p)

def getLive (db : DB) (pid timestamp : Nat) (addr : Address) : Go String (Option Mvcc.Record) := do
  let p ← getFirst db pid timestamp addr
  return p.filter fun r => !tombstone r.flags

def get (db : DB) (pid timestamp : Nat) (addrs : List Address) :
    Go String (List (Option Mvcc.Record)) :=
  addrs.mapM (getLive db pid timestamp)

def exists_ (db : DB) (pid timestamp : Nat) (addr : Address) : Go String Bool := do
  let v ← get db pid timestamp [addr]
  return (← deref v.head?).isSome

/-! ## Range reads -/

/-- The loop over the versions: what it yields, and whether it ends in a panic. -/
def scan (timestamp : Nat) (stop : Address) : Bytes → List Kv.Record → List Mvcc.Record × Bool
  | _, [] => ([], false)
  | skipKey, p :: ps =>
    match fromKVRecord p with
    | .error _ => ([], true)
    | .ok record =>
      if p.address.keyspace > stop.keyspace ∨ compareBytes p.address.key stop.key ≥ 0 then
        ([], false)
      else if tombstone record.flags then
        scan timestamp stop (if p.address.timestamp ≤ timestamp then p.address.key else skipKey) ps
      else if p.address.key = skipKey then scan timestamp stop skipKey ps
      else if p.address.timestamp ≤ timestamp then
        let rest := scan timestamp stop p.address.key ps
        (record :: rest.1, rest.2)
      else scan timestamp stop skipKey ps

/-- The iterator that `GetRange` returns. -/
def iterator (db : DB) (pid timestamp : Nat) (start stop : Address) :
    Go String (List Mvcc.Record × Bool) := do
  let timestamp := readTimestamp timestamp
  let part ← getPartition db pid
  return scan timestamp stop []
    (part.getRange ⟨start.keyspace, start.key, timestamp⟩
      (some ⟨stop.keyspace, stop.key, timestamp⟩))

def getRange (db : DB) (pid timestamp : Nat) (start stop : Address) :
    Go String (List Mvcc.Record) := do
  let (yielded, panics) ← iterator db pid timestamp start stop
  if panics then .error .panic else return yielded

/-- The loop returns at the first item. -/
def existsInRange (db : DB) (pid timestamp : Nat) (start stop : Address) : Go String Bool := do
  let (yielded, panics) ← iterator db pid timestamp start stop
  if !yielded.isEmpty then return true
  else if panics then .error .panic
  else return false

/-! ## What a partition holds -/

/-- The versions of a partition in the order of their addresses. Any records with some data
can be written this way. -/
structure Content where
  index : Nat
  records : List Mvcc.Record
  increasing : Inmem.Increasing (records.map toKVRecord)
  fits : ∀ r ∈ records, (toKVRecord r).address.Fits

def Content.partition (s : Content) : Inmem.Partition := ⟨s.index, s.records.map toKVRecord⟩

theorem fromKVRecord_toKVRecord (r : Mvcc.Record) : fromKVRecord (toKVRecord r) = .ok r := by
  simp [fromKVRecord, toKVRecord, decodeData, encodeData, bind, Except.bind, pure, Except.pure]

abbrev place (r : Mvcc.Record) : Kv.Address := (toKVRecord r).address

variable {r : Mvcc.Record}

theorem place_lt {x : Mvcc.Record} : place r < place x ↔
    r.address.keyspace < x.address.keyspace ∨ r.address.keyspace = x.address.keyspace ∧
      (r.address.key < x.address.key ∨ r.address.key = x.address.key ∧ x.timestamp < r.timestamp) :=
  Kv.Address.lt_iff

theorem Content.ordered (s : Content) : s.records.Pairwise fun r x => place r < place x := by
  have h := s.increasing
  rwa [Inmem.Increasing, List.pairwise_map] at h

theorem Content.keyed (s : Content) : Mvcc.Keyed s.records := by
  intro r hr x hx ha ht
  have hpl : place r = place x := by
    simp [place, toKVRecord, ha, ht]
  have heq := s.increasing.agreeing _ (List.mem_map_of_mem hr) _ (List.mem_map_of_mem hx) hpl
  have hr' := fromKVRecord_toKVRecord r
  rw [heq, fromKVRecord_toKVRecord] at hr'
  cases hr'
  rfl

theorem Content.getRange_eq (s : Content) (start stop : Kv.Address) :
    s.partition.getRange start (some stop) =
      (s.records.filter fun r => Rocks.inRange start (some stop) (toKVRecord r)).map
        toKVRecord := by
  have h := Rocks.partition_getRange (p := s.partition) s.increasing start (some stop)
  rw [h, Content.partition, List.filter_map]
  rfl

theorem inRange_iff {start stop : Kv.Address} :
    Rocks.inRange start (some stop) (toKVRecord r) = true ↔ start ≤ place r ∧ place r < stop := by
  simp [Rocks.inRange, place]

theorem head?_ordered {rs : List Mvcc.Record} (h : rs.Pairwise fun r x => place r < place x) :
    rs.head? = some r ↔ r ∈ rs ∧ ∀ x ∈ rs, place r ≤ place x := by
  cases rs with
  | nil => simp
  | cons y ys =>
    obtain ⟨hy, -⟩ := List.pairwise_cons.mp h
    rw [List.head?_cons, Option.some.injEq]
    constructor
    · rintro rfl
      refine ⟨by simp, List.forall_mem_cons.mpr ⟨le_rfl, fun x hx => (hy x hx).le⟩⟩
    · rintro ⟨hr, hmin⟩
      rcases List.mem_cons.mp hr with rfl | hr
      · rfl
      · exact absurd (hy r hr) (not_lt.mpr (hmin y (by simp)))

/-! ## What `Get` finds -/

section Point

variable (s : Content) (t : Nat) (a : Address)

def rangeStart : Kv.Address := ⟨a.keyspace, a.key, t⟩

def rangeStop : Kv.Address := (lastAddressForKey a.keyspace a.key).next

/-- The record that `Get` comes to: the first one between the two addresses. -/
def Content.first : Option Mvcc.Record :=
  (s.records.filter fun r =>
    Rocks.inRange (rangeStart t a) (some (rangeStop a)) (toKVRecord r)).head?

variable {r : Mvcc.Record}

theorem Content.first_eq_some : s.first t a = some r ↔
    (r ∈ s.records ∧ rangeStart t a ≤ place r ∧ place r < rangeStop a) ∧
      ∀ x ∈ s.records, rangeStart t a ≤ place x → place x < rangeStop a → place r ≤ place x := by
  rw [Content.first, head?_ordered (s.ordered.sublist List.filter_sublist)]
  simp only [List.mem_filter, inRange_iff, and_imp]

theorem Content.getPartition_eq {db : DB} {pid : Nat} (hdb : db.lookup pid = some s.partition) :
    getPartition db pid = .ok s.partition := by
  rw [getPartition, hdb]

theorem Content.getLive_eq {db : DB} {pid : Nat} (hdb : db.lookup pid = some s.partition)
    (timestamp : Nat) : getLive db pid timestamp a =
      .ok ((s.first (readTimestamp timestamp) a).filter fun r => !tombstone r.flags) := by
  have hrange := s.getRange_eq (rangeStart (readTimestamp timestamp) a) (rangeStop a)
  simp only [getLive, getFirst, bind, Except.bind, s.getPartition_eq hdb]
  rw [rangeStart, rangeStop] at hrange
  rw [hrange, Content.first, rangeStart, rangeStop]
  cases s.records.filter _ with
  | nil => rfl
  | cons r rs =>
    simp only [List.map_cons, fromKVRecord_toKVRecord]
    rfl

theorem version_of_between (hge : rangeStart t a ≤ place r)
    (hle : place r ≤ lastAddressForKey a.keyspace a.key) : r.address = a ∧ r.timestamp ≤ t := by
  rw [← not_lt, Kv.Address.lt_iff] at hge hle
  simp only [place, toKVRecord, rangeStart, lastAddressForKey, not_or, not_and, not_lt] at hge hle
  obtain ⟨hks, hge⟩ := hge
  obtain ⟨hks', hle⟩ := hle
  have heq : r.address.keyspace = a.keyspace := by omega
  have hkey : r.address.key = a.key :=
    le_antisymm (hle heq.symm).1 (hge heq).1
  refine ⟨?_, (hge heq).2 hkey⟩
  cases hr : r.address
  cases a
  simp_all

theorem start_le_version (ha : r.address = a) (ht : r.timestamp ≤ t) :
    rangeStart t a ≤ place r ∧ place r ≤ lastAddressForKey a.keyspace a.key := by
  rw [← not_lt, ← not_lt, Kv.Address.lt_iff, Kv.Address.lt_iff]
  simp [place, toKVRecord, rangeStart, lastAddressForKey, ha, ht]

theorem rangeStop_eq : rangeStop a = (lastAddressForKey a.keyspace a.key).nextKey :=
  Kv.next_of_zero rfl

/-- When the end wraps back, nothing lies in the range. -/
theorem Content.first_wrapped (ht : t ≤ maxUint64)
    (h : (lastAddressForKey a.keyspace a.key).wrapsBack = true) : s.first t a = none := by
  rw [Option.eq_none_iff_forall_ne_some]
  intro r hr
  obtain ⟨⟨_, hge, hlt⟩, _⟩ := (s.first_eq_some t a).mp hr
  have hstop : rangeStop a < ⟨a.keyspace, a.key, maxUint64⟩ := by
    rw [rangeStop_eq]
    exact Kv.nextKey_lt_of_wrapsBack h
  have hfirst : (⟨a.keyspace, a.key, maxUint64⟩ : Kv.Address) ≤ rangeStart t a := by
    rw [← not_lt, Kv.Address.lt_iff]
    simp [rangeStart, ht]
  exact absurd (hge.trans_lt hlt) (not_lt.mpr (hstop.le.trans hfirst))

theorem Content.newest_first {v : Mvcc.Record}
    (hv : newest Mvcc.Record.address Mvcc.Record.timestamp s.records a t = some v) :
    rangeStart t a ≤ place v ∧ ∀ x ∈ s.records, rangeStart t a ≤ place x → place v ≤ place x := by
  obtain ⟨_, ha, ht, hmax⟩ := newest_spec hv
  obtain ⟨hge, hle⟩ := start_le_version t a ha ht
  refine ⟨hge, fun x hx hxge => ?_⟩
  by_contra hlt
  rw [not_le] at hlt
  obtain ⟨hxa, hxt⟩ := version_of_between t a hxge (hlt.le.trans hle)
  have htx := hmax x hx hxa hxt
  rw [place_lt, hxa, ha] at hlt
  simp only [lt_irrefl, true_and, false_or] at hlt
  omega

/-- **What `Get` comes to when the key has a version**: that version, unless the end of the
range wraps back. -/
theorem Content.first_of_newest (hks : a.keyspace < 2 ^ 32) (ht : t ≤ maxUint64) {v : Mvcc.Record}
    (hv : newest Mvcc.Record.address Mvcc.Record.timestamp s.records a t = some v) :
    s.first t a = if (lastAddressForKey a.keyspace a.key).wrapsBack then none else some v := by
  cases hw : (lastAddressForKey a.keyspace a.key).wrapsBack with
  | true => exact s.first_wrapped t a ht hw
  | false =>
    obtain ⟨hm, ha, hvt, _⟩ := newest_spec hv
    obtain ⟨hge, hmin⟩ := s.newest_first t a hv
    have hlast : lastAddressForKey a.keyspace a.key < rangeStop a := by
      rw [rangeStop_eq]
      exact Kv.Address.lt_nextKey ⟨hks, Nat.zero_le _⟩ hw
    refine (s.first_eq_some t a).mpr ⟨⟨hm, hge, ?_⟩, fun x hx hxge _ => hmin x hx hxge⟩
    exact (start_le_version t a ha hvt).2.trans_lt hlast

/-- The condition under which `Get` is right. If the key has a version at the timestamp, that
version is a tombstone or the end of the range does not wrap back. If it has none, no record of
another key lies between the two addresses, or the first one there is a tombstone. -/
def Content.Separated : Prop :=
  match newest Mvcc.Record.address Mvcc.Record.timestamp s.records a t with
  | some v => tombstone v.flags = true ∨ (lastAddressForKey a.keyspace a.key).wrapsBack = false
  | none => ∀ r ∈ s.records, rangeStart t a ≤ place r → place r < rangeStop a →
      (∀ x ∈ s.records, rangeStart t a ≤ place x → place x < rangeStop a → place r ≤ place x) →
      tombstone r.flags = true

theorem Content.live_iff (hks : a.keyspace < 2 ^ 32) (ht : t ≤ maxUint64) :
    ((s.first t a).filter fun r => !tombstone r.flags) = visible s.records t a ↔
      s.Separated t a := by
  unfold Content.Separated visible
  cases hv : newest Mvcc.Record.address Mvcc.Record.timestamp s.records a t with
  | some v =>
    rw [s.first_of_newest t a hks ht hv]
    cases hw : (lastAddressForKey a.keyspace a.key).wrapsBack with
    | true => cases htomb : tombstone v.flags <;> simp
    | false => cases htomb : tombstone v.flags <;> simp [htomb]
  | none =>
    rw [Option.filter_eq_none_iff]
    constructor
    · intro h r hr hge hlt hmin
      have := h r ((s.first_eq_some t a).mpr ⟨⟨hr, hge, hlt⟩, hmin⟩)
      simpa using this
    · intro h r hr
      obtain ⟨⟨hm, hge, hlt⟩, hmin⟩ := (s.first_eq_some t a).mp hr
      simpa using h r hm hge hlt hmin

end Point

theorem readTimestamp_le {timestamp : Nat} (h : timestamp ≤ maxUint64) :
    readTimestamp timestamp ≤ maxUint64 := by
  unfold readTimestamp
  split
  · exact le_rfl
  · exact h

theorem mapM_ok {α β : Type} {f : α → Go String β} {g : α → β} (h : ∀ x, f x = .ok (g x))
    (xs : List α) : xs.mapM f = .ok (xs.map g) := by
  induction xs with
  | nil => rfl
  | cons x xs ih =>
    rw [List.mapM_cons, h, ih]
    rfl

theorem Content.get_eq (s : Content) {db : DB} {pid : Nat}
    (hdb : db.lookup pid = some s.partition) (timestamp : Nat) (addrs : List Address) :
    get db pid timestamp addrs = .ok (addrs.map fun a =>
      (s.first (readTimestamp timestamp) a).filter fun r => !tombstone r.flags) :=
  mapM_ok (fun a => s.getLive_eq a hdb timestamp) addrs

/-- **When `Get` returns the newest visible versions.** `Exists` always goes by `Get`. -/
theorem get_newest_iff {db : DB} {pid : Nat} {s : Content} (hdb : db.lookup pid = some s.partition)
    {timestamp : Nat} (ht : timestamp ≤ maxUint64) {addrs : List Address}
    (hks : ∀ a ∈ addrs, a.keyspace < 2 ^ 32) : (get db pid timestamp addrs =
        .ok (addrs.map (visible s.records (readTimestamp timestamp))) ↔
      ∀ a ∈ addrs, s.Separated (readTimestamp timestamp) a) ∧
    ∀ a, ∃ r, get db pid timestamp [a] = .ok [r] ∧ exists_ db pid timestamp a = .ok r.isSome := by
  constructor
  · rw [s.get_eq hdb, Except.ok.injEq, List.map_inj_left]
    refine forall₂_congr fun a ha => ?_
    exact s.live_iff _ a (hks a ha) (readTimestamp_le ht)
  · intro a
    have hget := s.get_eq hdb timestamp [a]
    refine ⟨_, hget, ?_⟩
    rw [exists_, hget]
    rfl

def twoKeys : Content where
  index := 1
  records := [⟨⟨16, [1, 5]⟩, 3, [7], 0⟩, ⟨⟨16, [255, 1]⟩, 3, [8], 0⟩]
  increasing := by decide
  fits := by
    intro r hr
    simp only [List.mem_cons, List.not_mem_nil, or_false] at hr
    rcases hr with rfl | rfl
    · exact ⟨by decide, by decide⟩
    · exact ⟨by decide, by decide⟩

def twoKeysDB : DB := (∅ : DB).insert 1 twoKeys.partition

/-- `Get` of a key that is absent returns a record of another key, and `Get` of a key that is
present returns nothing. -/
theorem get_other_key : get twoKeysDB 1 10 [⟨16, [1, 0]⟩, ⟨16, [255, 1]⟩] =
      .ok [some ⟨⟨16, [1, 5]⟩, 3, [7], 0⟩, none] ∧
    [⟨16, [1, 0]⟩, ⟨16, [255, 1]⟩].map (visible twoKeys.records 10) =
      [none, some ⟨⟨16, [255, 1]⟩, 3, [8], 0⟩] := by
  decide

/-- A key that is present, and one after which nothing comes before the end of its range. -/
theorem get_newest_iff_present : get twoKeysDB 1 10 [⟨16, [1, 5]⟩, ⟨16, [3]⟩] =
      .ok ([⟨16, [1, 5]⟩, ⟨16, [3]⟩].map (visible twoKeys.records 10)) := by
  refine (get_newest_iff (s := twoKeys) rfl (by decide) (by decide)).1.mpr ?_
  intro a ha
  simp only [List.mem_cons, List.not_mem_nil, or_false] at ha
  rcases ha with rfl | rfl
  · exact .inr (by decide)
  · show ∀ r ∈ twoKeys.records, _
    decide

/-! ## What `GetRange` yields -/

section Range

variable (t : Nat) (stop : Address)

/-- The loop on versions that decode. -/
def scanRecords : Bytes → List Mvcc.Record → List Mvcc.Record
  | _, [] => []
  | skipKey, r :: rs =>
    if r.address.keyspace > stop.keyspace ∨ stop.key ≤ r.address.key then []
    else if tombstone r.flags then
      scanRecords (if r.timestamp ≤ t then r.address.key else skipKey) rs
    else if r.address.key = skipKey then scanRecords skipKey rs
    else if r.timestamp ≤ t then r :: scanRecords r.address.key rs
    else scanRecords skipKey rs

theorem scan_toKVRecord (skipKey : Bytes) (rs : List Mvcc.Record) :
    scan t stop skipKey (rs.map toKVRecord) = (scanRecords t stop skipKey rs, false) := by
  induction rs generalizing skipKey with
  | nil => rfl
  | cons r rs ih =>
    rw [List.map_cons, scan, fromKVRecord_toKVRecord, scanRecords]
    simp only [toKVRecord, ge_iff_le, compareBytes_nonneg, ih]
    split
    · rfl
    split
    · rfl
    · split
      · rfl
      · split <;> rfl

/-- A version that the loop should yield, among those it still has to visit. -/
structure Yields (skipKey : Bytes) (rs : List Mvcc.Record) (r : Mvcc.Record) : Prop where
  mem : r ∈ rs
  fresh : r.address.key ≠ skipKey
  below : r.address.key < stop.key
  visible : r.timestamp ≤ t
  live : tombstone r.flags = false
  newest : ∀ x ∈ rs, x.address.key = r.address.key → x.timestamp ≤ t → x.timestamp ≤ r.timestamp

variable {t stop}

section Step

variable {skipKey : Bytes} {p r : Mvcc.Record} {ps : List Mvcc.Record}

theorem yields_skip (hle : ∀ x ∈ ps, p.address.key ≤ x.address.key)
    (hold : ∀ x ∈ ps, x.address.key = p.address.key → x.timestamp < p.timestamp)
    (hskip : skipKey ≤ p.address.key) (hp : p.timestamp ≤ t) :
    Yields t stop p.address.key ps r ↔ r ∈ ps ∧ Yields t stop skipKey (p :: ps) r := by
  constructor
  · intro h
    refine ⟨h.mem, by simp [h.mem], ?_, h.below, h.visible, h.live, ?_⟩
    · intro he
      exact h.fresh (le_antisymm (by rw [he]; exact hskip) (hle r h.mem))
    · rintro x hx hkey hxt
      rcases List.mem_cons.mp hx with rfl | hx
      · exact absurd hkey.symm h.fresh
      · exact h.newest x hx hkey hxt
  · rintro ⟨hr, h⟩
    refine ⟨hr, ?_, h.below, h.visible, h.live, fun x hx => h.newest x (by simp [hx])⟩
    intro he
    have h1 := h.newest p (by simp) he.symm hp
    have h2 := hold r hr he
    omega

theorem yields_pass (hp : t < p.timestamp ∨ p.address.key = skipKey) :
    Yields t stop skipKey ps r ↔ r ∈ ps ∧ Yields t stop skipKey (p :: ps) r := by
  constructor
  · intro h
    refine ⟨h.mem, by simp [h.mem], h.fresh, h.below, h.visible, h.live, ?_⟩
    rintro x hx hkey hxt
    rcases List.mem_cons.mp hx with rfl | hx
    · rcases hp with hp | hp
      · omega
      · exact absurd (hkey.symm.trans hp) h.fresh
    · exact h.newest x hx hkey hxt
  · rintro ⟨hr, h⟩
    exact ⟨hr, h.fresh, h.below, h.visible, h.live, fun x hx => h.newest x (by simp [hx])⟩

theorem yields_tail (hne : ¬ Yields t stop skipKey (p :: ps) p) :
    Yields t stop skipKey (p :: ps) r ↔ r ∈ ps ∧ Yields t stop skipKey (p :: ps) r := by
  constructor
  · intro h
    refine ⟨?_, h⟩
    rcases List.mem_cons.mp h.mem with rfl | hr
    · exact absurd h hne
    · exact hr
  · exact And.right

end Step

/-- **The loop yields exactly the visible versions.** `skipKey` is not after the keys that are
still to come. -/
theorem mem_scanRecords {ks : Nat} (hks : ks ≤ stop.keyspace) {skipKey : Bytes}
    {rs : List Mvcc.Record} (h : rs.Pairwise fun r x => place r < place x)
    (hrs : ∀ r ∈ rs, r.address.keyspace = ks) (hskip : ∀ r ∈ rs, skipKey ≤ r.address.key)
    {r : Mvcc.Record} : r ∈ scanRecords t stop skipKey rs ↔ Yields t stop skipKey rs r := by
  induction rs generalizing skipKey with
  | nil =>
    constructor
    · exact nofun
    · exact fun h => nomatch h.mem
  | cons p ps ih =>
    obtain ⟨hp, hps⟩ := List.pairwise_cons.mp h
    have hkeys : ∀ x ∈ ps, p.address.key < x.address.key ∨
        p.address.key = x.address.key ∧ x.timestamp < p.timestamp := by
      intro x hx
      have hlt := place_lt.mp (hp x hx)
      rw [hrs p (by simp), hrs x (by simp [hx])] at hlt
      simpa using hlt
    have hle : ∀ x ∈ ps, p.address.key ≤ x.address.key := by
      intro x hx
      rcases hkeys x hx with hlt | ⟨heq, _⟩
      · exact hlt.le
      · exact heq.le
    have hold : ∀ x ∈ ps, x.address.key = p.address.key → x.timestamp < p.timestamp := by
      intro x hx he
      rcases hkeys x hx with hlt | ⟨_, ht⟩
      · rw [he] at hlt
        exact absurd hlt (lt_irrefl _)
      · exact ht
    have hsk := hskip p (by simp)
    have hskip' : ∀ x ∈ ps, skipKey ≤ x.address.key := fun x hx => hskip x (by simp [hx])
    have ih' := fun {k} hk => @ih k hps (fun x hx => hrs x (by simp [hx])) hk
    rw [scanRecords]
    split
    · -- the end of the range
      rename_i hend
      have hstop : stop.key ≤ p.address.key := by
        rcases hend with hgt | hge
        · rw [hrs p (by simp)] at hgt
          omega
        · exact hge
      constructor
      · exact nofun
      · intro hy
        rcases List.mem_cons.mp hy.mem with rfl | hr
        · exact absurd hy.below (not_lt.mpr hstop)
        · exact absurd hy.below (not_lt.mpr (hstop.trans (hle r hr)))
    · rename_i hend
      split
      · -- a tombstone
        rename_i htomb
        have hne : ¬ Yields t stop skipKey (p :: ps) p := by
          intro hy
          have hlive := hy.live
          rw [htomb] at hlive
          cases hlive
        rw [yields_tail hne]
        split
        · rename_i hpt
          rw [ih' hle, yields_skip hle hold hsk hpt]
        · rename_i hpt
          rw [ih' hskip', yields_pass (.inl (not_le.mp hpt))]
      · rename_i htomb
        split
        · -- the key is skipped
          rename_i hsame
          have hne : ¬ Yields t stop skipKey (p :: ps) p := fun hy => hy.fresh hsame
          rw [yields_tail hne, ih' hskip', yields_pass (.inr hsame)]
        · rename_i hsame
          split
          · -- the newest version that is not too new
            rename_i hpt
            rw [List.mem_cons, ih' hle, yields_skip hle hold hsk hpt]
            have hy : Yields t stop skipKey (p :: ps) p := by
              refine ⟨by simp, hsame, not_le.mp fun hge => hend (.inr hge), hpt,
                by simpa using htomb, ?_⟩
              rintro x hx hkey _
              rcases List.mem_cons.mp hx with rfl | hx
              · exact le_rfl
              · exact (hold x hx hkey).le
            constructor
            · rintro (rfl | ⟨_, hr⟩)
              · exact hy
              · exact hr
            · intro hr
              exact (List.mem_cons.mp hr.mem).imp_right fun hm => ⟨hm, hr⟩
          · rename_i hpt
            have hne : ¬ Yields t stop skipKey (p :: ps) p := fun hy => hpt hy.visible
            rw [yields_tail hne, ih' hskip', yields_pass (.inl (not_le.mp hpt))]

theorem scanRecords_ascending {ks : Nat} (hks : ks ≤ stop.keyspace) {skipKey : Bytes}
    {rs : List Mvcc.Record} (h : rs.Pairwise fun r x => place r < place x)
    (hrs : ∀ r ∈ rs, r.address.keyspace = ks) :
    (scanRecords t stop skipKey rs).Pairwise fun r x => r.address.key < x.address.key := by
  induction rs generalizing skipKey with
  | nil => exact List.Pairwise.nil
  | cons p ps ih =>
    obtain ⟨hp, hps⟩ := List.pairwise_cons.mp h
    have hpsk : ∀ r ∈ ps, r.address.keyspace = ks := fun x hx => hrs x (by simp [hx])
    rw [scanRecords]
    split
    · exact List.Pairwise.nil
    split
    · exact ih hps hpsk
    split
    · exact ih hps hpsk
    split
    · refine List.pairwise_cons.mpr ⟨fun x hx => ?_, ih hps hpsk⟩
      have hle : ∀ x ∈ ps, p.address.key ≤ x.address.key := by
        intro x hx
        have hlt := place_lt.mp (hp x hx)
        rw [hrs p (by simp), hpsk x hx] at hlt
        rcases hlt with hlt | ⟨_, hlt | ⟨heq, _⟩⟩
        · exact absurd hlt (lt_irrefl _)
        · exact hlt.le
        · exact heq.le
      have hy := (mem_scanRecords hks hps hpsk hle).mp hx
      exact lt_of_le_of_ne (hle x hy.mem) (Ne.symm hy.fresh)
    · exact ih hps hpsk

end Range

theorem visible_eq_some {rs : List Mvcc.Record} (hk : Mvcc.Keyed rs) {t : Nat} {a : Address} :
    visible rs t a = some r ↔
      (r ∈ rs ∧ r.address = a ∧ r.timestamp ≤ t ∧ tombstone r.flags = false) ∧
      ∀ x ∈ rs, x.address = a → x.timestamp ≤ t → x.timestamp ≤ r.timestamp := by
  unfold visible
  constructor
  · intro h
    split at h
    · rename_i v hv
      obtain ⟨hm, ha, ht, hmax⟩ := newest_spec hv
      split at h
      · cases h
      · rename_i htomb
        cases h
        exact ⟨⟨hm, ha, ht, by simpa using htomb⟩, hmax⟩
    · cases h
  · rintro ⟨⟨hm, ha, ht, hlive⟩, hmax⟩
    cases hv : newest Mvcc.Record.address Mvcc.Record.timestamp rs a t with
    | none =>
      have := newest_none.mp hv r hm ha
      omega
    | some v =>
      obtain ⟨hvm, hva, hvt, hvmax⟩ := newest_spec hv
      have heq : v = r := by
        refine hk v hvm r hm (hva.trans ha.symm) (le_antisymm ?_ ?_)
        · exact hmax v hvm hva hvt
        · exact hvmax r hm ha ht
      simp [heq, hlive]

section Snapshot

variable {db : DB} {pid : Nat} {s : Content} (hdb : db.lookup pid = some s.partition)
  (timestamp : Nat) {ks : Nat} {start stop : Bytes}

/-- The versions that the range read of the engine hands to the loop. -/
def Content.span (s : Content) (t ks : Nat) (start stop : Bytes) : List Mvcc.Record :=
  s.records.filter fun r => Rocks.inRange ⟨ks, start, t⟩ (some ⟨ks, stop, t⟩) (toKVRecord r)

theorem Content.mem_span {t : Nat} {r : Mvcc.Record} : r ∈ s.span t ks start stop ↔
    r ∈ s.records ∧ r.address.keyspace = ks ∧
      (start < r.address.key ∨ start = r.address.key ∧ r.timestamp ≤ t) ∧
      (r.address.key < stop ∨ r.address.key = stop ∧ t < r.timestamp) := by
  rw [Content.span, List.mem_filter, inRange_iff, ← not_lt, Kv.Address.lt_iff, Kv.Address.lt_iff]
  simp only [place, toKVRecord]
  refine and_congr_right fun _ => ?_
  constructor
  · rintro ⟨hge, hlt⟩
    push Not at hge
    have hks : r.address.keyspace = ks := by
      rcases hlt with hlt | ⟨hlt, _⟩ <;> omega
    refine ⟨hks, ?_, (hlt.resolve_left (by omega)).2⟩
    obtain ⟨h1, h2⟩ := hge.2 hks
    rcases lt_or_eq_of_le h1 with h1 | h1
    · exact .inl h1
    · exact .inr ⟨h1, h2 h1.symm⟩
  · rintro ⟨hks, hge, hlt⟩
    refine ⟨?_, .inr ⟨hks, hlt⟩⟩
    rintro (h | ⟨_, h | ⟨h, h'⟩⟩)
    · omega
    · rcases hge with hge | ⟨hge, _⟩
      · exact lt_asymm h hge
      · exact absurd h (by rw [hge]; exact lt_irrefl _)
    · rcases hge with hge | ⟨_, hge⟩
      · exact absurd hge (by rw [h]; exact lt_irrefl _)
      · omega

include hdb in
theorem Content.iterator_eq : iterator db pid timestamp ⟨ks, start⟩ ⟨ks, stop⟩ =
    .ok (scanRecords (readTimestamp timestamp) ⟨ks, stop⟩ []
      (s.span (readTimestamp timestamp) ks start stop), false) := by
  simp only [iterator, bind, Except.bind, s.getPartition_eq hdb]
  rw [s.getRange_eq, scan_toKVRecord]
  rfl

include hdb in
theorem Content.getRange_ok : getRange db pid timestamp ⟨ks, start⟩ ⟨ks, stop⟩ =
    .ok (scanRecords (readTimestamp timestamp) ⟨ks, stop⟩ []
      (s.span (readTimestamp timestamp) ks start stop)) := by
  rw [getRange, Content.iterator_eq hdb]
  rfl

/-- The snapshot that `GetRange` should yield. -/
structure Snapshot (s : Content) (t ks : Nat) (start stop : Bytes) (rs : List Mvcc.Record) :
    Prop where
  ascending : rs.Pairwise fun r x => r.address.key < x.address.key
  mem : ∀ r, r ∈ rs ↔ r.address.keyspace = ks ∧ start ≤ r.address.key ∧ r.address.key < stop ∧
    visible s.records t r.address = some r

theorem Content.scan_snapshot (s : Content) (t : Nat) (hstart : start ≠ []) :
    Snapshot s t ks start stop (scanRecords t ⟨ks, stop⟩ [] (s.span t ks start stop)) := by
  have hord : (s.span t ks start stop).Pairwise fun r x => place r < place x :=
    s.ordered.sublist List.filter_sublist
  have hspan : ∀ r ∈ s.span t ks start stop, r.address.keyspace = ks :=
    fun r hr => (Content.mem_span.mp hr).2.1
  have hnil : ∀ r ∈ s.span t ks start stop, [] ≤ r.address.key :=
    fun r _ => not_lt.mp (List.not_lt_nil _)
  refine ⟨scanRecords_ascending le_rfl hord hspan, fun r => ?_⟩
  rw [mem_scanRecords le_rfl hord hspan hnil, visible_eq_some s.keyed]
  constructor
  · intro hy
    obtain ⟨hm, hks, hge, _⟩ := Content.mem_span.mp hy.mem
    have hle : start ≤ r.address.key := by
      rcases hge with hge | ⟨hge, _⟩
      · exact hge.le
      · exact hge.le
    refine ⟨hks, hle, hy.below, ⟨hm, rfl, hy.visible, hy.live⟩, fun x hx ha hxt => ?_⟩
    refine hy.newest x (Content.mem_span.mpr ⟨hx, ?_, ?_, ?_⟩) (by rw [ha]) hxt
    · rw [ha]
      exact hks
    · rw [ha]
      exact hge.imp_right fun h => ⟨h.1, hxt⟩
    · rw [ha]
      exact .inl hy.below
  · rintro ⟨hks, hge, hlt, ⟨hm, _, ht, hlive⟩, hmax⟩
    refine ⟨Content.mem_span.mpr ⟨hm, hks, ?_, .inl hlt⟩, ?_, hlt, ht, hlive, ?_⟩
    · rcases lt_or_eq_of_le hge with hge | hge
      · exact .inl hge
      · exact .inr ⟨hge, ht⟩
    · intro he
      rw [he] at hge
      obtain _ | ⟨b, bs⟩ := start
      · exact hstart rfl
      · exact absurd hge (not_le.mpr (List.nil_lt_cons b bs))
    · intro x hx hkey hxt
      obtain ⟨hxm, hxks, _⟩ := Content.mem_span.mp hx
      refine hmax x hxm ?_ hxt
      cases hxa : x.address
      cases hra : r.address
      simp_all

include hdb in
/-- **`GetRange` is a snapshot scan**, and `ExistsInRange` tells whether it is empty. -/
theorem getRange_snapshot (hstart : start ≠ []) :
    ∃ rs, getRange db pid timestamp ⟨ks, start⟩ ⟨ks, stop⟩ = .ok rs ∧
      Snapshot s (readTimestamp timestamp) ks start stop rs ∧
      existsInRange db pid timestamp ⟨ks, start⟩ ⟨ks, stop⟩ = .ok (!rs.isEmpty) := by
  refine ⟨_, Content.getRange_ok hdb timestamp,
    s.scan_snapshot (readTimestamp timestamp) hstart, ?_⟩
  rw [existsInRange, Content.iterator_eq hdb]
  cases scanRecords (readTimestamp timestamp) ⟨ks, stop⟩ []
    (s.span (readTimestamp timestamp) ks start stop) <;> rfl

def Content.store (s : Content) : Mvcc.Store := ⟨s.index, s.records⟩

include hdb in
/-- **Range reads of the transaction model** are those of the engine. -/
theorem getRange_store (hstart : start ≠ []) : getRange db pid timestamp ⟨ks, start⟩ ⟨ks, stop⟩ =
      .ok (s.store.getRange timestamp ⟨ks, start⟩ ⟨ks, stop⟩) := by
  have hsnap : Snapshot s (readTimestamp timestamp) ks start stop _ :=
    s.scan_snapshot (readTimestamp timestamp) hstart
  rw [Content.getRange_ok hdb, Except.ok.injEq]
  generalize scanRecords _ _ _ _ = rs at hsnap ⊢
  have hsorted : rs.Pairwise fun r x => Mvcc.before r.address x.address = true := by
    refine hsnap.ascending.imp_of_mem ?_
    intro r x hr hx hlt
    rw [Mvcc.before_iff]
    exact .inr ⟨((hsnap.mem r).mp hr).1.trans ((hsnap.mem x).mp hx).1.symm, hlt⟩
  have hasymm : ∀ r x : Mvcc.Record, Mvcc.before r.address x.address = true →
      Mvcc.before x.address r.address = true → r = x := by
    intro r x h h'
    rw [Mvcc.before_asymm h] at h'
    cases h'
  have hnodup : ∀ l : List Mvcc.Record,
      (l.Pairwise fun r x => Mvcc.before r.address x.address = true) → l.Nodup := by
    intro l hl
    refine hl.imp ?_
    rintro r _ hb rfl
    rw [Mvcc.before_asymm hb] at hb
    cases hb
  have hscan := Mvcc.getRange_sorted s.store timestamp ⟨ks, start⟩ ⟨ks, stop⟩
  refine List.Perm.eq_of_pairwise (fun r x _ _ => hasymm r x) hsorted hscan
    ((List.perm_ext_iff_of_nodup (hnodup _ hsorted) (hnodup _ hscan)).mpr fun r => ?_)
  rw [hsnap.mem, Mvcc.mem_getRange, Mvcc.inSpan_same, Data.inRange_iff]
  simp only [and_assoc]
  rfl

end Snapshot

/-- Key 1 has a version that is too new and a live one, key 2 a tombstone over a live version. -/
def fourVersions : Content where
  index := 1
  records := [⟨⟨16, [1]⟩, 9, [7], 0⟩, ⟨⟨16, [1]⟩, 3, [6], 0⟩, ⟨⟨16, [2]⟩, 4, [], 1⟩,
    ⟨⟨16, [2]⟩, 2, [5], 0⟩]
  increasing := by decide
  fits := by
    intro r hr
    simp only [List.mem_cons, List.not_mem_nil, or_false] at hr
    rcases hr with rfl | rfl | rfl | rfl <;> exact ⟨by decide, by decide⟩

def fourVersionsDB : DB := (∅ : DB).insert 1 fourVersions.partition

theorem getRange_snapshot_fourVersions :
    getRange fourVersionsDB 1 5 ⟨16, [1]⟩ ⟨16, [3]⟩ = .ok [⟨⟨16, [1]⟩, 3, [6], 0⟩] ∧
      Snapshot fourVersions 5 16 [1] [3] [⟨⟨16, [1]⟩, 3, [6], 0⟩] := by
  have hdb : fourVersionsDB.lookup 1 = some fourVersions.partition := rfl
  have hrun : getRange fourVersionsDB 1 5 ⟨16, [1]⟩ ⟨16, [3]⟩ =
      .ok [⟨⟨16, [1]⟩, 3, [6], 0⟩] := by
    decide
  have hstart : ([1] : Bytes) ≠ [] := by decide
  obtain ⟨rs, hrs, hsnap, _⟩ := getRange_snapshot hdb 5 hstart
  rw [hrun] at hrs
  cases hrs
  exact ⟨hrun, hsnap⟩

theorem getRange_store_fourVersions : getRange fourVersionsDB 1 5 ⟨16, [1]⟩ ⟨16, [3]⟩ =
    .ok (fourVersions.store.getRange 5 ⟨16, [1]⟩ ⟨16, [3]⟩) :=
  have hdb : fourVersionsDB.lookup 1 = some fourVersions.partition := rfl
  getRange_store hdb 5 (by decide)

end Scout.Emulated
