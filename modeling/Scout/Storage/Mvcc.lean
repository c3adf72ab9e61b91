import Scout.Data.Lock
import Scout.Lib.Versioned
import Mathlib.Data.List.Dedup
import Mathlib.Data.List.Sort

/-!
The versioned store of one partition as the transaction code sees it through
`mvcc.DB`, with the behaviour of the default engine: `MultiGetCFWithTS` and a
timestamped iterator return the newest version at or before the requested
timestamp, a tombstone hides its key, and a `Put` replaces a record with the
same key and timestamp and keeps the largest Raft index. `DBBreaker` retries an
engine error or ends the process, so no error is returned here.
-/

namespace Scout.Mvcc

open Data Lib

abbrev Flags := Byte

def flagEmpty : Flags := 0
def flagTombstone : Flags := 1

/-- `(f & FlagTombstone) != 0`. -/
def tombstone (f : Flags) : Bool := f.val % 2 == 1

structure Record where
  address : Address
  timestamp : Nat
  value : Bytes
  flags : Flags
  deriving DecidableEq, Repr

structure Store where
  index : Nat := 0
  records : List Record := []
  deriving Repr

def Store.empty : Store := {}

/-- Reads at timestamp zero ask for the latest version. -/
def readTimestamp (timestamp : Nat) : Nat := if timestamp = 0 then maxUint64 else timestamp

/-- The live version of `a` at `t`, if the newest one there is no tombstone. -/
def visible (rs : List Record) (t : Nat) (a : Address) : Option Record :=
  match newest Record.address Record.timestamp rs a t with
  | some r => if tombstone r.flags then none else some r
  | none => none

/-- `a` has a live version at `t`. -/
def live (rs : List Record) (t : Nat) (a : Address) : Bool := (visible rs t a).isSome

def Store.get (s : Store) (timestamp : Nat) (addrs : List Address) : List (Option Record) :=
  addrs.map (visible s.records (readTimestamp timestamp))

def Store.exists (s : Store) (timestamp : Nat) (addr : Address) : Bool :=
  ((s.get timestamp [addr]).headD none).isSome

/-- Encoded keys are ordered by keyspace, then bytewise. -/
def before (a b : Address) : Bool :=
  decide (a.keyspace < b.keyspace) || (a.keyspace == b.keyspace && decide (a.key < b.key))

/-- `start` inclusive, `stop` exclusive. -/
def inSpan (start stop a : Address) : Bool := !before a start && before a stop

def Store.getRange (s : Store) (timestamp : Nat) (start stop : Address) : List Record :=
  let keys := ((s.records.map Record.address).filter (inSpan start stop)).dedup
  (keys.insertionSort (fun a b => before b a = false)).filterMap
    (visible s.records (readTimestamp timestamp))

def Store.existsInRange (s : Store) (timestamp : Nat) (start stop : Address) : Bool :=
  !(s.getRange timestamp start stop).isEmpty

def Store.put (s : Store) (index : Nat) (records : List Record) : Store :=
  { index := max s.index index,
    records := overwriteAll Record.address Record.timestamp s.records records }

/-! ## What a read depends on -/

abbrev Keyed (rs : List Record) : Prop := Lib.Keyed Record.address Record.timestamp rs

abbrev AgreeAt (rs rs' : List Record) (a : Address) (t : Nat) : Prop :=
  Lib.AgreeAt Record.address Record.timestamp rs rs' a t

theorem exists_eq_live (s : Store) (t : Nat) (a : Address) :
    s.exists t a = live s.records (readTimestamp t) a := rfl

variable {t : Nat}

theorem readTimestamp_of_pos (h : 0 < t) : readTimestamp t = t := by
  unfold readTimestamp
  rw [if_neg (by omega)]

variable {rs : List Record} {a : Address}

theorem visible_congr {rs' : List Record} (hk : Keyed rs) (h : AgreeAt rs rs' a t) :
    visible rs t a = visible rs' t a := by
  unfold visible
  rw [newest_congr hk h]

theorem live_congr {rs' : List Record} (hk : Keyed rs) (h : AgreeAt rs rs' a t) :
    live rs t a = live rs' t a := by
  unfold live
  rw [visible_congr hk h]

theorem visible_mem {r : Record} (h : visible rs t a = some r) :
    r ∈ rs ∧ r.address = a ∧ r.timestamp ≤ t := by
  unfold visible at h
  split at h
  · rename_i r' hr
    split at h
    · cases h
    · cases h
      obtain ⟨hm, ha, ht, _⟩ := newest_spec hr
      exact ⟨hm, ha, ht⟩
  · cases h

theorem inSpan_same (ks : Nat) (s e : Bytes) (a : Address) :
    inSpan ⟨ks, s⟩ ⟨ks, e⟩ a = inRange ks s e a := by
  rw [Bool.eq_iff_iff, inRange_iff]
  unfold inSpan before
  simp only [Bool.and_eq_true, Bool.not_eq_true', Bool.or_eq_false_iff, decide_eq_false_iff_not,
    Bool.and_eq_false_iff, beq_eq_false_iff_ne, Bool.or_eq_true, decide_eq_true_eq, beq_iff_eq,
    not_lt]
  constructor
  · rintro ⟨⟨h1, h2⟩, h3 | ⟨h3, h4⟩⟩
    · omega
    · exact ⟨h3, h2.resolve_left (fun h => h h3), h4⟩
  · rintro ⟨h1, h2, h3⟩
    exact ⟨⟨by omega, .inr h2⟩, .inr ⟨h1, h3⟩⟩

/-! ## Range scans -/

theorem length_getRange (db : Store) (t : Nat) (start stop : Address) :
    (db.getRange t start stop).length =
      ((db.records.map Record.address).filter (inSpan start stop)).dedup.countP
        (live db.records (readTimestamp t)) := by
  unfold Store.getRange
  rw [List.length_filterMap_eq_countP]
  exact (List.perm_insertionSort _ _).countP_eq _

theorem before_iff (a b : Address) : before a b = true ↔
    a.keyspace < b.keyspace ∨ (a.keyspace = b.keyspace ∧ a.key < b.key) := by
  simp [before]

theorem before_asymm {b : Address} (h : before a b = true) : before b a = false := by
  rw [← Bool.not_eq_true, before_iff]
  rw [before_iff] at h
  rcases h with h | ⟨h, hk⟩
  · omega
  · rintro (h' | ⟨_, hk'⟩)
    · omega
    · exact lt_asymm hk hk'

/-- Different addresses are ordered one way or the other. -/
theorem before_of_not {b : Address} (h : before b a = false) (hne : a ≠ b) : before a b = true := by
  rw [← Bool.not_eq_true, before_iff] at h
  rw [before_iff]
  push Not at h
  obtain ⟨h1, h2⟩ := h
  rcases lt_or_eq_of_le h1 with hlt | heq
  · exact .inl hlt
  · refine .inr ⟨heq, lt_of_le_of_ne (h2 heq.symm) ?_⟩
    intro hk
    exact hne (by cases a; cases b; simp_all)

instance : Std.Total (fun a b : Address => before b a = false) where
  total a b := by
    cases h : before b a with
    | false => exact .inl rfl
    | true => exact .inr (before_asymm h)

instance : IsTrans Address (fun a b => before b a = false) where
  trans a b c h1 h2 := by
    simp only [← Bool.not_eq_true, before_iff, not_or, not_and, not_lt] at h1 h2 ⊢
    refine ⟨h1.1.trans h2.1, ?_⟩
    intro hac
    have hab : b.keyspace = a.keyspace := by omega
    have hbc : c.keyspace = b.keyspace := by omega
    exact (h1.2 hab).trans (h2.2 hbc)

theorem mem_getRange {s : Store} {start stop : Address} {r : Record} :
    r ∈ s.getRange t start stop ↔ inSpan start stop r.address = true ∧
      visible s.records (readTimestamp t) r.address = some r := by
  simp only [Store.getRange, List.mem_filterMap, List.mem_insertionSort, List.mem_dedup,
    List.mem_filter, List.mem_map]
  constructor
  · rintro ⟨a, ⟨_, hspan⟩, hv⟩
    obtain ⟨_, rfl, _⟩ := visible_mem hv
    exact ⟨hspan, hv⟩
  · rintro ⟨hspan, hv⟩
    exact ⟨r.address, ⟨⟨r, (visible_mem hv).1, rfl⟩, hspan⟩, hv⟩

theorem getRange_sorted (s : Store) (t : Nat) (start stop : Address) :
    (s.getRange t start stop).Pairwise (fun r r' => before r.address r'.address = true) := by
  unfold Store.getRange
  rw [List.pairwise_filterMap]
  set keys := ((s.records.map Record.address).filter (inSpan start stop)).dedup
  have hnd : (keys.insertionSort (fun a b => before b a = false)).Nodup :=
    (List.perm_insertionSort _ keys).nodup_iff.mpr (List.nodup_dedup _)
  have hst := List.pairwise_insertionSort (fun a b : Address => before b a = false) keys
  refine (hst.and hnd).imp ?_
  rintro a b ⟨hab, hne⟩ r hr r' hr'
  obtain ⟨_, rfl, _⟩ := visible_mem hr
  obtain ⟨_, rfl, _⟩ := visible_mem hr'
  exact before_of_not hab hne

/-- **Frame rule for scans.** -/
theorem getRange_congr {s s' : Store} {start stop : Address} (h : ∀ a, inSpan start stop a = true →
      visible s.records (readTimestamp t) a = visible s'.records (readTimestamp t) a) :
    s.getRange t start stop = s'.getRange t start stop := by
  have nd : ∀ s : Store, (s.getRange t start stop).Nodup := by
    intro s
    refine (getRange_sorted s t start stop).imp ?_
    rintro r _ hb rfl
    rw [before_asymm hb] at hb
    cases hb
  refine List.Perm.eq_of_pairwise ?_ (getRange_sorted s t start stop)
    (getRange_sorted s' t start stop) ((List.perm_ext_iff_of_nodup (nd s) (nd s')).mpr ?_)
  · intro r r' _ _ hb hb'
    rw [before_asymm hb] at hb'
    cases hb'
  · intro r
    rw [mem_getRange, mem_getRange]
    constructor
    · rintro ⟨hs, hv⟩
      exact ⟨hs, by rw [← h _ hs]; exact hv⟩
    · rintro ⟨hs, hv⟩
      exact ⟨hs, by rw [h _ hs]; exact hv⟩

theorem existsInRange_iff (s : Store) (t : Nat) (start stop : Address) :
    s.existsInRange t start stop = true ↔
      ∃ a, inSpan start stop a = true ∧ live s.records (readTimestamp t) a = true := by
  simp only [Store.existsInRange, Bool.not_eq_true', List.isEmpty_eq_false_iff]
  constructor
  · intro hne
    obtain ⟨r, hr⟩ := List.exists_mem_of_ne_nil _ hne
    obtain ⟨hs, hv⟩ := mem_getRange.mp hr
    exact ⟨r.address, hs, by simp [live, hv]⟩
  · rintro ⟨a, ha, hl⟩
    obtain ⟨r, hr⟩ := Option.isSome_iff_exists.mp hl
    obtain ⟨_, rfl, _⟩ := visible_mem hr
    exact List.ne_nil_of_mem (mem_getRange.mpr ⟨ha, hr⟩)

end Scout.Mvcc
