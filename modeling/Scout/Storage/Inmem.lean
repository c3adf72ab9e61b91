import Scout.Lib.Runs
import Scout.Lib.Search
import Scout.Storage.Kv
import Mathlib.Data.List.Pairwise
import Mathlib.Data.List.Sort

/-!
A partition of the in-memory engine (`inmem.go`): a slice of records that `Put` extends
and sorts, and that every read searches by halves. `Put` searches the slice while it
extends it, before the sort, and returns from the loop at the first error.
-/

namespace Scout.Inmem

open Kv Lib

structure Partition where
  index : Nat := 0
  records : List Record := []
  deriving DecidableEq, Repr

/-- `sort.Find`. -/
def Partition.findFirst (p : Partition) (addr : Address) : Nat × Bool :=
  search (fun r : Record => addr.compare r.address) p.records

def Partition.putOne (p : Partition) (record : Record) : Except String Partition :=
  let f := p.findFirst record.address
  if f.2 then
    if p.records[f.1]?.map Record.data ≠ some record.data then
      .error ("key overwrite detected at address " ++ record.address.string)
    else .ok p
  else .ok { p with records := p.records ++ [record] }

/-- The loop of `Put`: what was appended before an error stays. -/
def Partition.putLoop : Partition → List Record → Partition × Option String
  | p, [] => (p, none)
  | p, r :: rs =>
    if r.address.timestamp = 0 then
      (p, some ("trying to put key with missing timestamp at " ++ r.address.string))
    else
      match p.putOne r with
      | .error err => (p, some err)
      | .ok p' => p'.putLoop rs

/-- `Less` of the slice, turned into the order of the sort. -/
def notAfter (a b : Record) : Prop := b.address.before a.address = false

instance : DecidableRel notAfter := fun a b =>
  inferInstanceAs (Decidable (b.address.before a.address = false))

/-- `Put`. Records with different addresses have one sorted order; the order that
`sort.Sort` gives to equal addresses is that of a stable sort here. -/
def Partition.put (p : Partition) (index : Nat) (records : List Record) :
    Partition × Option String :=
  match p.putLoop records with
  | (p', some err) => (p', some err)
  | (p', none) =>
    ({ index := max p'.index index, records := p'.records.insertionSort notAfter }, none)

/-- `GetRange`: the records from the first one not before `start`, up to the first one
that is not before the end. -/
def Partition.getRange (p : Partition) (start : Address) (stop : Option Address) : List Record :=
  (p.records.drop (p.findFirst start).1).takeWhile fun r =>
    !(stop.any fun e => decide (0 ≤ r.address.compare e))

/-! ## Searching -/

abbrev Increasing (rs : List Record) : Prop := rs.Pairwise fun a b => a.address < b.address

abbrev Distinct (rs : List Record) : Prop := rs.Pairwise fun a b => a.address ≠ b.address

theorem notAfter_iff {a b : Record} : notAfter a b ↔ a.address ≤ b.address := by
  rw [notAfter, ← Bool.not_eq_true, Address.before_iff, not_lt]

instance : Std.Total notAfter where
  total a b := by
    rw [notAfter_iff, notAfter_iff]
    exact le_total a.address b.address

instance : IsTrans Record notAfter where
  trans _ _ _ hab hbc := notAfter_iff.mpr ((notAfter_iff.mp hab).trans (notAfter_iff.mp hbc))

variable {rs : List Record}

theorem sorted_divide (h : rs.Pairwise notAfter) (addr : Address) :
    ∃ ls us, rs = ls ++ us ∧ (∀ r ∈ ls, r.address < addr) ∧ ∀ r ∈ us, addr ≤ r.address := by
  induction rs with
  | nil => exact ⟨[], [], rfl, by simp, by simp⟩
  | cons r rs ih =>
    obtain ⟨hr, hrs⟩ := List.pairwise_cons.mp h
    by_cases hlt : r.address < addr
    · obtain ⟨ls, us, rfl, h1, h2⟩ := ih hrs
      exact ⟨r :: ls, us, rfl, by simpa using ⟨hlt, h1⟩, h2⟩
    · have hle := not_lt.mp hlt
      refine ⟨[], r :: rs, rfl, by simp, List.forall_mem_cons.mpr ⟨hle, fun x hx => ?_⟩⟩
      exact hle.trans (notAfter_iff.mp (hr x hx))

theorem Increasing.divide (h : Increasing rs) (addr : Address) :
    ∃ ls us, rs = ls ++ us ∧ (∀ r ∈ ls, r.address < addr) ∧ ∀ r ∈ us, addr ≤ r.address :=
  sorted_divide (h.imp fun hlt => notAfter_iff.mpr hlt.le) addr

variable {p : Partition}

/-- **Search in order.** On increasing records `findFirst` comes to the first one that
is not before the address. -/
theorem findFirst_divided {ls us : List Record} {addr : Address} (hp : p.records = ls ++ us)
    (hl : ∀ r ∈ ls, r.address < addr) (hu : ∀ r ∈ us, addr ≤ r.address) :
    p.findFirst addr = (ls.length, us.head?.any fun r => addr.compare r.address == 0) := by
  rw [Partition.findFirst, hp]
  refine search_append (fun r hr => Address.compare_pos.mpr (hl r hr)) ?_
  intro r hr
  exact not_lt.mp fun h => absurd (Address.compare_pos.mp h) (not_lt.mpr (hu r hr))

variable {r : Record}

theorem findFirst_of_mem (h : Increasing p.records) (hr : r ∈ p.records) :
    (p.findFirst r.address).2 = true ∧ p.records[(p.findFirst r.address).1]? = some r := by
  obtain ⟨ls, us, hp, hl, hu⟩ := h.divide r.address
  rw [findFirst_divided hp hl hu]
  have hus : r ∈ us := by
    rw [hp] at hr
    exact (List.mem_append.mp hr).resolve_left fun hin => lt_irrefl _ (hl r hin)
  cases us with
  | nil => cases hus
  | cons x us =>
    -- the first record of the second part cannot be above `r`
    have hx : x = r := by
      rcases List.mem_cons.mp hus with rfl | hin
      · rfl
      · rw [hp] at h
        have hlt := (List.pairwise_cons.mp (List.pairwise_append.mp h).2.1).1 r hin
        exact absurd (hu x (by simp)) (not_le.mpr hlt)
    subst hx
    simp [hp, Address.compare_eq_zero.mpr rfl]

theorem findFirst_fresh {addr : Address} (h : ∀ r ∈ p.records, r.address ≠ addr) :
    (p.findFirst addr).2 = false := by
  cases hf : (p.findFirst addr).2 with
  | false => rfl
  | true =>
    obtain ⟨r, hr, hc⟩ := search_found hf
    exact absurd (Address.compare_eq_zero.mp hc).symm (h r (List.mem_of_getElem? hr))

theorem putOne_fresh (h : ∀ x ∈ p.records, x.address ≠ r.address) :
    p.putOne r = .ok { p with records := p.records ++ [r] } := by
  simp [Partition.putOne, findFirst_fresh h]

theorem putOne_repeated (h : Increasing p.records) (hr : r ∈ p.records) : p.putOne r = .ok p := by
  obtain ⟨hf, hi⟩ := findFirst_of_mem h hr
  simp [Partition.putOne, hf, hi]

theorem putOne_conflict {x : Record} (h : Increasing p.records) (hx : x ∈ p.records)
    (ha : x.address = r.address) (hd : x.data ≠ r.data) : ∃ err, p.putOne r = .error err := by
  obtain ⟨hf, hi⟩ := findFirst_of_mem h hx
  rw [ha] at hf hi
  exact ⟨_, by simp [Partition.putOne, hf, hi, hd]; rfl⟩

/-! ## Batches that keep the order -/

def Conflict (cur : List Record) (r : Record) : Prop :=
  ∃ x ∈ cur, x.address = r.address ∧ x.data ≠ r.data
  deriving Decidable

/-- A batch that is put over `old`, with the records `cur` so far: it is refused only
while nothing has been appended, and repeats a record only while the records are in
order. -/
def Careful (old : List Record) : List Record → List Record → Prop
  | _, [] => True
  | cur, r :: rs =>
    if r.address.timestamp = 0 ∨ Conflict cur r then cur = old
    else if r ∈ cur then Increasing cur ∧ Careful old cur rs
    else Careful old (cur ++ [r]) rs

instance Careful.decidable (old : List Record) :
    (cur rs : List Record) → Decidable (Careful old cur rs)
  | _, [] => isTrue trivial
  | cur, r :: rs =>
    have := Careful.decidable old cur rs
    have := Careful.decidable old (cur ++ [r]) rs
    inferInstanceAs (Decidable (if _ ∨ _ then _ = _ else if r ∈ cur then _ ∧ _ else _))

theorem Increasing.distinct (h : Increasing rs) : Distinct rs :=
  h.imp fun hlt => hlt.ne

/-- **The loop over a careful batch** collects the batch, or fails where nothing was
appended yet. -/
theorem putLoop_careful (index : Nat) {old cur : List Record} (hold : Increasing old)
    (hcur : Distinct cur) (h : Careful old cur rs) :
    (∃ out, Partition.putLoop ⟨index, cur⟩ rs = (⟨index, out⟩, none) ∧ Distinct out ∧
      ∀ x, x ∈ out ↔ x ∈ cur ∨ x ∈ rs) ∨
    ∃ err, Partition.putLoop ⟨index, cur⟩ rs = (⟨index, old⟩, some err) := by
  induction rs generalizing cur with
  | nil => exact .inl ⟨cur, rfl, hcur, by simp⟩
  | cons r rs ih =>
    rw [Careful] at h
    rw [Partition.putLoop]
    split at h
    · -- refused: the records are still the old ones
      rename_i hbad
      subst h
      right
      split
      · exact ⟨_, rfl⟩
      rename_i ht
      obtain ⟨x, hx, ha, hd⟩ := hbad.resolve_left ht
      obtain ⟨err, he⟩ := putOne_conflict (p := ⟨index, cur⟩) hold hx ha hd
      exact ⟨err, by rw [he]⟩
    · rename_i hgood
      obtain ⟨ht, hnc⟩ := not_or.mp hgood
      rw [if_neg ht]
      split at h
      · rename_i hmem
        rw [putOne_repeated h.1 hmem]
        refine (ih hcur h.2).imp ?_ id
        rintro ⟨out, he, hd, hout⟩
        refine ⟨out, he, hd, fun x => ?_⟩
        rw [hout, List.mem_cons]
        constructor
        · exact Or.imp_right .inr
        · rintro (hx | rfl | hx)
          · exact .inl hx
          · exact .inl hmem
          · exact .inr hx
      · rename_i hmem
        have hfresh : ∀ x ∈ cur, x.address ≠ r.address := by
          intro x hx ha
          by_cases hd : x.data = r.data
          · have hxr : x = r := by
              cases x
              cases r
              simp_all
            exact hmem (hxr ▸ hx)
          · exact hnc ⟨x, hx, ha, hd⟩
        rw [putOne_fresh hfresh]
        have hdist : Distinct (cur ++ [r]) :=
          List.pairwise_append.mpr ⟨hcur, List.pairwise_singleton _ _, by simpa using hfresh⟩
        refine (ih hdist h).imp ?_ id
        rintro ⟨out, he, hd, hout⟩
        refine ⟨out, he, hd, fun x => ?_⟩
        rw [hout, List.mem_append, List.mem_singleton, List.mem_cons, or_assoc]

/-- What a call of `Put` should come to. -/
structure PutOk (p : Partition) (index : Nat) (records : List Record)
    (r : Partition × Option String) : Prop where
  increasing : Increasing r.1.records
  success : r.2 = none →
    (∀ x, x ∈ r.1.records ↔ x ∈ p.records ∨ x ∈ records) ∧ r.1.index = max p.index index
  failure : r.2 ≠ none → r.1 = p

theorem Distinct.sorted (h : Distinct rs) : Increasing (rs.insertionSort notAfter) := by
  have hd : Distinct (rs.insertionSort notAfter) :=
    ((List.perm_insertionSort notAfter rs).pairwise_iff fun hne => Ne.symm hne).mpr h
  refine ((List.pairwise_insertionSort notAfter rs).and hd).imp ?_
  rintro a b ⟨hle, hne⟩
  exact lt_of_le_of_ne (notAfter_iff.mp hle) hne

/-- **One call.** -/
theorem put_careful (hp : Increasing p.records) {index : Nat} {records : List Record}
    (h : Careful p.records p.records records) : PutOk p index records (p.put index records) := by
  rcases putLoop_careful p.index hp hp.distinct h with ⟨out, he, hd, hout⟩ | ⟨err, he⟩
  · have hput : p.put index records =
        (⟨max p.index index, out.insertionSort notAfter⟩, none) := by
      rw [Partition.put, he]
    rw [hput]
    refine ⟨hd.sorted, fun _ => ⟨fun x => ?_, rfl⟩, fun hne => absurd rfl hne⟩
    rw [List.mem_insertionSort, hout]
  · have hput : p.put index records = (p, some err) := by
      rw [Partition.put, he]
    rw [hput]
    exact ⟨hp, nofun, fun _ => rfl⟩

/-! ## Batches without conflicts -/

/-- One record for each address, listed once or more. -/
def Agreeing (rs : List Record) : Prop := ∀ r ∈ rs, ∀ x ∈ rs, r.address = x.address → r = x

theorem Increasing.agreeing (h : Increasing rs) : Agreeing rs := by
  intro r hr x hx ha
  by_contra hne
  have hsymm : Std.Symm fun a b : Record => a.address ≠ b.address := ⟨fun _ _ h => h.symm⟩
  exact h.distinct.forall hr hx hne ha

theorem putOne_agreeing (h : ∀ x ∈ p.records, x.address = r.address → x = r) :
    ∃ out, p.putOne r = .ok out ∧ out.index = p.index ∧
      ∀ x, x ∈ out.records ↔ x ∈ p.records ∨ x = r := by
  cases hf : (p.findFirst r.address).2 with
  | false =>
    exact ⟨{ p with records := p.records ++ [r] }, by simp [Partition.putOne, hf], rfl, by simp⟩
  | true =>
    obtain ⟨x, hx, hc⟩ := search_found hf
    have hmem : x ∈ p.records := List.mem_of_getElem? hx
    have hxr : x = r := h x hmem (Address.compare_eq_zero.mp hc).symm
    subst hxr
    have hat : p.records[(p.findFirst x.address).1]? = some x := hx
    refine ⟨p, by simp [Partition.putOne, hf, hat], rfl, fun y => ?_⟩
    constructor
    · exact .inl
    · rintro (hy | rfl)
      · exact hy
      · exact hmem

theorem putLoop_agreeing (h : Agreeing (p.records ++ rs)) (ht : ∀ r ∈ rs, r.address.timestamp ≠ 0) :
    ∃ out, p.putLoop rs = (out, none) ∧ out.index = p.index ∧
      ∀ x, x ∈ out.records ↔ x ∈ p.records ∨ x ∈ rs := by
  induction rs generalizing p with
  | nil => exact ⟨p, rfl, rfl, by simp⟩
  | cons r rs ih =>
    obtain ⟨p', hp', hi, hmem⟩ := putOne_agreeing (p := p) (r := r) fun x hx ha =>
      h x (by simp [hx]) r (by simp) ha
    have hsub : ∀ x ∈ p'.records ++ rs, x ∈ p.records ++ r :: rs := by
      intro x hx
      rw [List.mem_append, hmem] at hx
      rw [List.mem_append, List.mem_cons]
      tauto
    obtain ⟨out, ho, hio, hout⟩ := ih (p := p')
      (fun x hx y hy => h x (hsub x hx) y (hsub y hy)) fun x hx => ht x (by simp [hx])
    refine ⟨out, ?_, hio.trans hi, fun x => ?_⟩
    · rw [Partition.putLoop, if_neg (ht r (by simp)), hp']
      exact ho
    · rw [hout, hmem, List.mem_cons, or_assoc]

/-- **`Put` accepts what agrees with it**, whatever the order of the records. -/
theorem put_agreeing (index : Nat) (h : Agreeing (p.records ++ rs))
    (ht : ∀ r ∈ rs, r.address.timestamp ≠ 0) :
    ∃ out, p.put index rs = (out, none) ∧ out.index = max p.index index ∧
      ∀ x, x ∈ out.records ↔ x ∈ p.records ∨ x ∈ rs := by
  obtain ⟨out, ho, hi, hout⟩ := putLoop_agreeing h ht
  refine ⟨_, by rw [Partition.put, ho], by rw [hi], fun x => ?_⟩
  rw [List.mem_insertionSort, hout]

/-! ## Sequences of calls -/

structure Call where
  index : Nat
  records : List Record

def Partition.step (p : Partition) (c : Call) : Option Partition :=
  some (p.put c.index c.records).1

def CarefulCall (p : Partition) (c : Call) : Prop := Careful p.records p.records c.records
  deriving Decidable

/-- **`Put` keeps the records increasing and is atomic** along every sequence of calls
with careful batches. -/
theorem put_sorted_atomic {calls : List Call} {c : Call} {p : Partition}
    (hok : StepsMeet Partition.step CarefulCall {} (calls ++ [c]))
    (hrun : runSteps Partition.step {} calls = some p) :
    PutOk p c.index c.records (p.put c.index c.records) := by
  obtain ⟨hcalls, hc, _⟩ := (stepsMeet_append Partition.step hrun).mp hok
  have hp : Increasing p.records := by
    refine runSteps_invariant Partition.step (fun p => Increasing p.records) ?_ List.Pairwise.nil
      hcalls hrun
    intro p c p' hp hc hstep
    cases hstep
    exact (put_careful hp hc).increasing
  exact put_careful hp hc

/-! ## Careless batches -/

def recordAt (key : Data.Byte) (timestamp : Nat) (data : Data.Bytes) : Record :=
  ⟨⟨16, [key], timestamp⟩, data⟩

/-- A key that is put twice around a smaller one is stored twice, and a batch that fails
at its second record leaves the first one behind, out of order. -/
theorem put_duplicates_and_leftovers :
    (Partition.put {} 1 [recordAt 2 5 [], recordAt 1 5 [], recordAt 2 5 []] =
      (⟨1, [recordAt 1 5 [], recordAt 2 5 [], recordAt 2 5 []]⟩, none)) ∧
    ∃ err, Partition.put ⟨1, [recordAt 2 5 []]⟩ 2 [recordAt 1 5 [], recordAt 3 0 []] =
      (⟨1, [recordAt 2 5 [], recordAt 1 5 []]⟩, some err) :=
  ⟨by decide, _, rfl⟩

/-- Two batches, the second of which repeats a record and overwrites it. -/
theorem put_sorted_atomic_conflict :
    ∃ p, runSteps Partition.step {} [⟨1, [recordAt 2 5 [], recordAt 1 5 []]⟩] = some p ∧
      PutOk p 2 [recordAt 2 5 [], recordAt 2 5 [0]]
        (p.put 2 [recordAt 2 5 [], recordAt 2 5 [0]]) := by
  have hok : StepsMeet Partition.step CarefulCall {}
      ([⟨1, [recordAt 2 5 [], recordAt 1 5 []]⟩] ++
        [⟨2, [recordAt 2 5 [], recordAt 2 5 [0]]⟩]) := by
    decide
  exact ⟨⟨1, [recordAt 1 5 [], recordAt 2 5 []]⟩, by decide, put_sorted_atomic hok (by decide)⟩

end Scout.Inmem
