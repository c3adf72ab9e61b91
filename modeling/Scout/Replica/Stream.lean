import Scout.Replica.Restore
import Scout.Storage.Rocks

/-!
A restore with its sponsors (`serving/streamer.go`) and with crashes. A sponsor streams its user
records in the order of their addresses, in batches; the joining replica stores each batch with a
checkpoint and asks for the rest again when the stream breaks, from the last address that it
has seen, or from the one after it when it is a new process that has read the checkpoint. What the
checkpoint promises holds in every state of the store, so it does not matter which of them a
crash brings back.
-/

namespace Scout.Restore

open Kv Lib
open Data (Bytes firstUserKeyspace maxUint64 decUint64)

/-! ## Sponsors -/

/-- A serving replica that has applied the log up to `index`; `written i` are the records of log
entry `i`. Records are immutable, so all of them are there, and they carry HLC timestamps. -/
structure Sponsor (written : Nat → List Record) where
  inmem : Bool
  index : Nat
  stored : Rocks.Stored
  complete : ∀ i ≤ index, ∀ r ∈ written i, r ∈ stored.records
  stamped : ∀ r ∈ stored.records, firstUserKeyspace ≤ r.address.keyspace → 0 < r.address.timestamp

/-- `FirstAddress`. -/
def firstAddress (keyspace : Nat) : Address := ⟨keyspace, [], maxUint64⟩

/-- `GetStream` of either engine. -/
def getStream {written : Nat → List Record} (pid : Nat) (s : Sponsor written) (start : Address) :
    List Record :=
  if s.inmem then s.stored.partition.getRange start none
  else Rocks.getRange (s.stored.columnFamily pid s.index) start none

/-- The loop of the streamer; `records` are those not sent yet. -/
def sendLoop (maxStreamingSize : Nat) (records : List Record) : List Record → List Response
  | [] => [⟨records, true⟩]
  | r :: rs =>
    if (records ++ [r]).length < maxStreamingSize then
      sendLoop maxStreamingSize (records ++ [r]) rs
    else ⟨records ++ [r], false⟩ :: sendLoop maxStreamingSize [] rs

/-- `StreamPartition`, after the validation of the request; there are no responses when it
returns an error. -/
def streamPartition {written : Nat → List Record} (pid maxStreamingSize : Nat)
    (s : Sponsor written) (minIndex : Nat) (startAddress : Option Address) : List Response :=
  if startAddress.any fun a => (validateAddress a).isSome then []
  else if s.index < minIndex then []
  else
    match startAddress with
    | none => sendLoop maxStreamingSize [] (getStream pid s (firstAddress firstUserKeyspace))
    | some a =>
      if a.keyspace < firstUserKeyspace then []
      else sendLoop maxStreamingSize [] (getStream pid s a)

/-! ## The system -/

/-- The joining replica, the responses of the open stream that it has not received, and the
states that its store has been in, the last one being the current one. -/
structure System where
  joiner : Joiner (Option ColumnFamily)
  rest : List Response
  past : List (Option ColumnFamily)

def System.new : System := ⟨⟨none, .idle⟩, [], [none]⟩

inductive Action (written : Nat → List Record) where
  | restoreAt
  | connect (sponsor : Sponsor written) (maxStreamingSize : Nat)
  | recv
  | fail
  /-- Back to the `n`-th state of the store: what was put after it had not been flushed. -/
  | crash (n : Nat)

section System

variable {written : Nat → List Record} (codec : Codec) (pid retries minIndex : Nat)

def System.step (y : System) : Action written → Option System
  | .restoreAt =>
    (Restore.step rocksEngine codec pid retries minIndex y.joiner .restoreAt).map fun j =>
      ⟨j, [], y.past ++ [j.store]⟩
  | .connect sponsor maxStreamingSize =>
    match y.joiner.phase with
    | .waiting lastAddr =>
      (Restore.step rocksEngine codec pid retries minIndex y.joiner .connect).map fun j =>
        ⟨j, streamPartition pid maxStreamingSize sponsor minIndex lastAddr, y.past⟩
    | _ => none
  | .recv =>
    match y.rest with
    | [] => none
    | res :: rest =>
      (Restore.step rocksEngine codec pid retries minIndex y.joiner (.recv res)).map fun j =>
        ⟨j, rest, y.past ++ [j.store]⟩
  | .fail =>
    (Restore.step rocksEngine codec pid retries minIndex y.joiner .fail).map fun j =>
      ⟨j, [], y.past⟩
  | .crash n => y.past[n]?.map fun store => ⟨⟨store, .idle⟩, [], y.past.take (n + 1)⟩

end System

/-! ## Streams -/

/-- A stream of user records leaves the records of the engine out. -/
theorem getStream_eq {written : Nat → List Record} (pid : Nat) (s : Sponsor written)
    {start : Address} (h : start.Fits) (hu : 0 < start.keyspace) :
    getStream pid s start = s.stored.records.filter fun r => decide (start ≤ r.address) := by
  unfold getStream
  split
  · refine (Rocks.partition_getRange (p := s.stored.partition) s.stored.increasing _ none).trans ?_
    exact List.filter_congr fun r _ => by simp [Rocks.inRange]
  · rw [s.stored.columnFamily_getRange pid s.index h (by simp), s.stored.filter_rows_iff]
    refine ⟨?_, fun r _ => by simp [Rocks.inRange, Rocks.belowBound]⟩
    intro q hq
    have hks : q.address.keyspace = 0 := by
      rcases Rocks.mem_reserved hq with hq | hq <;> rw [hq] <;> rfl
    have hlt : q.address < start := Address.lt_iff.mpr (.inl (by omega))
    simp [Rocks.inRange, not_le.mpr hlt]

def sent (rest : List Response) : List Record := rest.flatMap Response.records

/-- Only the last response says that it is, and every other one has records. -/
def Proper : List Response → Prop
  | [] => True
  | res :: rest => (res.completed = true → rest = []) ∧
      (res.completed = false → res.records ≠ []) ∧ Proper rest

theorem sendLoop_spec (size : Nat) (records rs : List Record) :
    sent (sendLoop size records rs) = records ++ rs ∧ Proper (sendLoop size records rs) := by
  induction rs generalizing records with
  | nil => exact ⟨by simp [sent, sendLoop], ⟨fun _ => rfl, nofun, trivial⟩⟩
  | cons r rs ih =>
    rw [sendLoop]
    split
    · obtain ⟨hs, hp⟩ := ih (records ++ [r])
      exact ⟨by rw [hs]; simp, hp⟩
    · obtain ⟨hs, hp⟩ := ih []
      refine ⟨?_, nofun, fun _ => by simp, hp⟩
      change (records ++ [r]) ++ sent (sendLoop size [] rs) = _
      rw [hs]
      simp

/-! ## What the checkpoint promises -/

/-- A user record of a log entry up to `minIndex`. -/
def Needed (written : Nat → List Record) (minIndex : Nat) (r : Record) : Prop :=
  (∃ i ≤ minIndex, r ∈ written i) ∧ firstUserKeyspace ≤ r.address.keyspace

/-- The address of a user record. -/
structure Good (a : Address) : Prop where
  fits : a.Fits
  user : firstUserKeyspace ≤ a.keyspace
  stamped : 0 < a.timestamp

theorem keyspace_le {a b : Address} (h : a ≤ b) : a.keyspace ≤ b.keyspace := by
  rcases lt_or_eq_of_le h with hlt | rfl
  · rcases Address.lt_iff.mp hlt with hks | ⟨hks, _⟩
    · exact hks.le
    · exact hks.le
  · exact le_rfl

theorem Good.next_eq {a : Address} (h : Good a) :
    a.next = ⟨a.keyspace, a.key, a.timestamp - 1⟩ := by
  have hts := h.stamped
  have hle := h.fits.timestamp_le
  have hdec : decUint64 a.timestamp = a.timestamp - 1 := Data.decUint64_of_pos hts
  rw [Address.next, hdec, if_pos (by omega)]

theorem Good.lt_next {a b : Address} (h : Good a) : b < a.next ↔ b ≤ a := by
  have hts := h.stamped
  rw [h.next_eq, le_iff_lt_or_eq, Address.lt_iff, Address.lt_iff]
  constructor
  · rintro (hks | ⟨hks, hkey | ⟨hkey, ht⟩⟩)
    · exact .inl (.inl hks)
    · exact .inl (.inr ⟨hks, .inl hkey⟩)
    · have hle : a.timestamp ≤ b.timestamp := by
        dsimp only at ht
        omega
      rcases lt_or_eq_of_le hle with hlt | heq
      · exact .inl (.inr ⟨hks, .inr ⟨hkey, hlt⟩⟩)
      obtain ⟨ks, key, t⟩ := a
      obtain ⟨ks', key', t'⟩ := b
      dsimp only at hks hkey heq
      exact .inr (by rw [hks, hkey, heq])
  · rintro ((hks | ⟨hks, hkey | ⟨hkey, ht⟩⟩) | rfl)
    · exact .inl hks
    · exact .inr ⟨hks, .inl hkey⟩
    · exact .inr ⟨hks, .inr ⟨hkey, by dsimp only; omega⟩⟩
    · exact .inr ⟨rfl, .inr ⟨rfl, by dsimp only; omega⟩⟩

section Invariant

variable (written : Nat → List Record) (codec : Codec) (minIndex : Nat) (known : Record → Prop)

/-- **What every state of the store keeps.** The records come from sponsors; a checkpoint that
says so has all needed records beside it, and any other one those up to its last address. -/
structure Kept (cf : ColumnFamily) : Prop where
  keyed : Keyed cf.records
  origin : ∀ r ∈ cf.records, r.address ≠ addressCheckpoint → known r
  promise : ∀ r ∈ cf.records, r.address = addressCheckpoint →
    ∃ chk, codec.unmarshal r.data = some chk ∧ chk.minIndex = minIndex ∧
      (chk.completed = true → ∀ x, Needed written minIndex x → x ∈ cf.records) ∧
      (chk.completed = false → ∀ a ∈ chk.lastAddress, Good a ∧
        ∀ x, Needed written minIndex x → x.address ≤ a → x ∈ cf.records)

/-- The needed records before the address to continue from are there. -/
def From (cf : ColumnFamily) (lastAddr : Option Address) : Prop :=
  ∀ a ∈ lastAddr, a.Fits ∧ firstUserKeyspace ≤ a.keyspace ∧
    ∀ x, Needed written minIndex x → x.address < a → x ∈ cf.records

/-- The needed records are in the store or still to come. -/
structure Serves (cf : ColumnFamily) (rest : List Response) : Prop where
  proper : Proper rest
  increasing : Inmem.Increasing (sent rest)
  good : ∀ r ∈ sent rest, Good r.address ∧ known r
  agrees : ∀ w ∈ sent rest, ∀ x, Needed written minIndex x → w.address = x.address → w = x
  covers : ∀ x, Needed written minIndex x → x ∈ cf.records ∨ x ∈ sent rest

end Invariant

section Steps

variable {written : Nat → List Record} {codec : Codec} {minIndex : Nat} {known : Record → Prop}
  {cf : ColumnFamily}

theorem Serves.connect {lastAddr : Option Address} (hf : From written minIndex cf lastAddr)
    (pid size : Nat) (s : Sponsor written) (hk : ∀ r ∈ s.stored.records, known r) :
    streamPartition pid size s minIndex lastAddr = [] ∨
      Serves written minIndex known cf (streamPartition pid size s minIndex lastAddr) := by
  unfold streamPartition
  split
  · exact .inl rfl
  split
  · exact .inl rfl
  rename_i hindex
  have hin : ∀ x, Needed written minIndex x → x ∈ s.stored.records := by
    rintro x ⟨⟨i, hi, hx⟩, _⟩
    exact s.complete i (hi.trans (not_lt.mp hindex)) x hx
  -- a stream from any user address before which all is there
  have key : ∀ start : Address, start.Fits → firstUserKeyspace ≤ start.keyspace →
      (∀ x, Needed written minIndex x → x.address < start → x ∈ cf.records) →
      Serves written minIndex known cf (sendLoop size [] (getStream pid s start)) := by
    intro start hfits huser hbefore
    have hks : 0 < start.keyspace := Nat.lt_of_lt_of_le (by decide) huser
    obtain ⟨hsent, hproper⟩ := sendLoop_spec size [] (getStream pid s start)
    rw [List.nil_append, getStream_eq pid s hfits hks] at hsent
    rw [getStream_eq pid s hfits hks] at hproper ⊢
    have hmem : ∀ r, r ∈ sent (sendLoop size []
        (s.stored.records.filter fun r => decide (start ≤ r.address))) ↔
        r ∈ s.stored.records ∧ start ≤ r.address := by
      intro r
      rw [hsent, List.mem_filter, decide_eq_true_eq]
    refine ⟨hproper, ?_, ?_, ?_, ?_⟩
    · rw [hsent]
      exact s.stored.increasing.sublist List.filter_sublist
    · intro r hr
      obtain ⟨hr, hge⟩ := (hmem r).mp hr
      have hu : firstUserKeyspace ≤ r.address.keyspace := huser.trans (keyspace_le hge)
      exact ⟨⟨s.stored.fits r hr, hu, s.stamped r hr hu⟩, hk r hr⟩
    · intro w hw x hx ha
      exact s.stored.increasing.agreeing w ((hmem w).mp hw).1 x (hin x hx) ha
    · intro x hx
      by_cases hlt : x.address < start
      · exact .inl (hbefore x hx hlt)
      · exact .inr ((hmem x).mpr ⟨hin x hx, not_lt.mp hlt⟩)
  cases lastAddr with
  | none =>
    refine .inr (key _ ⟨by decide, le_rfl⟩ le_rfl ?_)
    intro x hx hlt
    -- no user record is before the first address
    have hts := (s.stored.fits x (hin x hx)).timestamp_le
    rcases Address.lt_iff.mp hlt with hks | ⟨_, hkey | ⟨_, ht⟩⟩
    · exact absurd hx.2 (not_le.mpr hks)
    · exact absurd hkey (List.not_lt_nil _)
    · exact absurd hts (not_le.mpr ht)
  | some a =>
    simp only
    split
    · exact .inl rfl
    · obtain ⟨hfits, huser, hbefore⟩ := hf a rfl
      exact .inr (key a hfits huser hbefore)

theorem Needed.ne_checkpoint {x : Record} (h : Needed written minIndex x) :
    x.address ≠ addressCheckpoint := by
  intro ha
  have hu := h.2
  rw [ha] at hu
  exact absurd hu (by decide)

section Recv

variable {res : Response} {rest : List Response}
  (hs : Serves written minIndex known cf (res :: rest)) (index : Nat)

include hs

theorem Serves.stored (codec : Codec) {x : Record} (hx : Needed written minIndex x)
    (h : x ∈ cf.records ∨ x ∈ res.records) :
    x ∈ (cf.put index (newRecords codec minIndex res)).records := by
  refine ColumnFamily.mem_put_snoc.mpr (.inr ⟨?_, hx.ne_checkpoint⟩)
  refine ColumnFamily.mem_put_of_agrees h (fun w hw ha => ?_) index
  exact hs.agrees w (List.mem_append_left _ hw) x hx ha

theorem Serves.last (codec : Codec) (hc : res.completed = true) {x : Record}
    (hx : Needed written minIndex x) :
    x ∈ (cf.put index (newRecords codec minIndex res)).records := by
  refine hs.stored index codec hx ?_
  have hrest : rest = [] := hs.proper.1 hc
  simpa [sent, hrest] using hs.covers x hx

theorem Serves.upto (codec : Codec) {l x : Record} (hl : res.records.getLast? = some l)
    (hx : Needed written minIndex x) (hle : x.address ≤ l.address) :
    x ∈ (cf.put index (newRecords codec minIndex res)).records := by
  refine hs.stored index codec hx ((hs.covers x hx).imp_right fun hsent => ?_)
  refine (List.mem_append.mp hsent).resolve_right fun hlater => ?_
  -- the records of later responses are after this one
  have hlt := (List.pairwise_append.mp hs.increasing).2.2 l (List.mem_of_getLast? hl) x hlater
  exact absurd hle (not_le.mpr hlt)

theorem Serves.kept (hcf : Kept written codec minIndex known cf) :
    Kept written codec minIndex known (cf.put index (newRecords codec minIndex res)) where
  keyed := ColumnFamily.keyed_put hcf.keyed index _
  origin := by
    intro r hr ha
    rcases ColumnFamily.mem_put_snoc.mp hr with rfl | ⟨hr, _⟩
    · exact absurd rfl ha
    · rcases ColumnFamily.mem_of_mem_put hr with hr | hr
      · exact hcf.origin r hr ha
      · exact (hs.good r (List.mem_append_left _ hr)).2
  promise := by
    intro r hr ha
    rcases ColumnFamily.mem_put_snoc.mp hr with rfl | ⟨_, hne⟩
    · refine ⟨_, codec.unmarshal_marshal _, rfl, fun hc x hx => hs.last index codec hc hx, ?_⟩
      intro _ a hlast
      obtain ⟨l, hl, rfl⟩ := Option.map_eq_some_iff.mp hlast
      exact ⟨(hs.good l (List.mem_append_left _ (List.mem_of_getLast? hl))).1,
        fun x hx hle => hs.upto index codec hl hx hle⟩
    · exact absurd ha hne

theorem Serves.continue (codec : Codec) :
    From written minIndex (cf.put index (newRecords codec minIndex res))
        (res.records.getLast?.map Record.address) ∧
      Serves written minIndex known (cf.put index (newRecords codec minIndex res)) rest := by
  constructor
  · intro a hlast
    obtain ⟨l, hl, rfl⟩ := Option.map_eq_some_iff.mp hlast
    have hg := (hs.good l (List.mem_append_left _ (List.mem_of_getLast? hl))).1
    exact ⟨hg.fits, hg.user, fun x hx hlt => hs.upto index codec hl hx hlt.le⟩
  · refine ⟨hs.proper.2.2, (List.pairwise_append.mp hs.increasing).2.1, ?_, ?_, ?_⟩
    · exact fun r hr => hs.good r (List.mem_append_right _ hr)
    · exact fun w hw => hs.agrees w (List.mem_append_right _ hw)
    · intro x hx
      rcases hs.covers x hx with hx' | hx'
      · exact .inl (hs.stored index codec hx (.inl hx'))
      · rcases List.mem_append.mp hx' with hx' | hx'
        · exact .inl (hs.stored index codec hx (.inr hx'))
        · exact .inr hx'

end Recv

end Steps

/-! ## Runs -/

section Runs

variable (written : Nat → List Record) (codec : Codec) (pid retries minIndex : Nat)
  (known : Record → Prop)

/-- Every state of the store that a crash can bring back keeps its promise, and the phase of the
restore fits the current one. -/
structure Inv (y : System) : Prop where
  past : ∀ store ∈ y.past, ∀ cf ∈ store, Kept written codec minIndex known cf
  store : ∀ cf ∈ y.joiner.store, Kept written codec minIndex known cf
  phase : match y.joiner.phase with
    | .waiting lastAddr => ∃ cf, y.joiner.store = some cf ∧ From written minIndex cf lastAddr
    | .streaming lastAddr => ∃ cf, y.joiner.store = some cf ∧ From written minIndex cf lastAddr ∧
        (y.rest = [] ∨ Serves written minIndex known cf y.rest)
    | .done => ∃ cf, y.joiner.store = some cf ∧ ∀ x, Needed written minIndex x → x ∈ cf.records
    | _ => True

variable {written codec pid retries minIndex known}

theorem kept_empty : Kept written codec minIndex known {} :=
  ⟨nofun, nofun, nofun⟩

theorem Inv.snoc {past : List (Option ColumnFamily)} {store : Option ColumnFamily}
    (hp : ∀ store ∈ past, ∀ cf ∈ store, Kept written codec minIndex known cf)
    (hs : ∀ cf ∈ store, Kept written codec minIndex known cf) :
    ∀ store' ∈ past ++ [store], ∀ cf ∈ store', Kept written codec minIndex known cf := by
  intro store' hm
  rcases List.mem_append.mp hm with hm | hm
  · exact hp store' hm
  · rw [List.mem_singleton.mp hm]
    exact hs

theorem Inv.restoreAt {store : Option ColumnFamily}
    (hs : ∀ cf ∈ store, Kept written codec minIndex known cf) {past : List (Option ColumnFamily)}
    (hp : ∀ store ∈ past, ∀ cf ∈ store, Kept written codec minIndex known cf) :
    Inv written codec minIndex known ⟨begin rocksEngine codec pid retries minIndex store, [],
      past ++ [(begin rocksEngine codec pid retries minIndex store).store]⟩ := by
  have hcf : Kept written codec minIndex known (store.getD {}) := by
    cases store with
    | none => exact kept_empty
    | some cf => exact hs cf rfl
  -- what a stored checkpoint says
  have hchk : ∀ r ∈ (store.getD {}).get addressCheckpoint, ∀ chk ∈ codec.unmarshal r.data,
      chk.minIndex = minIndex ∧
      (chk.completed = true → ∀ x, Needed written minIndex x → x ∈ (store.getD {}).records) ∧
      (chk.completed = false → ∀ a ∈ chk.lastAddress, Good a ∧
        ∀ x, Needed written minIndex x → x.address ≤ a → x ∈ (store.getD {}).records) := by
    intro r hr chk hc
    obtain ⟨hm, ha⟩ := (ColumnFamily.get_eq_some hcf.keyed).mp hr
    obtain ⟨chk', hc', hrest⟩ := hcf.promise r hm ha
    obtain rfl : chk' = chk := Option.some.inj (hc'.symm.trans hc)
    exact hrest
  have hstore : ∀ cf ∈ some (store.getD {}), Kept written codec minIndex known cf := by
    rintro cf ⟨⟩
    exact hcf
  rcases lawful_rocks.begin_cases codec pid retries minIndex store with
    ⟨⟨r, hr, chk, hc, hlt⟩, _⟩ | ⟨⟨r, hr, chk, hc, _, hdone⟩, hb⟩ | ⟨_, _, l, hb, hl⟩
  · -- the checkpoint is that of this restore
    have heq := (hchk r hr chk hc).1
    omega
  · rw [hb]
    exact ⟨Inv.snoc hp hstore, hstore, _, rfl, (hchk r hr chk hc).2.1 hdone⟩
  · rw [hb]
    refine ⟨Inv.snoc hp hstore, hstore, _, rfl, ?_⟩
    intro a ha
    obtain ⟨r, hr, chk, hc, hdone, b, hbl, rfl⟩ := hl a ha
    obtain ⟨hg, hupto⟩ := (hchk r hr chk hc).2.2 hdone b hbl
    have heq := hg.next_eq
    refine ⟨⟨?_, ?_⟩, ?_, fun x hx hlt => hupto x hx (hg.lt_next.mp hlt)⟩
    · rw [heq]
      exact hg.fits.keyspace_lt
    · rw [heq]
      exact (Nat.sub_le _ _).trans hg.fits.timestamp_le
    · rw [heq]
      exact hg.user

def Action.Known (known : Record → Prop) : Action written → Prop
  | .connect s _ => ∀ r ∈ s.stored.records, known r
  | _ => True

/-- **Step.** -/
theorem Inv.step {y y' : System} {a : Action written} (h : Inv written codec minIndex known y)
    (hk : a.Known known) (hstep : y.step codec pid retries minIndex a = some y') :
    Inv written codec minIndex known y' := by
  obtain ⟨⟨store, phase⟩, rest, past⟩ := y
  cases a with
  | restoreAt =>
    cases phase with
    | idle =>
      cases hstep
      exact Inv.restoreAt h.store h.past
    | _ => cases hstep
  | connect s size =>
    cases phase with
    | waiting l =>
      cases hstep
      obtain ⟨cf, hcf, hfrom⟩ := h.phase
      exact ⟨h.past, h.store, cf, hcf, hfrom, Serves.connect hfrom pid size s hk⟩
    | _ => cases hstep
  | recv =>
    cases rest with
    | nil => cases hstep
    | cons res rest =>
      cases phase with
      | streaming l =>
        obtain ⟨cf, hcf, hfrom, hserves⟩ := h.phase
        obtain rfl : store = some cf := hcf
        have hs := hserves.resolve_left (by simp)
        have hkept := h.store cf rfl
        simp only [System.step, Restore.step] at hstep
        split at hstep
        · have hput : rocksEngine.put (some cf) (if res.completed then minIndex else 0)
              (newRecords codec minIndex res) =
            (some (cf.put (if res.completed then minIndex else 0)
              (newRecords codec minIndex res)), none) := rfl
          rw [receive, breaker_ok _ _ _ hput] at hstep
          cases hstep
          have hnew : ∀ cf' ∈ some (cf.put (if res.completed then minIndex else 0)
              (newRecords codec minIndex res)), Kept written codec minIndex known cf' := by
            rintro cf' ⟨⟩
            exact hs.kept _ hkept
          refine ⟨Inv.snoc h.past hnew, hnew, ?_⟩
          cases hc : res.completed with
          | true => exact ⟨_, rfl, fun x hx => hs.last _ codec hc hx⟩
          | false =>
            obtain ⟨hf, hr⟩ := hs.continue (if res.completed then minIndex else 0) codec
            rw [hc] at hf hr
            exact ⟨_, rfl, hf, .inr hr⟩
        · cases hstep
          exact ⟨Inv.snoc h.past h.store, h.store, cf, rfl, hfrom⟩
      | _ => cases hstep
  | fail =>
    cases phase with
    | streaming l =>
      cases hstep
      obtain ⟨cf, hcf, hfrom, _⟩ := h.phase
      exact ⟨h.past, h.store, cf, hcf, hfrom⟩
    | _ => cases hstep
  | crash n =>
    obtain ⟨old, hold, rfl⟩ := Option.map_eq_some_iff.mp hstep
    have hmem : old ∈ past := List.mem_of_getElem? hold
    exact ⟨fun s hs => h.past s (List.mem_of_mem_take hs), h.past old hmem, trivial⟩

def sponsored (as : List (Action written)) (r : Record) : Prop :=
  ∃ s size, Action.connect s size ∈ as ∧ r ∈ s.stored.records

/-- **Run.** -/
theorem inv_run {as : List (Action written)} {y : System}
    (h : runSteps (System.step codec pid retries minIndex) System.new as = some y) :
    Inv written codec minIndex (sponsored as) y := by
  have hknown : StepsMeet (System.step codec pid retries minIndex)
      (fun _ a => a.Known (sponsored as)) System.new as := by
    refine stepsMeet_of_mem _ ?_ _
    intro a ha _
    cases a with
    | connect s size => exact fun r hr => ⟨s, size, ha, hr⟩
    | _ => trivial
  refine runSteps_invariant _ (Inv written codec minIndex (sponsored as))
    (fun y a y' hy ha hs => hy.step ha hs) ?_ hknown h
  exact ⟨by simp [System.new], nofun, trivial⟩

end Runs

/-- **A completed restore is complete.** For every log, every set of sponsors and every run of
streams, failures and crashes: when the restore is done, the partition holds every user record
of the log up to the index, and nothing but the checkpoint and records of sponsors. -/
theorem restore_complete (written : Nat → List Record) (codec : Codec)
    (pid retries minIndex : Nat) (as : List (Action written)) (y : System)
    (hrun : runSteps (System.step codec pid retries minIndex) System.new as = some y)
    (hdone : y.joiner.phase = .done) : ∃ cf, y.joiner.store = some cf ∧
      (∀ i ≤ minIndex, ∀ r ∈ written i, firstUserKeyspace ≤ r.address.keyspace → r ∈ cf.records) ∧
      ∀ r ∈ cf.records, r.address ≠ addressCheckpoint → sponsored as r := by
  have hinv := inv_run hrun
  have hphase := hinv.phase
  rw [hdone] at hphase
  obtain ⟨cf, hcf, hall⟩ := hphase
  refine ⟨cf, hcf, fun i hi r hr hu => hall r ⟨⟨i, hi, hr⟩, hu⟩, ?_⟩
  exact (hinv.store cf hcf).origin

/-! ## A restore with a failure and a crash -/

def twoEntries : Nat → List Record
  | 1 => [userRecord 1]
  | 2 => [userRecord 2]
  | _ => []

def twoEntriesSponsor (inmem : Bool) : Sponsor twoEntries where
  inmem
  index := 2
  stored := {
    records := [userRecord 1, userRecord 2]
    increasing := by decide
    fits := by
      intro r hr
      simp only [List.mem_cons, List.not_mem_nil, or_false] at hr
      rcases hr with rfl | rfl <;> exact ⟨by decide, by decide⟩
    separate := by decide }
  complete := by
    intro i _ r hr
    unfold twoEntries at hr
    split at hr <;> simp_all
  stamped := by
    intro r hr _
    simp only [List.mem_cons, List.not_mem_nil, or_false] at hr
    rcases hr with rfl | rfl <;> decide

/-- The stream of the first sponsor breaks after its first record, the second one begins again
with that record, and the process crashes; the new one continues after the record. -/
def brokenRestore : List (Action twoEntries) :=
  [.restoreAt, .connect (twoEntriesSponsor false) 1, .recv, .fail,
    .connect (twoEntriesSponsor true) 1, .recv, .crash 2, .restoreAt,
    .connect (twoEntriesSponsor false) 1, .recv, .recv]

theorem restore_complete_broken :
    ∃ y cf, runSteps (System.step unaryCodec 1 2 2) System.new brokenRestore = some y ∧
      y.joiner.store = some cf ∧ userRecord 1 ∈ cf.records ∧ userRecord 2 ∈ cf.records := by
  obtain ⟨y, hrun, hdone⟩ : ∃ y, runSteps (System.step unaryCodec 1 2 2) System.new brokenRestore =
      some y ∧ y.joiner.phase = .done := ⟨_, rfl, rfl⟩
  obtain ⟨cf, hcf, hall, _⟩ := restore_complete twoEntries unaryCodec 1 2 2 brokenRestore y hrun
    hdone
  exact ⟨y, cf, hrun, hcf, hall 1 (by decide) _ (by simp [twoEntries]) (by decide),
    hall 2 le_rfl _ (by simp [twoEntries]) (by decide)⟩

end Scout.Restore
