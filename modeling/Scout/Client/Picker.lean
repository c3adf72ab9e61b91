import Scout.Client.Balancer

/-!
How the clients pick a connection. A read of a snapshot goes to the replicas in turn:
a 32-bit counter is advanced by each pick, and the scan starts at its remainder by the
number of replicas. The public client takes its ready connections in turn in the same
way.

The counter is signed. After 2^31 - 1 picks it continues with negative values, for which
the remainder is negative too, unless the number of replicas divides the value.
-/

namespace Scout.Client

open Lib

/-- The connections by address, as they are at the time of a call. -/
structure ClientConn where
  subConn : String → Option Nat
  isReady : String → Bool

inductive PickError where
  | missingRouting
  | invalidPartition
  | preferredUnavailable
  | noSubConnAvailable
  deriving DecidableEq, Repr

structure Routing where
  partitionId : Nat
  snapshotRead : Bool

structure PreferredServer where
  serverId : Nat
  enforce : Bool

/-- What `Pick` finds in the context of a call. -/
structure PickInfo where
  routing : Option Routing
  preferred : Option PreferredServer

/-- The picker; each partition has its counter. -/
structure Picker where
  partitions : AList fun _ : Nat => Partition
  replicaRR : Nat → Int32

/-- Access to an element of a slice. -/
def index {ε α : Type} (xs : List α) (i : Int) : Go ε α :=
  if i < 0 then .error .panic else deref xs[i.toNat]?

/-- `int(counter) % n`; the remainder has the sign of the counter. -/
def roundRobin (counter : Int32) (n : Nat) : Int := counter.toInt.tmod n

/-! ## The data client -/

def ClientConn.available (conn : ClientConn) (addr : String) : Option Nat :=
  match conn.subConn addr with
  | none => none
  | some c => if conn.isReady addr then some c else none

def scan (conn : ClientConn) (part : Partition) : Nat → Int → Go PickError Nat
  | 0, _ => .error (.err .noSubConnAvailable)
  | k + 1, curr => do
    let addr ← index part.replicaSlice curr
    match conn.available addr with
    | none => scan conn part k ((curr + 1).tmod part.replicaCount)
    | some c => .ok c

/-- The last part of `Pick`, with the counter after its increment. -/
def pickReplica (conn : ClientConn) (part : Partition) (counter : Int32) : Go PickError Nat :=
  scan conn part part.replicaCount (roundRobin counter part.replicaCount)

def unavailableErr (preferred : Option PreferredServer) : PickError :=
  if preferred.any PreferredServer.enforce then .preferredUnavailable else .noSubConnAvailable

def pickLeader (conn : ClientConn) (part : Partition) (preferred : Option PreferredServer) :
    Go PickError Nat :=
  if part.leader = "" then .error (.err (unavailableErr preferred))
  else if conn.isReady part.leader = false then .error (.err (unavailableErr preferred))
  else if preferred.any fun p => p.enforce && p.serverId != part.leaderId then
    .error (.err .preferredUnavailable)
  else match conn.subConn part.leader with
    | none => .error (.err (unavailableErr preferred))
    | some c => .ok c

/-- The connection to the preferred server, or none if the replicas are taken in turn. -/
def pickPreferred (conn : ClientConn) (part : Partition) (preferred : PreferredServer) :
    Option (Go PickError Nat) :=
  match conn.subConn ((part.replicaMap.lookup preferred.serverId).getD "") with
  | some c => some (.ok c)
  | none => if preferred.enforce then some (.error (.err .preferredUnavailable)) else none

/-- `Pick` up to the increment of the counter: a result, or the partition whose replicas
are taken in turn. -/
def Picker.route (p : Picker) (conn : ClientConn) (info : PickInfo) :
    Go PickError Nat ⊕ Nat × Partition :=
  match info.routing with
  | none => .inl (.error (.err .missingRouting))
  | some routing =>
    match p.partitions.lookup routing.partitionId with
    | none => .inl (.error (.err .invalidPartition))
    | some part =>
      if routing.snapshotRead = false then .inl (pickLeader conn part info.preferred)
      else if part.replicaCount = 0 then .inl (.error (.err (unavailableErr info.preferred)))
      else match info.preferred.bind (pickPreferred conn part) with
        | some result => .inl result
        | none => .inr (routing.partitionId, part)

def Picker.pick (p : Picker) (conn : ClientConn) (info : PickInfo) : Picker × Go PickError Nat :=
  match p.route conn info with
  | .inl result => (p, result)
  | .inr (pid, part) =>
    let counter := p.replicaRR pid + 1
    ({ p with replicaRR := Function.update p.replicaRR pid counter },
      pickReplica conn part counter)

/-! ## The public client -/

structure PublicPicker where
  ready : List Nat
  rr : Int32

def PublicPicker.pick (p : PublicPicker) : PublicPicker × Go PickError Nat :=
  if p.ready.length = 0 then (p, .error (.err .noSubConnAvailable))
  else
    let counter := p.rr + 1
    ({ p with rr := counter }, index p.ready (roundRobin counter p.ready.length))

/-! ## The counter -/

def counterAfter (picks : Nat) : Int32 := (· + 1)^[picks] 0

theorem counterAfter_eq (picks : Nat) : counterAfter picks = Int32.ofNat picks := by
  induction picks with
  | zero => rfl
  | succ picks ih =>
    unfold counterAfter at ih ⊢
    rw [Function.iterate_succ_apply', ih, Int32.ofNat_add]
    rfl

/-- The counter counts modulo 2^32, from -2^31. -/
theorem counterAfter_toInt (picks : Nat) : (counterAfter picks).toInt =
    if picks % 2 ^ 32 < 2 ^ 31 then ((picks % 2 ^ 32 : Nat) : Int)
    else -((2 ^ 32 - picks % 2 ^ 32 : Nat) : Int) := by
  have hsize : Int32.size = 2 ^ 32 := rfl
  rw [counterAfter_eq, Int32.toInt_ofNat', hsize, Int.bmod_def]
  split <;> split <;> omega

def Indexable (n picks : Nat) : Prop :=
  picks % 2 ^ 32 < 2 ^ 31 ∨ n ∣ 2 ^ 32 - picks % 2 ^ 32
  deriving Decidable

theorem roundRobin_nonneg_iff (n picks : Nat) :
    0 ≤ roundRobin (counterAfter picks) n ↔ Indexable n picks := by
  unfold roundRobin Indexable
  rw [counterAfter_toInt]
  split
  · next h =>
    have hpos : (0 : Int) ≤ ((picks % 2 ^ 32 : Nat) : Int).tmod n :=
      Int.tmod_nonneg _ (Int.natCast_nonneg _)
    exact iff_of_true hpos (.inl h)
  · next h =>
    rw [Int.neg_tmod, ← Int.ofNat_tmod]
    constructor
    · intro hle
      have hzero : (2 ^ 32 - picks % 2 ^ 32) % n = 0 := by omega
      exact .inr (Nat.dvd_of_mod_eq_zero hzero)
    · rintro (hlt | hdvd)
      · exact absurd hlt h
      · rw [Nat.mod_eq_zero_of_dvd hdvd]
        simp

theorem roundRobin_lt {n : Nat} (hn : 0 < n) (counter : Int32) : roundRobin counter n < n := by
  exact Int.tmod_lt_of_pos _ (by omega)

/-! ## The scan -/

/-- The indices that the loop goes through while no connection is available. -/
def visits (n : Nat) : Nat → Int → List Int
  | 0, _ => []
  | k + 1, curr => curr :: visits n k ((curr + 1).tmod n)

theorem visits_eq {n c : Nat} (hc : c < n) (k : Nat) :
    visits n k c = (List.range k).map fun i => (((c + i) % n : Nat) : Int) := by
  induction k generalizing c with
  | zero => rfl
  | succ k ih =>
    have hnext : ((c : Int) + 1).tmod n = ((c + 1) % n : Nat) := by
      rw [← Int.natCast_succ, ← Int.ofNat_tmod]
    rw [visits, hnext, ih (Nat.mod_lt _ (by omega)), List.range_succ_eq_map, List.map_cons,
      List.map_map]
    congr 1
    · rw [Nat.add_zero, Nat.mod_eq_of_lt hc]
    · refine List.map_congr_left fun i _ => ?_
      rw [Function.comp_apply, Nat.mod_add_mod, Nat.succ_eq_add_one, Nat.add_right_comm,
        Nat.add_assoc]

/-- **A round visits every index once.** -/
theorem visits_perm {n c : Nat} (hc : c < n) :
    (visits n n c).Perm ((List.range n).map Nat.cast) := by
  have hrotate : (List.range n).map (fun i => (c + i) % n) = (List.range n).rotate c := by
    refine List.ext_getElem (by simp) fun i h₁ h₂ => ?_
    rw [List.getElem_map, List.getElem_rotate, List.getElem_range, List.getElem_range,
      List.length_range, Nat.add_comm]
  have hmap : visits n n c = ((List.range n).rotate c).map Nat.cast := by
    rw [visits_eq hc, ← hrotate, List.map_map]
    rfl
  rw [hmap]
  exact (List.rotate_perm _ _).map _

theorem index_eq {ε α : Type} {xs : List α} {i : Int} (hi : 0 ≤ i) (hlt : i < xs.length) :
    (index xs i : Go ε α) = .ok (xs.get ⟨i.toNat, by omega⟩) := by
  unfold index
  have hget : xs[i.toNat]? = some (xs.get ⟨i.toNat, by omega⟩) := List.getElem?_eq_getElem _
  rw [if_neg (by omega), hget, deref_some]

theorem index_negative {ε α : Type} (xs : List α) {i : Int} (hi : i < 0) :
    (index xs i : Go ε α) = .error .panic := if_pos hi

def firstAvailable (conn : ClientConn) (slice : List String) (is : List Int) : Go PickError Nat :=
  match is.findSome? fun i => conn.available (slice.getD i.toNat "") with
  | some c => .ok c
  | none => .error (.err .noSubConnAvailable)

theorem scan_eq {conn : ClientConn} {part : Partition} (k : Nat) (curr : Int)
    (h : ∀ i ∈ visits part.replicaCount k curr, 0 ≤ i ∧ i < part.replicaSlice.length) :
    scan conn part k curr =
      firstAvailable conn part.replicaSlice (visits part.replicaCount k curr) := by
  induction k generalizing curr with
  | zero => rfl
  | succ k ih =>
    rw [visits, List.forall_mem_cons] at h
    obtain ⟨⟨hpos, hlt⟩, hrest⟩ := h
    have haddr : part.replicaSlice.getD curr.toNat "" =
        part.replicaSlice.get ⟨curr.toNat, by omega⟩ :=
      List.getD_eq_getElem _ _ (by omega)
    rw [scan, visits, index_eq hpos hlt, firstAvailable, List.findSome?_cons, haddr]
    dsimp only [bind, Except.bind]
    cases ha : conn.available (part.replicaSlice.get ⟨curr.toNat, by omega⟩) with
    | none =>
      exact ih _ hrest
    | some c => rfl

/-! ## Picking in turn -/

structure Picker.PicksOk (p : Picker) (conn : ClientConn) (info : PickInfo) (pid : Nat)
    (part : Partition) : Prop where
  inRange : 0 ≤ roundRobin (p.replicaRR pid + 1) part.replicaCount ∧
    roundRobin (p.replicaRR pid + 1) part.replicaCount < part.replicaCount
  visited : (visits part.replicaCount part.replicaCount
    (roundRobin (p.replicaRR pid + 1) part.replicaCount)).Perm
      ((List.range part.replicaCount).map Nat.cast)
  noPanic : NoPanic (p.pick conn info).2
  unavailable : (p.pick conn info).2 = .error (.err .noSubConnAvailable) ↔
    ∀ addr ∈ part.replicaSlice, conn.available addr = none

structure PublicPicker.PicksOk (p : PublicPicker) : Prop where
  inRange : 0 ≤ roundRobin (p.rr + 1) p.ready.length ∧
    roundRobin (p.rr + 1) p.ready.length < p.ready.length
  picked : ∃ c ∈ p.ready, p.pick.2 = .ok c

section InTurn

variable {p : Picker} {conn : ClientConn} {info : PickInfo} {pid : Nat} {part : Partition}

theorem pick_eq (hr : p.route conn info = .inr (pid, part)) :
    (p.pick conn info).2 = pickReplica conn part (p.replicaRR pid + 1) := by
  unfold Picker.pick
  rw [hr]

theorem route_pos (hr : p.route conn info = .inr (pid, part)) : 0 < part.replicaCount := by
  unfold Picker.route at hr
  split at hr
  · cases hr
  split at hr
  · cases hr
  split at hr
  · cases hr
  split at hr
  · cases hr
  next hcount =>
  split at hr
  · cases hr
  · cases hr
    omega

theorem picksOk_of_nonneg (hr : p.route conn info = .inr (pid, part))
    (h : 0 ≤ roundRobin (p.replicaRR pid + 1) part.replicaCount) :
    p.PicksOk conn info pid part := by
  have hlt := roundRobin_lt (route_pos hr) (p.replicaRR pid + 1)
  obtain ⟨c, hc⟩ := Int.eq_ofNat_of_zero_le h
  have hperm := visits_perm (show c < part.replicaCount by omega)
  have hmem : ∀ i, i ∈ visits part.replicaCount part.replicaCount c ↔
      0 ≤ i ∧ i < part.replicaSlice.length := by
    intro i
    rw [hperm.mem_iff, List.mem_map, ← part.count]
    constructor
    · rintro ⟨j, hj, rfl⟩
      have hj := List.mem_range.mp hj
      omega
    · rintro ⟨h₀, h₁⟩
      exact ⟨i.toNat, List.mem_range.mpr (by omega), by omega⟩
  have hscan : (p.pick conn info).2 = firstAvailable conn part.replicaSlice
      (visits part.replicaCount part.replicaCount c) := by
    rw [pick_eq hr, pickReplica, hc]
    exact scan_eq part.replicaCount c fun i hi => (hmem i).mp hi
  refine ⟨⟨h, hlt⟩, by rw [hc]; exact hperm, ?_, ?_⟩
  · unfold NoPanic
    rw [hscan, firstAvailable]
    split <;> simp
  · rw [hscan, firstAvailable]
    split
    · next found hfound =>
      obtain ⟨i, hi, ha⟩ := List.exists_of_findSome?_eq_some hfound
      obtain ⟨h₀, h₁⟩ := (hmem i).mp hi
      refine iff_of_false (by simp) fun hall => ?_
      rw [List.getD_eq_getElem _ _ (by omega), hall _ (List.getElem_mem _)] at ha
      cases ha
    · next hnone =>
      refine iff_of_true rfl fun addr haddr => ?_
      obtain ⟨i, hi, rfl⟩ := List.mem_iff_getElem.mp haddr
      have hi' := List.findSome?_eq_none_iff.mp hnone (i : Int) ((hmem i).mpr (by omega))
      rwa [Int.toNat_natCast, List.getD_eq_getElem _ _ hi] at hi'

end InTurn

theorem publicPicksOk_of_nonneg {p : PublicPicker} (hn : 0 < p.ready.length)
    (h : 0 ≤ roundRobin (p.rr + 1) p.ready.length) : p.PicksOk := by
  have hlt := roundRobin_lt hn (p.rr + 1)
  have hpick : p.pick.2 = index p.ready (roundRobin (p.rr + 1) p.ready.length) := by
    unfold PublicPicker.pick
    rw [if_neg (by omega)]
  rw [index_eq h hlt] at hpick
  exact ⟨⟨h, hlt⟩, _, List.get_mem _ _, hpick⟩

/-! ## Any number of picks -/

def Picker.picks (p : Picker) (calls : List (ClientConn × PickInfo)) : Picker :=
  calls.foldl (fun p call => (p.pick call.1 call.2).1) p

def Picker.takesTurn (p : Picker) (pid : Nat) (call : ClientConn × PickInfo) : Bool :=
  match p.route call.1 call.2 with
  | .inl _ => false
  | .inr x => x.1 == pid

/-- How many of the calls took the replicas of a partition in turn. -/
def Picker.turns (p : Picker) (pid : Nat) (calls : List (ClientConn × PickInfo)) : Nat :=
  calls.countP (p.takesTurn pid)

theorem pick_partitions (p : Picker) (conn : ClientConn) (info : PickInfo) :
    (p.pick conn info).1.partitions = p.partitions := by
  unfold Picker.pick
  split <;> rfl

theorem route_congr {p q : Picker} (h : q.partitions = p.partitions) (conn : ClientConn)
    (info : PickInfo) : q.route conn info = p.route conn info := by
  unfold Picker.route
  rw [h]

/-- **The counter of a partition counts its picks.** -/
theorem picks_counter (p : Picker) (pid : Nat) (calls : List (ClientConn × PickInfo)) :
    (p.picks calls).replicaRR pid = (· + 1)^[p.turns pid calls] (p.replicaRR pid) := by
  induction calls generalizing p with
  | nil => rfl
  | cons call calls ih =>
    have hpart := pick_partitions p call.1 call.2
    have hturns : (p.pick call.1 call.2).1.turns pid calls = p.turns pid calls := by
      unfold Picker.turns Picker.takesTurn
      simp only [route_congr hpart]
    have hrun : p.picks (call :: calls) = (p.pick call.1 call.2).1.picks calls := rfl
    have hcons : p.turns pid (call :: calls) =
        p.turns pid calls + if p.takesTurn pid call then 1 else 0 := List.countP_cons
    rw [hrun, ih, hturns, hcons]
    unfold Picker.pick Picker.takesTurn
    cases hr : p.route call.1 call.2 with
    | inl result => rfl
    | inr x =>
      by_cases hx : pid = x.1
      · subst hx
        simp
      · have hne : ¬x.1 = pid := fun h => hx h.symm
        simp [Function.update_of_ne hx, hne]

def PublicPicker.picks (p : PublicPicker) (n : Nat) : PublicPicker := (fun p => p.pick.1)^[n] p

theorem publicPicks_counter {ready : List Nat} (hn : 0 < ready.length) (rr : Int32) (n : Nat) :
    (PublicPicker.mk ready rr).picks n = ⟨ready, (· + 1)^[n] rr⟩ := by
  induction n generalizing rr with
  | zero => rfl
  | succ n ih =>
    have hpick : (PublicPicker.mk ready rr).pick.1 = ⟨ready, rr + 1⟩ := by
      unfold PublicPicker.pick
      rw [if_neg (by simpa using Nat.ne_of_gt hn)]
    unfold PublicPicker.picks at ih ⊢
    rw [Function.iterate_succ_apply, hpick, ih]
    rfl

/-- **Picking in turn.** With any number of picks made so far by a new picker, the index of
the next one is in range, the scan visits every replica once and reports that none is
available only if that is so, exactly if the counter is not negative or is divided by the
number of replicas. -/
theorem picks_in_turn_iff {n : Nat} (hn : 0 < n) (made : Nat) :
    ((∀ (p : Picker) (calls : List (ClientConn × PickInfo)) (conn : ClientConn) (info : PickInfo)
        (pid : Nat) (part : Partition), (∀ q, p.replicaRR q = 0) → p.turns pid calls = made →
        (p.picks calls).route conn info = .inr (pid, part) → part.replicaCount = n →
        (p.picks calls).PicksOk conn info pid part) ∧
      ∀ ready : List Nat, ready.length = n → ((PublicPicker.mk ready 0).picks made).PicksOk) ↔
      Indexable n (made + 1) := by
  have hnext : counterAfter (made + 1) = counterAfter made + 1 := Function.iterate_succ_apply' _ _ _
  rw [← roundRobin_nonneg_iff, hnext]
  constructor
  · rintro ⟨_, hpublic⟩
    have hlen : (List.replicate n 0).length = n := List.length_replicate
    have hok := (hpublic _ hlen).inRange.1
    rw [publicPicks_counter (by omega), hlen] at hok
    exact hok
  · intro h
    constructor
    · intro p calls conn info pid part hnew hmade hr hcount
      refine picksOk_of_nonneg hr ?_
      rw [picks_counter, hnew, hmade, hcount]
      exact h
    · intro ready hlen
      rw [publicPicks_counter (by omega)]
      refine publicPicksOk_of_nonneg (by simpa [hlen] using hn) ?_
      rw [hlen]
      exact h

theorem picks_in_turn_iff_three : Indexable 3 5 ∧
    ((PublicPicker.mk [10, 11, 12] 0).picks 4).PicksOk :=
  ⟨by decide, ((picks_in_turn_iff (by decide) 4).mpr (by decide)).2 [10, 11, 12] rfl⟩

def threeReplicas : Partition := ⟨"", 0, 0, "", ["a", "b", "c"], ∅, 3, rfl⟩

/-- Pick number 2^31 of three replicas, or of three ready connections. -/
theorem picks_in_turn_panic :
    pickReplica ⟨fun _ => some 1, fun _ => true⟩ threeReplicas (counterAfter (2 ^ 31)) =
      .error .panic ∧ ((PublicPicker.mk [10, 11, 12] 0).picks (2 ^ 31 - 1)).pick.2 = .error .panic ∧
    ¬((PublicPicker.mk [10, 11, 12] 0).picks (2 ^ 31 - 1)).PicksOk := by
  have hcounter : counterAfter (2 ^ 31 - 1) + 1 = counterAfter (2 ^ 31) := by
    rw [counterAfter_eq, counterAfter_eq]
    decide
  have hneg : roundRobin (counterAfter (2 ^ 31)) 3 < 0 := by
    rw [counterAfter_eq]
    decide
  have hrun : (PublicPicker.mk [10, 11, 12] 0).picks (2 ^ 31 - 1) =
      ⟨[10, 11, 12], counterAfter (2 ^ 31 - 1)⟩ := publicPicks_counter (by decide) 0 _
  have hpick : ∀ rr, (PublicPicker.mk [10, 11, 12] rr).pick.2 =
      index [10, 11, 12] (roundRobin (rr + 1) 3) := fun _ => rfl
  have hscan : ∀ counter, pickReplica ⟨fun _ => some 1, fun _ => true⟩ threeReplicas counter =
      scan ⟨fun _ => some 1, fun _ => true⟩ threeReplicas 3 (roundRobin counter 3) := fun _ => rfl
  have hpublic : ((PublicPicker.mk [10, 11, 12] 0).picks (2 ^ 31 - 1)).pick.2 =
      .error .panic := by
    rw [hrun, hpick, hcounter]
    exact index_negative _ hneg
  refine ⟨?_, hpublic, fun hok => ?_⟩
  · rw [hscan, scan, index_negative _ hneg]
    rfl
  · obtain ⟨c, _, hc⟩ := hok.picked
    rw [hpublic] at hc
    cases hc

end Scout.Client
