import Scout.Partitions.WellFormed
import Mathlib.Data.Finset.Prod

/-!
The last pass of the planner. The loop sorts the servers by their load, looks for a
partition that a server can take over from one with more replicas, and starts again
after each replica that it adds.

It ends, because each round takes a pair of a server and a partition without a replica,
also when there are no limits; and when it ends, no pair of servers has been missed by
the two scans with their early exits.
-/

namespace Scout.Partitions

open Lib Control

variable {config : Config} {ch : Choices} {s : State}

/-! ## The scans -/

/-- The inner scan goes through the servers with the fewest replicas first, so that
nothing is missed where it stops. -/
theorem findDest_none {tag : List Nat} {src : ServerState} {dests : List ServerState}
    (hsort : dests.Pairwise fun a b => a.totalCount ≤ b.totalCount)
    (h : findDest config ch tag s src dests = none) :
    ∀ d ∈ dests, 1 < src.totalCount - d.totalCount →
      ∀ pid ∈ src.serving, canAddReplica config s d.id pid = false := by
  induction dests with
  | nil => nofun
  | cons d dests ih =>
    obtain ⟨hd, hsort⟩ := List.pairwise_cons.mp hsort
    unfold findDest at h
    split at h
    · next hdiff =>
      intro d' hd' hgt
      rcases List.mem_cons.mp hd' with rfl | hd'
      · omega
      · have hle := hd d' hd'
        omega
    · dsimp only at h
      split at h
      · next horder =>
        have hnil : (src.serving.elems.filter fun pid => canAddReplica config s d.id pid) = [] := by
          have hperm := ch.perm (src.id :: d.id :: tag)
            (src.serving.elems.filter fun pid => canAddReplica config s d.id pid)
          rw [horder] at hperm
          exact hperm.symm.eq_nil
        intro d' hd' hgt pid hpid
        rcases List.mem_cons.mp hd' with rfl | hd'
        · rw [List.filter_eq_nil_iff] at hnil
          exact Bool.not_eq_true _ ▸ hnil pid hpid
        · exact ih hsort h d' hd' hgt pid hpid
      · cases h

/-- Nothing can be moved from the first server to the second. -/
def Settled (config : Config) (s : State) (src d : ServerState) : Prop :=
  1 < src.totalCount - d.totalCount →
    ∀ pid ∈ src.serving, canAddReplica config s d.id pid = false

theorem findMove_none {tag : List Nat} {servers : List ServerState}
    (hsort : servers.Pairwise fun a b => b.totalCount ≤ a.totalCount)
    (h : findMove config ch tag s servers = none) : servers.Pairwise (Settled config s) := by
  induction servers with
  | nil => exact .nil
  | cons src servers ih =>
    obtain ⟨_, hrest⟩ := List.pairwise_cons.mp hsort
    unfold findMove at h
    cases hd : findDest config ch tag s src servers.reverse with
    | some move =>
      rw [hd] at h
      cases h
    | none =>
      rw [hd] at h
      refine List.pairwise_cons.mpr ⟨fun d hmem => ?_, ih hrest h⟩
      exact findDest_none (List.pairwise_reverse.mpr hrest) hd d (List.mem_reverse.mpr hmem)

theorem byLoad_sorted (tag : List Nat) :
    (byLoad ch tag s).Pairwise fun a b => b.totalCount ≤ a.totalCount := by
  have htotal : Std.Total fun s1 s2 : ServerState => s2.totalCount ≤ s1.totalCount :=
    ⟨fun a b => Int.le_total b.totalCount a.totalCount⟩
  have htrans : IsTrans ServerState fun s1 s2 => s2.totalCount ≤ s1.totalCount :=
    ⟨fun _ _ _ hab hbc => Int.le_trans hbc hab⟩
  exact List.pairwise_insertionSort _ _

theorem settled_of_none {tag : List Nat}
    (h : findMove config ch tag s (byLoad ch tag s) = none) {a b : Nat} {x y : ServerState}
    (hx : s.serv.lookup a = some x) (hy : s.serv.lookup b = some y) : Settled config s x y := by
  have hmem : ∀ {sid z}, s.serv.lookup sid = some z → z ∈ byLoad ch tag s := by
    intro sid z hz
    have hkey : sid ∈ s.serv.keys := AList.mem_keys.mp (AList.lookup_isSome.mp (by rw [hz]; rfl))
    unfold byLoad
    rw [List.mem_insertionSort, List.mem_map]
    exact ⟨sid, (ch.perm _ _).mem_iff.mpr hkey, server_of_lookup hz⟩
  have hsorted : (byLoad ch tag s).Pairwise fun a b => b.totalCount ≤ a.totalCount :=
    byLoad_sorted tag
  have hnext := findMove_none hsorted h
  have hback : (byLoad ch tag s).Pairwise (flip (Settled config s)) := by
    refine hsorted.imp fun hle hgt => ?_
    omega
  exact hnext.forall_of_forall_of_flip (fun _ _ hgt => by omega) hback (hmem hx) (hmem hy)

/-! ## The measure -/

/-- The pairs of a server and a partition without a replica. -/
def freePairs (s : State) : Finset (Nat × Nat) :=
  (s.serv.keys.toFinset ×ˢ s.part.keys.toFinset).filter fun x => s.hasReplica x.1 x.2 = false

theorem mem_freePairs {a b : Nat} :
    (a, b) ∈ freePairs s ↔ s.writable a b = true ∧ s.hasReplica a b = false := by
  unfold freePairs State.writable
  rw [Finset.mem_filter, Finset.mem_product, Bool.and_eq_true, List.mem_toFinset,
    List.mem_toFinset, ← AList.mem_keys, ← AList.mem_keys, AList.lookup_isSome, AList.lookup_isSome]

theorem addJoining_hasReplica {s' : State} {sid pid : Nat} (h : s.addJoining sid pid = some s')
    (a b : Nat) : s'.hasReplica a b = (s.hasReplica a b || decide (a = sid ∧ b = pid)) := by
  unfold State.addJoining at h
  split at h
  · next hw =>
    cases h
    have hcounter : ∀ (t : State) (n : Int),
        State.hasReplica { t with joining := n } a b = t.hasReplica a b := fun _ _ => rfl
    rw [hcounter]
    unfold State.hasReplica
    rw [modify_partition hw]
    by_cases hb : b = pid
    · subst hb
      rw [if_pos rfl]
      simp only [KeySet.mem_insert, and_true]
      by_cases ha : a = sid
      · simp [ha]
      · simp only [ha, false_or, decide_false, Bool.or_false]
        rfl
    · rw [if_neg hb]
      simp only [hb, and_false, decide_false, Bool.or_false]
      rfl
  · cases h

theorem addJoining_freePairs {s' : State} {sid pid : Nat} (h : s.addJoining sid pid = some s') :
    freePairs s' = (freePairs s).erase (sid, pid) := by
  ext ⟨a, b⟩
  have hw : s'.writable a b = s.writable a b := by
    unfold State.addJoining at h
    split at h
    · next hw =>
      cases h
      exact ((modify_sameKeys hw).withJoining _).writable a b
    · cases h
  rw [Finset.mem_erase, mem_freePairs, mem_freePairs, hw, addJoining_hasReplica h,
    Bool.or_eq_false_iff, decide_eq_false_iff_not, Ne, Prod.mk.injEq]
  tauto

/-! ## The loop -/

def addAll (s : State) (added : List (Nat × Nat)) : Option State :=
  added.foldlM (fun s x => s.addJoining x.1 x.2) s

theorem rebalance_run {curr : State} {ρ₀ ρ : Roles} {fuel : Nat}
    (h : Planned curr ρ₀ s ρ) (hfuel : (freePairs s).card < fuel) :
    ∃ s' ρ' added, rebalance config ch fuel s = some s' ∧ Planned curr ρ₀ s' ρ' ∧
      addAll s added = some s' ∧ added.Nodup ∧ (∀ x ∈ added, x ∈ freePairs s) ∧
      ∀ a b x y, s'.serv.lookup a = some x → s'.serv.lookup b = some y → Settled config s' x y := by
  induction fuel generalizing s ρ with
  | zero => exact absurd hfuel (Nat.not_lt_zero _)
  | succ fuel ih =>
    unfold rebalance
    cases hm : findMove config ch [4, fuel] s (byLoad ch [4, fuel] s) with
    | none =>
      refine ⟨s, ρ, [], rfl, h, rfl, List.nodup_nil, by simp, fun a b x y hx hy => ?_⟩
      exact settled_of_none hm hx hy
    | some move =>
      obtain ⟨dest, pid⟩ := move
      obtain ⟨hcan, s₁, ρ₁, h₁, hp₁, _, _⟩ := findMove_add invariant_true h trivial hm
      -- the pair that is taken was free
      have hfree : (dest, pid) ∈ freePairs s := by
        rw [mem_freePairs]
        unfold canAddReplica at hcan
        simp only [Bool.and_eq_true, Bool.not_eq_true'] at hcan
        exact ⟨addJoining_writable h₁, hcan.2⟩
      have hless := addJoining_freePairs h₁
      have hcard : (freePairs s₁).card < fuel := by
        rw [hless, Finset.card_erase_of_mem hfree]
        have hpos := Finset.card_pos.mpr ⟨_, hfree⟩
        omega
      obtain ⟨s', ρ', added, hrun, hp', hadd, hnd, hin, hset⟩ := ih hp₁ hcard
      rw [hless] at hin
      refine ⟨s', ρ', (dest, pid) :: added, ?_, hp', ?_, ?_, ?_, hset⟩
      · dsimp only
        rw [h₁]
        exact hrun
      · unfold addAll at hadd ⊢
        rw [List.foldlM_cons, h₁]
        exact hadd
      · refine List.nodup_cons.mpr ⟨fun hmem => ?_, hnd⟩
        exact (Finset.mem_erase.mp (hin _ hmem)).1 rfl
      · intro x hx
        rcases List.mem_cons.mp hx with rfl | hx
        · exact hfree
        · exact (Finset.mem_erase.mp (hin x hx)).2

/-- **Rebalancing ends and is exhaustive.** With any limits, the loop returns after at most
one round for each pair of a server and a partition without a replica, and one more. It
adds at most one joining replica for each such pair; and at the end no server could take
over a partition from one that has at least two more replicas. -/
theorem rebalance_exhaustive (config : Config) (ch : Choices) {s : State} (h : WellFormed s)
    {fuel : Nat} (hfuel : (freePairs s).card < fuel) :
    ∃ s' added, rebalance config ch fuel s = some s' ∧ addAll s added = some s' ∧
      added.Nodup ∧ (∀ x ∈ added, x ∈ freePairs s) ∧
      ∀ src dest x y, s'.serv.lookup src = some x → s'.serv.lookup dest = some y →
        1 < x.totalCount - y.totalCount →
        ∀ pid ∈ x.serving, canAddReplica config s' dest pid = false := by
  have hstart : Planned s (rolesOf s) s (rolesOf s) := .start h.toMirrored.refines
  obtain ⟨s', ρ', added, hrun, hplan, hadd, hnd, hin, hset⟩ :=
    @rebalance_run config ch s s _ _ fuel hstart hfuel
  refine ⟨s', added, hrun, hadd, hnd, hin, fun src dest x y hx hy hgt pid hpid => ?_⟩
  have hid : y.id = dest := hplan.refines.servId dest y hy
  exact hid ▸ hset src dest x y hx hy hgt pid hpid

/-- Two servers and two partitions that the first one serves. -/
def oneSided : State :=
  let both : KeySet Nat := ⟨[0, 1], by decide⟩
  let one : KeySet Nat := ⟨[1], by decide⟩
  ⟨((∅ : AList fun _ : Nat => ServerState).insert 2 (Sets.new 2)).insert 1
      ⟨1, both, .empty, .empty⟩,
    ((∅ : AList fun _ : Nat => PartitionState).insert 1 ⟨1, one, .empty, .empty⟩).insert 0
      ⟨0, one, .empty, .empty⟩,
    ((∅ : AList fun _ : Nat × Nat => ReplicaState).insert (1, 0) ⟨0, "p0_r1", 5, true⟩).insert
      (1, 1) ⟨1, "p1_r1", 5, true⟩, 0⟩

theorem rebalance_exhaustive_oneSided :
    ∃ s' added, rebalance ⟨1, 100, 100, 100⟩ inOrder 3 oneSided = some s' ∧
      addAll oneSided added = some s' ∧ added.Nodup ∧ ∀ x ∈ added, x ∈ freePairs oneSided := by
  have hwf : WellFormed oneSided := wellFormed_of_checked (by decide)
  obtain ⟨s', added, hrun, hadd, hnd, hin, _⟩ :=
    rebalance_exhaustive ⟨1, 100, 100, 100⟩ inOrder hwf
      (show (freePairs oneSided).card < 3 by decide)
  exact ⟨s', added, hrun, hadd, hnd, hin⟩

end Scout.Partitions
