import Scout.Partitions.Passes

/-!
Well-formed states of the planner, in terms of the state alone: the sets of servers and
of partitions mirror each other, a server has at most one role in a partition, the
counter of joining replicas is exact, every role has an entry of the replica, and
partitions are numbered from 0.

Such a state refines a map of roles, which is read off the sets of the partitions.
-/

namespace Scout.Partitions

open Lib Control

def joiningPairs (s : State) : List (Nat × Nat) :=
  s.serv.keys.flatMap fun sid => (s.server sid).joining.elems.map fun pid => (sid, pid)

structure Mirrored (s : State) : Prop where
  servId : ∀ sid x, s.serv.lookup sid = some x → x.id = sid
  partId : ∀ pid y, s.part.lookup pid = some y → y.id = pid
  numbered : ∀ pid, (s.part.lookup pid).isSome = true ↔ pid < s.partitionCount
  joining : ∀ sid pid, pid ∈ (s.server sid).joining ↔ sid ∈ (s.partition pid).joining
  serving : ∀ sid pid, pid ∈ (s.server sid).serving ↔ sid ∈ (s.partition pid).serving
  leaving : ∀ sid pid, pid ∈ (s.server sid).leaving ↔ sid ∈ (s.partition pid).leaving
  joiningOnly : ∀ sid pid, sid ∈ (s.partition pid).joining →
    sid ∉ (s.partition pid).serving ∧ sid ∉ (s.partition pid).leaving
  servingOnly : ∀ sid pid, sid ∈ (s.partition pid).serving → sid ∉ (s.partition pid).leaving
  counted : s.joining = (joiningPairs s).length

def HasRole (s : State) (sid pid : Nat) : Prop :=
  sid ∈ (s.partition pid).joining ∨ sid ∈ (s.partition pid).serving ∨
    sid ∈ (s.partition pid).leaving
  deriving Decidable

structure WellFormed (s : State) : Prop extends Mirrored s where
  entry : ∀ sid pid, HasRole s sid pid → (s.getReplica sid pid).isSome = true

def rolesOf (s : State) : Roles := fun sid pid =>
  if sid ∈ (s.partition pid).joining then .joining
  else if sid ∈ (s.partition pid).serving then .serving
  else if sid ∈ (s.partition pid).leaving then .leaving
  else .absent

section Roles

variable {s : State} {sid pid : Nat}

theorem rolesOf_absent : rolesOf s sid pid ≠ .absent ↔ HasRole s sid pid := by
  unfold rolesOf HasRole
  split
  · simp [*]
  · split
    · simp [*]
    · split <;> simp [*]

theorem Mirrored.holds (h : Mirrored s) (pid : Nat) :
    (s.partition pid).Holds fun sid => rolesOf s sid pid := by
  constructor
  · intro sid
    unfold rolesOf
    by_cases hj : sid ∈ (s.partition pid).joining
    · simp [hj]
    simp only [hj, if_false, false_iff]
    split
    · nofun
    · split <;> nofun
  · intro sid
    unfold rolesOf
    by_cases hj : sid ∈ (s.partition pid).joining
    · simp [hj, (h.joiningOnly sid pid hj).1]
    by_cases hs : sid ∈ (s.partition pid).serving
    · simp [hj, hs]
    · simp only [hj, hs, if_false, false_iff]
      split <;> nofun
  · intro sid
    unfold rolesOf
    by_cases hj : sid ∈ (s.partition pid).joining
    · simp [hj, (h.joiningOnly sid pid hj).2]
    by_cases hs : sid ∈ (s.partition pid).serving
    · simp [hj, hs, h.servingOnly sid pid hs]
    · by_cases hl : sid ∈ (s.partition pid).leaving
      · simp [hj, hs, hl]
      · simp [hj, hs, hl]

theorem partition_isSome (h : HasRole s sid pid) : (s.part.lookup pid).isSome = true := by
  cases hl : s.part.lookup pid with
  | some y => rfl
  | none =>
    have hnew : s.partition pid = Sets.new 0 := by
      unfold State.partition
      rw [hl]
      rfl
    unfold HasRole at h
    rw [hnew] at h
    rcases h with h | h | h <;> cases h

theorem server_isSome (h : pid ∈ (s.server sid).joining ∨
    pid ∈ (s.server sid).serving ∨ pid ∈ (s.server sid).leaving) :
    (s.serv.lookup sid).isSome = true := by
  cases hl : s.serv.lookup sid with
  | some x => rfl
  | none =>
    have hnew : s.server sid = Sets.new 0 := by
      unfold State.server
      rw [hl]
      rfl
    rw [hnew] at h
    rcases h with h | h | h <;> cases h

theorem Mirrored.refines (h : Mirrored s) : Refines s (rolesOf s) := by
  constructor
  · exact h.servId
  · intro sid x hx
    have hs := server_of_lookup hx
    have hj := h.joining sid
    have hv := h.serving sid
    have hl := h.leaving sid
    rw [hs] at hj hv hl
    exact ⟨fun pid => (hj pid).trans ((h.holds pid).joining sid),
      fun pid => (hv pid).trans ((h.holds pid).serving sid),
      fun pid => (hl pid).trans ((h.holds pid).leaving sid)⟩
  · intro pid y hy
    have hp := h.holds pid
    rw [partition_of_lookup hy] at hp
    exact hp
  · intro sid pid hr
    rw [rolesOf_absent] at hr
    have hserver : (s.serv.lookup sid).isSome = true := by
      have hmem : pid ∈ (s.server sid).joining ∨ pid ∈ (s.server sid).serving ∨
          pid ∈ (s.server sid).leaving := by
        rw [h.joining, h.serving, h.leaving]
        exact hr
      exact server_isSome hmem
    unfold State.writable
    rw [hserver, partition_isSome hr]
    rfl

theorem WellFormed.complete (h : WellFormed s) : Complete s (rolesOf s) :=
  ⟨fun sid pid hr => h.entry sid pid (rolesOf_absent.mp hr), fun pid hp => (h.numbered pid).mpr hp⟩

theorem Refines.mirrored {ρ : Roles} (h : Refines s ρ)
    (hid : ∀ pid y, s.part.lookup pid = some y → y.id = pid)
    (hnum : ∀ pid, (s.part.lookup pid).isSome = true ↔ pid < s.partitionCount)
    (hcount : s.joining = (joiningPairs s).length) : Mirrored s := by
  constructor
  · exact h.servId
  · exact hid
  · exact hnum
  · intro sid pid
    rw [(h.server sid).joining, (h.partition pid).joining]
  · intro sid pid
    rw [(h.server sid).serving, (h.partition pid).serving]
  · intro sid pid
    rw [(h.server sid).leaving, (h.partition pid).leaving]
  · intro sid pid hj
    rw [(h.partition pid).joining] at hj
    rw [(h.partition pid).serving, (h.partition pid).leaving, hj]
    exact ⟨nofun, nofun⟩
  · intro sid pid hv
    rw [(h.partition pid).serving] at hv
    rw [(h.partition pid).leaving, hv]
    nofun
  · exact hcount

theorem Refines.hasRole {ρ : Roles} (h : Refines s ρ) :
    HasRole s sid pid ↔ ρ sid pid ≠ .absent := by
  unfold HasRole
  rw [(h.partition pid).joining, (h.partition pid).serving, (h.partition pid).leaving]
  cases ρ sid pid <;> simp

end Roles

def Checked (s : State) : Prop :=
  (∀ e ∈ s.serv.entries, e.2.id = e.1 ∧
    (∀ pid ∈ e.2.joining.elems, e.1 ∈ (s.partition pid).joining) ∧
    (∀ pid ∈ e.2.serving.elems, e.1 ∈ (s.partition pid).serving) ∧
    ∀ pid ∈ e.2.leaving.elems, e.1 ∈ (s.partition pid).leaving) ∧
  (∀ e ∈ s.part.entries, e.2.id = e.1 ∧
    (∀ sid ∈ e.2.joining.elems, e.1 ∈ (s.server sid).joining ∧ sid ∉ e.2.serving ∧
      sid ∉ e.2.leaving ∧ (s.getReplica sid e.1).isSome = true) ∧
    (∀ sid ∈ e.2.serving.elems, e.1 ∈ (s.server sid).serving ∧ sid ∉ e.2.leaving ∧
      (s.getReplica sid e.1).isSome = true) ∧
    ∀ sid ∈ e.2.leaving.elems, e.1 ∈ (s.server sid).leaving ∧
      (s.getReplica sid e.1).isSome = true) ∧
  s.part.keys.Perm (List.range s.partitionCount) ∧ s.joining = (joiningPairs s).length
  deriving Decidable

variable {s : State}

theorem server_entry {sid : Nat} (h : (s.serv.lookup sid).isSome = true) :
    (⟨sid, s.server sid⟩ : Sigma fun _ : Nat => ServerState) ∈ s.serv.entries := by
  obtain ⟨x, hx⟩ := Option.isSome_iff_exists.mp h
  rw [mem_entries_iff, server_of_lookup hx, hx]

theorem partition_entry {pid : Nat} (h : (s.part.lookup pid).isSome = true) :
    (⟨pid, s.partition pid⟩ : Sigma fun _ : Nat => PartitionState) ∈ s.part.entries := by
  obtain ⟨y, hy⟩ := Option.isSome_iff_exists.mp h
  rw [mem_entries_iff, partition_of_lookup hy, hy]

theorem wellFormed_of_checked (h : Checked s) : WellFormed s := by
  obtain ⟨hserv, hpart, hnum, hcount⟩ := h
  have hs : ∀ {sid}, (s.serv.lookup sid).isSome = true → _ := fun hl => hserv _ (server_entry hl)
  have hp : ∀ {pid}, (s.part.lookup pid).isSome = true → _ := fun hl => hpart _ (partition_entry hl)
  refine ⟨⟨?_, ?_, ?_, ?_, ?_, ?_, ?_, ?_, hcount⟩, ?_⟩
  · intro sid x hx
    exact (hserv ⟨sid, x⟩ ((mem_entries_iff _ _ _).mpr hx)).1
  · intro pid y hy
    exact (hpart ⟨pid, y⟩ ((mem_entries_iff _ _ _).mpr hy)).1
  · intro pid
    rw [AList.lookup_isSome, AList.mem_keys, hnum.mem_iff, List.mem_range]
  · intro sid pid
    constructor
    · intro hj
      exact (hs (server_isSome (.inl hj))).2.1 pid hj
    · intro hj
      exact ((hp (partition_isSome (.inl hj))).2.1 sid hj).1
  · intro sid pid
    constructor
    · intro hv
      exact (hs (server_isSome (.inr (.inl hv)))).2.2.1 pid hv
    · intro hv
      exact ((hp (partition_isSome (.inr (.inl hv)))).2.2.1 sid hv).1
  · intro sid pid
    constructor
    · intro hl
      exact (hs (server_isSome (.inr (.inr hl)))).2.2.2 pid hl
    · intro hl
      exact ((hp (partition_isSome (.inr (.inr hl)))).2.2.2 sid hl).1
  · intro sid pid hj
    have hall := (hp (partition_isSome (.inl hj))).2.1 sid hj
    exact ⟨hall.2.1, hall.2.2.1⟩
  · intro sid pid hv
    exact ((hp (partition_isSome (.inr (.inl hv)))).2.2.1 sid hv).2.1
  · intro sid pid hr
    have hall := hp (partition_isSome hr)
    rcases hr with hj | hv | hl
    · exact (hall.2.1 sid hj).2.2.2
    · exact (hall.2.2.1 sid hv).2.2
    · exact (hall.2.2.2 sid hl).2

/-! ## The counter of joining replicas -/

theorem joiningPairs_nodup (s : State) : (joiningPairs s).Nodup := by
  unfold joiningPairs
  rw [List.nodup_flatMap]
  constructor
  · intro sid _
    exact (s.server sid).joining.nodup.map fun a b hab => (Prod.mk.inj hab).2
  · refine s.serv.keys_nodup.imp fun hne => ?_
    intro x hx hx'
    obtain ⟨_, _, rfl⟩ := List.mem_map.mp hx
    obtain ⟨_, _, he⟩ := List.mem_map.mp hx'
    exact hne (Prod.mk.inj he).1.symm

theorem mem_joiningPairs {ρ : Roles} (h : Refines s ρ) {x : Nat × Nat} :
    x ∈ joiningPairs s ↔ ρ x.1 x.2 = .joining := by
  obtain ⟨sid, pid⟩ := x
  have hiff := (h.server sid).joining pid
  unfold joiningPairs
  rw [List.mem_flatMap]
  constructor
  · rintro ⟨a, _, ha⟩
    obtain ⟨b, hb, he⟩ := List.mem_map.mp ha
    obtain ⟨rfl, rfl⟩ := Prod.mk.inj he
    exact hiff.mp hb
  · intro hr
    have hmem := hiff.mpr hr
    have hkey := server_isSome (.inl hmem)
    exact ⟨sid, AList.mem_keys.mp (AList.lookup_isSome.mp hkey),
      List.mem_map.mpr ⟨pid, hmem, rfl⟩⟩

theorem joiningPairs_length {s' : State} {ρ : Roles} {sid pid : Nat} {r : Role} (h : Refines s ρ)
    (h' : Refines s' (ρ.set sid pid r)) :
    (joiningPairs s').length + (if ρ sid pid = .joining then 1 else 0) =
      (joiningPairs s).length + if r = .joining then 1 else 0 := by
  have hlen := length_update (k := (sid, pid)) (joiningPairs_nodup s) (joiningPairs_nodup s') ?_
  · simpa only [mem_joiningPairs h, mem_joiningPairs h', Roles.set_self] using hlen
  · intro x hne
    rw [mem_joiningPairs h, mem_joiningPairs h',
      Roles.set_of_ne ρ fun he => hne (Prod.ext he.1 he.2)]

end Scout.Partitions
