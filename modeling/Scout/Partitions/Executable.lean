import Scout.Partitions.Plan

/-!
When the plan can be carried out: whether the state machine accepts the command of a
plan, and that the planner then sees the state that it planned.
-/

namespace Scout.Partitions

open Lib Control

/-- The plan lets no replica leave that is the only one of its partition to serve, and
adds none to a partition with a nil map. -/
structure Executable (p : Control.Partitions) (next : State) : Prop where
  last : ∀ q part, p.items.get q = some part → part.servingReplicaCount = 1 →
    ∀ name r, part.replicas.get name = some r → r.state.isServing = true →
      r.serverId ∉ (next.partition q).leaving
  made : ∀ q part, p.items.get q = some part → part.replicas.isNil = true →
    ∀ sid, sid ∉ (next.partition q).joining

instance (p : Control.Partitions) (next : State) : Decidable (Executable p next) :=
  decidable_of_iff ((∀ e ∈ p.items.toList, e.2.servingReplicaCount = 1 →
      ∀ x ∈ e.2.replicas.toList, x.2.state.isServing = true →
        x.2.serverId ∉ (next.partition e.1).leaving) ∧
      ∀ e ∈ p.items.toList, e.2.replicas.isNil = true →
        ∀ sid ∈ (next.partition e.1).joining.elems, False) <| by
    constructor
    · rintro ⟨hlast, hmade⟩
      exact ⟨GoMap.forall_get.mpr fun e he hone => GoMap.forall_get.mpr (hlast e he hone),
        GoMap.forall_get.mpr hmade⟩
    · rintro ⟨hlast, hmade⟩
      exact ⟨fun e he hone => GoMap.forall_get.mp (GoMap.forall_get.mp hlast e he hone),
        GoMap.forall_get.mp hmade⟩

/-! ## Reading the view -/

section View

variable {f : Fsm} {p : Control.Partitions} {curr next : State} {ρ₀ ρ : Roles}

theorem View.partitionCount (v : View f p curr ρ₀) (hok : ItemsOk f.partitionCount p.items) :
    curr.partitionCount = f.partitionCount := by
  have hmem : ∀ q, q ∈ curr.part.keys ↔ q ∈ List.range f.partitionCount := by
    intro q
    rw [List.mem_range, ← hok.present, ← v.partition, AList.lookup_isSome]
    rfl
  have hperm := (List.perm_ext_iff_of_nodup curr.part.keys_nodup List.nodup_range).mpr hmem
  have hlen := hperm.length_eq
  rw [List.length_range, AList.keys, List.keys, List.length_map] at hlen
  exact hlen

theorem View.complete (v : View f p curr ρ₀) (hok : ItemsOk f.partitionCount p.items) :
    Complete curr ρ₀ := by
  refine ⟨fun sid pid hr => ?_, fun pid hpid => ?_⟩
  · obtain ⟨part, name, r, hg, hget, rfl⟩ := v.only (.inl hr)
    rw [v.entry hg hget]
    rfl
  · rw [v.partition, hok.present, ← v.partitionCount hok]
    exact hpid

variable {pid : Nat}

theorem View.nameOf (v : View f p curr ρ₀) {part : Partition} {name : String} {r : Replica}
    (hg : p.items.get pid = some part) (hr : part.replicas.get name = some r) :
    nameOf curr pid r.serverId = name := by
  unfold Partitions.nameOf
  rw [v.entry hg hr]
  rfl

theorem View.replica (v : View f p curr ρ₀) {sid : Nat} (hr : ρ₀ sid pid ≠ .absent) :
    ∃ part r, p.items.get pid = some part ∧
      part.replicas.get (Partitions.nameOf curr pid sid) = some r ∧ r.serverId = sid ∧
      roleOf r.state = ρ₀ sid pid := by
  obtain ⟨part, name, r, hg, hget, rfl⟩ := v.only (.inl hr)
  refine ⟨part, r, hg, ?_, rfl, (v.role hg hget).symm⟩
  rw [v.nameOf hg hget]
  exact hget

end View

theorem Allowed.leaves {e : Option ReplicaState} {r : Role} (h : Allowed e .leaving r)
    (hr : r ≠ .leaving) : ∃ x, e = some x ∧ x.ready = true := by
  cases h with
  | same => exact absurd rfl hr
  | remove x hx => exact ⟨x, rfl, hx⟩

/-! ## Acceptance -/

section Plan

variable {f : Fsm} {p : Control.Partitions} {curr next : State} {ρ₀ ρ : Roles}
  {version : Nat} {pids : List Nat} {cmd : UpdateAssignments} {sid : Nat}

theorem Planned.known (h : Planned curr ρ₀ next ρ) (v : View f p curr ρ₀) {pid : Nat}
    (hr : ρ sid pid ≠ .absent) : DataServer f sid ∧ (p.items.get pid).isSome = true := by
  have hw := h.refines.known sid pid hr
  rw [h.keys.writable] at hw
  unfold State.writable at hw
  rw [Bool.and_eq_true, v.server, v.partition] at hw
  exact hw

theorem Executable.added (hex : Executable p next) (h : Planned curr ρ₀ next ρ)
    (hi : Issued curr ρ₀ ρ version pids cmd) :
    ∀ x ∈ cmd.add, nilAt p.items x.partitionId = false := by
  intro x hx
  unfold nilAt
  cases hg : p.items.get x.partitionId with
  | none => rfl
  | some part =>
    rw [Option.any_some, ← Bool.not_eq_true]
    intro hnil
    exact hex.made _ part hg hnil x.serverId
      (((h.refines.partition _).joining _).mpr ((hi.add x).mp hx).2.1)

variable {q : Nat}

end Plan

/-! ## The main result -/

def withReplicas (n : Int) : Config := ⟨n, 1, 1, 1⟩

end Scout.Partitions
