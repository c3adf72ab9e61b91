import Scout.Partitions.Planner

/-!
The planner seen as a map of roles. A server has at most one role in a partition;
the planner keeps it in four places, the sets of the server and of the partition.
`Refines` says that all of them agree with one map of roles, and each operation of
the planner's state changes that map at one point.
-/

namespace Scout.Partitions

open Lib Control

inductive Role where
  | absent
  | joining
  | serving
  | leaving
  deriving DecidableEq, Repr

/-- The role of a server (first argument) in a partition. -/
abbrev Roles := Nat → Nat → Role

def Roles.set (ρ : Roles) (sid pid : Nat) (r : Role) : Roles :=
  fun a b => if a = sid ∧ b = pid then r else ρ a b

@[simp] theorem Roles.set_self (ρ : Roles) (sid pid : Nat) (r : Role) :
    ρ.set sid pid r sid pid = r := if_pos ⟨rfl, rfl⟩

variable {sid pid : Nat}

theorem Roles.set_of_ne (ρ : Roles) {a b : Nat} {r : Role} (h : ¬(a = sid ∧ b = pid)) :
    ρ.set sid pid r a b = ρ a b := if_neg h

/-! ## Sets and roles -/

structure Sets.Holds (x : Sets) (r : Nat → Role) : Prop where
  joining : ∀ k, k ∈ x.joining ↔ r k = .joining
  serving : ∀ k, k ∈ x.serving ↔ r k = .serving
  leaving : ∀ k, k ∈ x.leaving ↔ r k = .leaving

theorem Sets.Holds.new (id : Nat) : (Sets.new id).Holds fun _ => .absent :=
  ⟨fun _ => ⟨nofun, nofun⟩, fun _ => ⟨nofun, nofun⟩, fun _ => ⟨nofun, nofun⟩⟩

theorem Sets.Holds.congr {x : Sets} {r r' : Nat → Role} (h : x.Holds r) (he : ∀ k, r' k = r k) :
    x.Holds r' :=
  ⟨fun k => by rw [he]; exact h.joining k, fun k => by rw [he]; exact h.serving k,
    fun k => by rw [he]; exact h.leaving k⟩

/-- An operation on the sets that moves a key from one role to another. -/
def MovesRole (f : Nat → Sets → Sets) (r₁ r₂ : Role) : Prop :=
  (∀ k x, (f k x).id = x.id) ∧
  ∀ k x r, x.Holds r → r k = r₁ → (f k x).Holds fun j => if j = k then r₂ else r j

section MovesRole

variable {s : KeySet Nat} {r : Nat → Role} {q r₁ r₂ : Role} {k : Nat}

theorem keeps_role (h : ∀ j, j ∈ s ↔ r j = q) (hk : r k = r₁) (h₁ : r₁ ≠ q) (h₂ : r₂ ≠ q)
    (j : Nat) : j ∈ s ↔ (if j = k then r₂ else r j) = q := by
  rw [h]
  by_cases hj : j = k
  · simp [hj, hk, h₁, h₂]
  · simp [hj]

theorem gets_role (h : ∀ j, j ∈ s ↔ r j = q) (j : Nat) :
    j ∈ s.insert k ↔ (if j = k then q else r j) = q := by
  rw [KeySet.mem_insert, h]
  by_cases hj : j = k
  · simp [hj]
  · simp [hj]

theorem leaves_role (h : ∀ j, j ∈ s ↔ r j = q) (h₂ : r₂ ≠ q) (j : Nat) :
    j ∈ s.erase k ↔ (if j = k then r₂ else r j) = q := by
  rw [KeySet.mem_erase, h]
  by_cases hj : j = k
  · simp [hj, h₂]
  · simp [hj]

theorem movesRole_addServing :
    MovesRole (fun k x => { x with serving := x.serving.insert k }) .absent .serving := by
  refine ⟨fun _ _ => rfl, fun k x r h hk => ⟨?_, ?_, ?_⟩⟩
  · exact keeps_role h.joining hk nofun nofun
  · exact gets_role h.serving
  · exact keeps_role h.leaving hk nofun nofun

theorem movesRole_addJoining :
    MovesRole (fun k x => { x with joining := x.joining.insert k }) .absent .joining := by
  refine ⟨fun _ _ => rfl, fun k x r h hk => ⟨?_, ?_, ?_⟩⟩
  · exact gets_role h.joining
  · exact keeps_role h.serving hk nofun nofun
  · exact keeps_role h.leaving hk nofun nofun

theorem movesRole_addLeaving :
    MovesRole (fun k x => { x with leaving := x.leaving.insert k }) .absent .leaving := by
  refine ⟨fun _ _ => rfl, fun k x r h hk => ⟨?_, ?_, ?_⟩⟩
  · exact keeps_role h.joining hk nofun nofun
  · exact keeps_role h.serving hk nofun nofun
  · exact gets_role h.leaving

theorem movesRole_promote :
    MovesRole (fun k x => { x with serving := x.serving.insert k, joining := x.joining.erase k })
      .joining .serving := by
  refine ⟨fun _ _ => rfl, fun k x r h hk => ⟨?_, ?_, ?_⟩⟩
  · exact leaves_role h.joining nofun
  · exact gets_role h.serving
  · exact keeps_role h.leaving hk nofun nofun

theorem movesRole_demote :
    MovesRole (fun k x => { x with leaving := x.leaving.insert k, serving := x.serving.erase k })
      .serving .leaving := by
  refine ⟨fun _ _ => rfl, fun k x r h hk => ⟨?_, ?_, ?_⟩⟩
  · exact keeps_role h.joining hk nofun nofun
  · exact leaves_role h.serving nofun
  · exact gets_role h.leaving

theorem movesRole_drop :
    MovesRole (fun k x => { x with leaving := x.leaving.erase k }) .leaving .absent := by
  refine ⟨fun _ _ => rfl, fun k x r h hk => ⟨?_, ?_, ?_⟩⟩
  · exact keeps_role h.joining hk nofun nofun
  · exact keeps_role h.serving hk nofun nofun
  · exact leaves_role h.leaving nofun

end MovesRole

/-! ## The planner's state refines a map of roles -/

structure Refines (s : State) (ρ : Roles) : Prop where
  servId : ∀ sid x, s.serv.lookup sid = some x → x.id = sid
  serv : ∀ sid x, s.serv.lookup sid = some x → x.Holds (ρ sid)
  part : ∀ pid y, s.part.lookup pid = some y → y.Holds fun sid => ρ sid pid
  known : ∀ sid pid, ρ sid pid ≠ .absent → s.writable sid pid = true

structure SameKeys (s s' : State) : Prop where
  serv : ∀ sid, (s'.serv.lookup sid).isSome = (s.serv.lookup sid).isSome
  part : ∀ pid, (s'.part.lookup pid).isSome = (s.part.lookup pid).isSome
  replica : s'.replica = s.replica

theorem SameKeys.refl (s : State) : SameKeys s s := ⟨fun _ => rfl, fun _ => rfl, rfl⟩

variable {s s' : State}

theorem SameKeys.trans {s'' : State} (h : SameKeys s s') (h' : SameKeys s' s'') : SameKeys s s'' :=
  ⟨fun sid => (h'.serv sid).trans (h.serv sid), fun pid => (h'.part pid).trans (h.part pid),
    h'.replica.trans h.replica⟩

theorem SameKeys.writable (h : SameKeys s s') (sid pid : Nat) :
    s'.writable sid pid = s.writable sid pid := by
  unfold State.writable
  rw [h.serv, h.part]

theorem SameKeys.getReplica (h : SameKeys s s') (sid pid : Nat) :
    s'.getReplica sid pid = s.getReplica sid pid := by
  unfold State.getReplica
  rw [h.replica]

section Modify

variable {s : State} {sid pid : Nat} {f : Nat → Sets → Sets}

theorem modify_serv (hw : s.writable sid pid = true) (a : Nat) :
    (s.modify sid pid f).serv.lookup a =
      if a = sid then (s.serv.lookup sid).map (f pid) else s.serv.lookup a := by
  unfold State.writable at hw
  rw [Bool.and_eq_true] at hw
  obtain ⟨x, hx⟩ := Option.isSome_iff_exists.mp hw.1
  unfold State.modify
  rw [hx]
  exact lookup_insert_if _ _ _ _

theorem modify_part (hw : s.writable sid pid = true) (b : Nat) :
    (s.modify sid pid f).part.lookup b =
      if b = pid then (s.part.lookup pid).map (f sid) else s.part.lookup b := by
  unfold State.writable at hw
  rw [Bool.and_eq_true] at hw
  obtain ⟨y, hy⟩ := Option.isSome_iff_exists.mp hw.2
  unfold State.modify
  rw [hy]
  exact lookup_insert_if _ _ _ _

theorem modify_sameKeys (hw : s.writable sid pid = true) : SameKeys s (s.modify sid pid f) := by
  refine ⟨fun a => ?_, fun b => ?_, rfl⟩
  · rw [modify_serv hw]
    by_cases ha : a = sid
    · rw [if_pos ha, Option.isSome_map, ha]
    · rw [if_neg ha]
  · rw [modify_part hw]
    by_cases hb : b = pid
    · rw [if_pos hb, Option.isSome_map, hb]
    · rw [if_neg hb]

theorem Refines.modify {ρ : Roles} {r₁ r₂ : Role} (h : Refines s ρ)
    (hw : s.writable sid pid = true) (hf : MovesRole f r₁ r₂) (hr : ρ sid pid = r₁) :
    Refines (s.modify sid pid f) (ρ.set sid pid r₂) := by
  refine ⟨fun a x hx => ?_, fun a x hx => ?_, fun b y hy => ?_, fun a b hab => ?_⟩
  · rw [modify_serv hw] at hx
    split at hx
    · next ha =>
      obtain ⟨x₀, h₀, rfl⟩ := Option.map_eq_some_iff.mp hx
      rw [hf.1, h.servId sid x₀ h₀, ha]
    · exact h.servId a x hx
  · rw [modify_serv hw] at hx
    split at hx
    · next ha =>
      obtain ⟨x₀, h₀, rfl⟩ := Option.map_eq_some_iff.mp hx
      subst ha
      refine (hf.2 pid x₀ (ρ a) (h.serv a x₀ h₀) hr).congr fun k => ?_
      unfold Roles.set
      simp only [true_and]
    · next ha =>
      refine (h.serv a x hx).congr fun k => ?_
      exact Roles.set_of_ne ρ fun hc => ha hc.1
  · rw [modify_part hw] at hy
    split at hy
    · next hb =>
      obtain ⟨y₀, h₀, rfl⟩ := Option.map_eq_some_iff.mp hy
      subst hb
      refine (hf.2 sid y₀ (fun a => ρ a b) (h.part b y₀ h₀) hr).congr fun k => ?_
      unfold Roles.set
      simp only [and_true]
    · next hb =>
      refine (h.part b y hy).congr fun k => ?_
      exact Roles.set_of_ne ρ fun hc => hb hc.2
  · rw [(modify_sameKeys hw).writable]
    by_cases hc : a = sid ∧ b = pid
    · rw [hc.1, hc.2]
      exact hw
    · rw [Roles.set_of_ne ρ hc] at hab
      exact h.known a b hab

end Modify

variable {ρ : Roles}

theorem Refines.withJoining (h : Refines s ρ) (n : Int) :
    Refines { s with joining := n } ρ := ⟨h.servId, h.serv, h.part, h.known⟩

theorem SameKeys.withJoining (h : SameKeys s s') (n : Int) :
    SameKeys s { s' with joining := n } := ⟨h.serv, h.part, h.replica⟩

theorem partition_of_lookup {y : PartitionState} (h : s.part.lookup pid = some y) :
    s.partition pid = y := by
  unfold State.partition
  rw [h]
  rfl

theorem server_of_lookup {x : ServerState} (h : s.serv.lookup sid = some x) : s.server sid = x := by
  unfold State.server
  rw [h]
  rfl

theorem modify_partition {f : Nat → Sets → Sets} (hw : s.writable sid pid = true) (b : Nat) :
    (s.modify sid pid f).partition b =
      if b = pid then f sid (s.partition pid) else s.partition b := by
  unfold State.writable at hw
  rw [Bool.and_eq_true] at hw
  obtain ⟨y, hy⟩ := Option.isSome_iff_exists.mp hw.2
  unfold State.partition
  rw [modify_part (by unfold State.writable; rw [hw.1, hw.2]; rfl), hy]
  by_cases hb : b = pid
  · rw [if_pos hb, if_pos hb]
    rfl
  · rw [if_neg hb, if_neg hb]

theorem modify_server {f : Nat → Sets → Sets} (hw : s.writable sid pid = true) (a : Nat) :
    (s.modify sid pid f).server a = if a = sid then f pid (s.server sid) else s.server a := by
  unfold State.writable at hw
  rw [Bool.and_eq_true] at hw
  obtain ⟨x, hx⟩ := Option.isSome_iff_exists.mp hw.1
  unfold State.server
  rw [modify_serv (by unfold State.writable; rw [hw.1, hw.2]; rfl), hx]
  by_cases ha : a = sid
  · rw [if_pos ha, if_pos ha]
    rfl
  · rw [if_neg ha, if_neg ha]

theorem addJoining_writable (h : s.addJoining sid pid = some s') : s.writable sid pid = true := by
  unfold State.addJoining at h
  split at h
  · assumption
  · cases h

theorem Refines.absent_of_serv (h : Refines s ρ) (hn : s.serv.lookup sid = none) (pid : Nat) :
    ρ sid pid = .absent := by
  by_contra hc
  have hw := h.known sid pid hc
  unfold State.writable at hw
  rw [hn] at hw
  cases hw

theorem Refines.absent_of_part (h : Refines s ρ) (hn : s.part.lookup pid = none) (sid : Nat) :
    ρ sid pid = .absent := by
  by_contra hc
  have hw := h.known sid pid hc
  unfold State.writable at hw
  rw [hn, Bool.and_eq_true] at hw
  cases hw.2

theorem Refines.partition (h : Refines s ρ) (pid : Nat) :
    (s.partition pid).Holds fun sid => ρ sid pid := by
  cases hy : s.part.lookup pid with
  | some y =>
    rw [partition_of_lookup hy]
    exact h.part pid y hy
  | none =>
    have hnew : s.partition pid = Sets.new 0 := by
      unfold State.partition
      rw [hy]
      rfl
    rw [hnew]
    exact (Sets.Holds.new 0).congr (h.absent_of_part hy)

theorem Refines.server (h : Refines s ρ) (sid : Nat) : (s.server sid).Holds (ρ sid) := by
  cases hx : s.serv.lookup sid with
  | some x =>
    rw [server_of_lookup hx]
    exact h.serv sid x hx
  | none =>
    have hnew : s.server sid = Sets.new 0 := by
      unfold State.server
      rw [hx]
      rfl
    rw [hnew]
    exact (Sets.Holds.new 0).congr (h.absent_of_serv hx)

end Scout.Partitions
