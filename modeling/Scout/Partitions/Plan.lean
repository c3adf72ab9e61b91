import Scout.Partitions.View
import Scout.Control.Execution

/-!
From a plan to the command that carries it out. `Issued` says which items the
command has, in terms of the roles before and after; the state machine accepts
them, and what it makes of them is the plan.
-/

namespace Scout.Partitions

open Lib Control

/-! ## The command -/

def nameOf (curr : State) (pid sid : Nat) : String :=
  ((curr.getReplica sid pid).map ReplicaState.name).getD ""

def Gets (ρ₀ ρ : Roles) (pid : Nat) (r : Role) (sid : Nat) : Prop :=
  ρ sid pid = r ∧ ρ₀ sid pid ≠ r

structure Issued (curr : State) (ρ₀ ρ : Roles) (version : Nat) (pids : List Nat)
    (cmd : UpdateAssignments) : Prop where
  ifMatch : cmd.ifMatch = version
  add : ∀ x, x ∈ cmd.add ↔ x.partitionId ∈ pids ∧
    Gets ρ₀ ρ x.partitionId .joining x.serverId
  update : ∀ x, x ∈ cmd.update ↔ x.partitionId ∈ pids ∧
    ∃ sid, x.replica = nameOf curr x.partitionId sid ∧
      (x.state = .voter ∧ Gets ρ₀ ρ x.partitionId .serving sid ∨
        x.state = .leaving ∧ Gets ρ₀ ρ x.partitionId .leaving sid)
  remove : ∀ x, x ∈ cmd.remove ↔ x.partitionId ∈ pids ∧
    ∃ sid, x.replica = nameOf curr x.partitionId sid ∧ Gets ρ ρ₀ x.partitionId .leaving sid
  nodup : (cmd.add.map Add.pair).Nodup

section Command

variable {config : Config} {ch : Choices} {curr next : State} {ρ₀ ρ : Roles}

theorem replicaNames_eq {pid : Nat} {sids : List Nat} (hk : SameKeys curr next)
    (h : ∀ sid ∈ sids, (curr.getReplica sid pid).isSome = true) :
    replicaNames next pid sids = some (sids.map (nameOf curr pid)) := by
  unfold replicaNames
  induction sids with
  | nil => rfl
  | cons sid sids ih =>
    obtain ⟨e, he⟩ := Option.isSome_iff_exists.mp (h sid (by simp))
    have hname : nameOf curr pid sid = e.name := by
      unfold nameOf
      rw [he]
      rfl
    rw [List.mapM_cons, ih fun a ha => h a (by simp [ha]), hk.getReplica, he, List.map_cons, hname]
    rfl

theorem mem_gets (ch : Choices) (tag : List Nat) {pid sid : Nat} {r : Role} {new old : KeySet Nat}
    (hnew : ∀ k, k ∈ new ↔ ρ k pid = r) (hold : ∀ k, k ∈ old ↔ ρ₀ k pid = r) :
    sid ∈ (ch.order tag new.elems).filter (· ∉ old) ↔ Gets ρ₀ ρ pid r sid := by
  rw [List.mem_filter, (ch.perm _ _).mem_iff, decide_eq_true_eq, hold]
  exact and_congr_left fun _ => hnew sid

theorem Planned.entry {s : State} {sid pid : Nat} (h : Planned curr ρ₀ s ρ)
    (hc : Complete curr ρ₀) (hr : ρ sid pid = .serving ∨ ρ sid pid = .leaving) :
    (curr.getReplica sid pid).isSome = true :=
  hc.entry sid pid ((h.allowed sid pid).known hr)

/-- The command with items for one more partition, for servers that get a role. -/
def withItems (curr : State) (cmd : UpdateAssignments) (pid : Nat)
    (joining serving leaving removed : List Nat) : UpdateAssignments :=
  { cmd with
    add := cmd.add ++ joining.map fun sid => ⟨pid, sid⟩
    update := cmd.update ++ (serving.map (nameOf curr pid)).map (fun name => ⟨pid, name, .voter⟩)
      ++ (leaving.map (nameOf curr pid)).map fun name => ⟨pid, name, .leaving⟩
    remove := cmd.remove ++ (removed.map (nameOf curr pid)).map fun name => ⟨pid, name⟩ }

theorem Issued.withItems {version pid : Nat} {pids joining serving leaving removed : List Nat}
    {cmd : UpdateAssignments} (h : Issued curr ρ₀ ρ version pids cmd) (hn : pid ∉ pids)
    (hnd : joining.Nodup) (hj : ∀ sid, sid ∈ joining ↔ Gets ρ₀ ρ pid .joining sid)
    (hs : ∀ sid, sid ∈ serving ↔ Gets ρ₀ ρ pid .serving sid)
    (hl : ∀ sid, sid ∈ leaving ↔ Gets ρ₀ ρ pid .leaving sid)
    (hr : ∀ sid, sid ∈ removed ↔ Gets ρ ρ₀ pid .leaving sid) :
    Issued curr ρ₀ ρ version (pids ++ [pid])
      (Partitions.withItems curr cmd pid joining serving leaving removed) := by
  refine ⟨h.ifMatch, fun x => ?_, fun x => ?_, fun x => ?_, ?_⟩
  · show x ∈ cmd.add ++ _ ↔ _
    rw [List.mem_append, h.add, List.mem_map, List.mem_append, List.mem_singleton, or_and_right]
    refine or_congr_right ⟨?_, ?_⟩
    · rintro ⟨sid, hm, rfl⟩
      exact ⟨rfl, (hj sid).mp hm⟩
    · rintro ⟨rfl, hg⟩
      exact ⟨x.serverId, (hj _).mpr hg, rfl⟩
  · show x ∈ cmd.update ++ _ ++ _ ↔ _
    rw [List.mem_append, List.mem_append, h.update, List.map_map, List.map_map, List.mem_map,
      List.mem_map, List.mem_append, List.mem_singleton, or_and_right, or_assoc]
    refine or_congr_right ⟨?_, ?_⟩
    · rintro (⟨sid, hm, rfl⟩ | ⟨sid, hm, rfl⟩)
      · exact ⟨rfl, sid, rfl, .inl ⟨rfl, (hs sid).mp hm⟩⟩
      · exact ⟨rfl, sid, rfl, .inr ⟨rfl, (hl sid).mp hm⟩⟩
    · obtain ⟨q, replica, state⟩ := x
      dsimp only
      rintro ⟨rfl, sid, rfl, ⟨rfl, hg⟩ | ⟨rfl, hg⟩⟩
      · exact .inl ⟨sid, (hs sid).mpr hg, rfl⟩
      · exact .inr ⟨sid, (hl sid).mpr hg, rfl⟩
  · show x ∈ cmd.remove ++ _ ↔ _
    rw [List.mem_append, h.remove, List.map_map, List.mem_map, List.mem_append,
      List.mem_singleton, or_and_right]
    refine or_congr_right ⟨?_, ?_⟩
    · rintro ⟨sid, hm, rfl⟩
      exact ⟨rfl, sid, rfl, (hr sid).mp hm⟩
    · obtain ⟨q, replica⟩ := x
      dsimp only
      rintro ⟨rfl, sid, rfl, hg⟩
      exact ⟨sid, (hr sid).mpr hg, rfl⟩
  · show ((cmd.add ++ _).map Add.pair).Nodup
    rw [List.map_append, List.map_map, List.nodup_append']
    refine ⟨h.nodup, hnd.map fun a b he => congrArg Prod.snd he, ?_⟩
    rw [List.disjoint_left]
    intro e he he'
    obtain ⟨x, hx, rfl⟩ := List.mem_map.mp he
    obtain ⟨sid, _, hq⟩ := List.mem_map.mp he'
    have hpid : pid = x.partitionId := congrArg Prod.fst hq
    exact hn (hpid ▸ ((h.add x).mp hx).1)

theorem planPartition_issued {version pid : Nat} {pids : List Nat} {cmd : UpdateAssignments}
    (hc : Complete curr ρ₀) (h₀ : Refines curr ρ₀) (h : Planned curr ρ₀ next ρ)
    (hn : pid ∉ pids) (hi : Issued curr ρ₀ ρ version pids cmd) :
    ∃ cmd', planPartition ch curr next cmd pid = some cmd' ∧
      Issued curr ρ₀ ρ version (pids ++ [pid]) cmd' := by
  have hnext := h.refines.partition pid
  have hcurr := h₀.partition pid
  have hnd := ((ch.perm [5, pid] _).nodup_iff.mpr (next.partition pid).joining.nodup).filter
    (· ∉ (curr.partition pid).joining)
  refine ⟨_, ?_, hi.withItems hn hnd (fun sid => mem_gets ch [5, pid] hnext.joining hcurr.joining)
    (fun sid => mem_gets ch [6, pid] hnext.serving hcurr.serving)
    (fun sid => mem_gets ch [7, pid] hnext.leaving hcurr.leaving)
    fun sid => mem_gets ch [8, pid] hcurr.leaving hnext.leaving⟩
  unfold planPartition
  dsimp only
  rw [replicaNames_eq h.keys fun sid hm =>
      h.entry hc (.inl ((mem_gets ch [6, pid] hnext.serving hcurr.serving).mp hm).1),
    replicaNames_eq h.keys fun sid hm =>
      h.entry hc (.inr ((mem_gets ch [7, pid] hnext.leaving hcurr.leaving).mp hm).1),
    replicaNames_eq h.keys fun sid hm => hc.entry sid pid
      (by rw [((mem_gets ch [8, pid] hcurr.leaving hnext.leaving).mp hm).1]; nofun)]
  rfl

theorem makeUpdateAssignments_issued (ch : Choices) (version : Nat) (hc : Complete curr ρ₀)
    (h₀ : Refines curr ρ₀) (h : Planned curr ρ₀ next ρ) :
    ∃ cmd pids, makeUpdateAssignments ch version curr next = some cmd ∧
      Issued curr ρ₀ ρ version pids cmd ∧
      ∀ pid, pid ∈ pids ↔ (curr.part.lookup pid).isSome = true := by
  have hkey : ∀ pid, pid ∈ ch.order [9] next.part.keys ↔
      (curr.part.lookup pid).isSome = true := by
    intro pid
    rw [(ch.perm _ _).mem_iff, ← h.keys.part, AList.lookup_isSome]
    rfl
  have hnd : (ch.order [9] next.part.keys).Nodup :=
    (ch.perm _ _).nodup_iff.mpr next.part.keys_nodup
  have hloop := foldlM_builds (m := Option) (f := planPartition ch curr next)
    (fun pre cmd => Issued curr ρ₀ ρ version pre cmd) (ch.order [9] next.part.keys)
    (s := ⟨version, [], [], [], (next.maxImbalance % 2 ^ 32).toNat⟩)
    ⟨rfl, by simp, by simp, by simp, List.nodup_nil⟩ fun pre pid post cmd hxs hi => ?_
  · obtain ⟨cmd, hcmd, hi⟩ := hloop
    exact ⟨cmd, _, hcmd, hi, hkey⟩
  · refine planPartition_issued hc h₀ h (fun hm => ?_) hi
    rw [hxs, List.nodup_append'] at hnd
    exact hnd.2.2 hm (by simp)

end Command

end Scout.Partitions
