import Scout.Control.Assignments

/-!
A partition whose replicas were assigned keeps a serving replica, as long as no
command sends all of its serving replicas away. Each item is checked against the
number of serving replicas before the command, so one command can do that.
-/

namespace Scout.Control

open Lib

/-! ## Items that keep a serving replica -/

def ServedBy (pid : Nat) (name : String) (items : GoMap Nat Partition) : Prop :=
  ∃ part r, items.get pid = some part ∧ part.replicas.get name = some r ∧
    r.state.isServing = true

variable {q : Nat} {name : String}

theorem Touches.servedBy {items items' : GoMap Nat Partition} {pid : Nat}
    {R : Partition → Partition → Prop} (h : Touches items items' pid R) (hs : ServedBy q name items)
    (hR : ∀ part part' r, items.get pid = some part → R part part' → pid = q →
      part.replicas.get name = some r → r.state.isServing = true →
      ∃ r', part'.replicas.get name = some r' ∧ r'.state.isServing = true) :
    ServedBy q name items' := by
  obtain ⟨part, part', hg, hr, hi⟩ := h
  obtain ⟨part₀, r, h₀, hname, hserv⟩ := hs
  by_cases hq : q = pid
  · subst hq
    rw [hg] at h₀
    cases h₀
    obtain ⟨r', hr', hs'⟩ := hR part part' r hg hr rfl hname hserv
    exact ⟨part', r', by rw [hi, if_pos rfl], hr', hs'⟩
  · exact ⟨part₀, r, by rw [hi, if_neg hq]; exact h₀, hname, hserv⟩

variable {t : Time}

theorem Added.keeps {sid pid : Nat} {state : ReplicaState} {part part' : Partition}
    (h : Added t sid state part part') (hn : Named pid part) {r : Replica}
    (hr : part.replicas.get name = some r) : part'.replicas.get name = some r := by
  rw [h.get, if_neg]
  · exact hr
  · rintro rfl
    rw [hn.fresh] at hr
    cases hr

section Items

variable {count q : Nat} {t : Time} {name : String} {items items' : GoMap Nat Partition}

theorem ServedBy.added {pid sid : Nat} {state : ReplicaState} (h : ServedBy q name items)
    (hok : ItemsOk count items) (ht : Touches items items' pid (Added t sid state)) :
    ServedBy q name items' :=
  ht.servedBy h fun part _ r hg ha _ hr hs =>
    ⟨r, ha.keeps (hok.named pid part hg) hr, hs⟩

theorem ServedBy.updateItem {x : Update} (h : ServedBy q name items)
    (hx : Control.updateItem t items x = .ok items')
    (hspare : x.partitionId = q → x.replica = name → x.state.isServing = true) :
    ServedBy q name items' :=
  (updateItem_touches hx).servedBy h fun part part' r _ hu hq hr hs => by
    obtain ⟨r₀, hr₀, hget⟩ := hu.get
    by_cases hn : name = x.replica
    · exact ⟨_, by rw [hget, if_pos hn], hspare hq hn.symm⟩
    · exact ⟨r, by rw [hget, if_neg hn]; exact hr, hs⟩

theorem ServedBy.removeItem {x : Remove} (h : ServedBy q name items)
    (hx : Control.removeItem items x = .ok items')
    (hspare : x.partitionId = q → x.replica ≠ name) : ServedBy q name items' :=
  (removeItem_touches hx).servedBy h fun part part' r _ hu hq hr hs =>
    ⟨r, by rw [hu.get, if_neg fun hn => hspare hq hn.symm]; exact hr, hs⟩

theorem ServedBy.bumpVersion {pid : Nat} (h : ServedBy q name items)
    (hx : Control.bumpVersion items pid = .ok items') : ServedBy q name items' :=
  (bumpVersion_touches hx).servedBy h fun part part' r _ hb _ hr hs =>
    ⟨r, by rw [hb.replicas]; exact hr, hs⟩

theorem ServedBy.reported {pid : Nat} (h : ServedBy q name items)
    (ht : Touches items items' pid Reported) : ServedBy q name items' :=
  ht.servedBy h fun part part' r _ hrep _ hr hs => by
    obtain ⟨r', hr', hsame⟩ := hrep.some name r hr
    exact ⟨r', hr', by rw [hsame.state]; exact hs⟩

end Items

/-! ## Commands -/

/-- Of every served partition the command leaves a serving replica alone: no item
moves that replica to a state that does not serve. -/
def UpdateAssignments.Spares (cmd : UpdateAssignments) (p : Partitions) : Prop :=
  ∀ e ∈ p.items.toList, 0 < e.2.servingReplicaCount →
    ∃ n ∈ e.2.replicas.toList, n.2.state.isServing = true ∧
      ∀ x ∈ cmd.update, x.partitionId = e.1 → x.replica = n.1 → x.state.isServing = true
  deriving Decidable

theorem UpdateAssignments.Spares.exists {cmd : UpdateAssignments} {p : Partitions}
    (h : cmd.Spares p) {part : Partition} (hq : p.items.get q = some part) (hs : part.Served) :
    ∃ name, ServedBy q name p.items ∧
      ∀ x ∈ cmd.update, x.partitionId = q → x.replica = name → x.state.isServing = true := by
  obtain ⟨⟨name, r⟩, hn, hr, hx⟩ := h (q, part) (GoMap.mem_toList.mpr hq)
    (Partition.servingReplicaCount_pos.mpr hs)
  exact ⟨name, ⟨part, r, hq, GoMap.mem_toList.mp hn, hr⟩, hx⟩

variable {f : Fsm}

theorem checkRemove_ne {p : Partitions} {x : Remove} (h : checkRemove f p x = .ok ())
    (hs : ServedBy q name p.items) (hq : x.partitionId = q) : x.replica ≠ name := by
  obtain ⟨_, part, r, hg, hr, hl⟩ := checkRemove_ok.mp h
  obtain ⟨part₀, r₀, hg₀, hr₀, hserv⟩ := hs
  rintro rfl
  subst hq
  rw [hg] at hg₀
  cases hg₀
  rw [hr] at hr₀
  cases hr₀
  rw [hl] at hserv
  cases hserv

theorem changeItems_servedBy {p : Partitions} {cmd : UpdateAssignments}
    {items : GoMap Nat Partition} (hok : ItemsOk f.partitionCount p.items)
    (hv : validateUpdateAssignments f p cmd = .ok ()) (hi : changeItems t p.items cmd = .ok items)
    (hs : ServedBy q name p.items)
    (hx : ∀ x ∈ cmd.update, x.partitionId = q → x.replica = name → x.state.isServing = true) :
    ServedBy q name items := by
  obtain ⟨_, _, _, hremove⟩ := validateUpdateAssignments_ok.mp hv
  refine (changeItems_afterAdd (ServedBy q name) hok hi ?_ ?_ ?_ ?_).2
  · intro added hadd
    exact (foldlM_invariant (fun m => ItemsOk f.partitionCount m ∧ ServedBy q name m) hadd ⟨hok, hs⟩
      fun x _ m m' hm hx => ⟨hm.1.addItem hx, hm.2.added hm.1 (addItem_touches hm.1.id hx)⟩).2
  · intro x hmem m m' hserv hup
    exact hserv.updateItem hup (hx x hmem)
  · intro x hmem m m' hserv hrem
    exact hserv.removeItem hrem (checkRemove_ne (hremove x hmem) hs)
  · intro pid m m' hserv hb
    exact hserv.bumpVersion hb

theorem initAdd_loop_served {count : Nat} {items items' : GoMap Nat Partition} {xs : List InitAdd}
    (hok : ItemsOk count items) (h : xs.foldlM (initAdd t) items = .ok items') :
    ∀ x ∈ xs, ∃ name, ServedBy x.partitionId name items' := by
  refine (foldlM_history (fun pre m => ItemsOk count m ∧
    ∀ x ∈ pre, ∃ name, ServedBy x.partitionId name m) h ⟨hok, nofun⟩
    fun pre x post m m' _ hm hs => ⟨hm.1.initAdd hs, fun y hy => ?_⟩).2
  have ht := initAdd_touches hm.1.id hs
  rcases List.mem_append.mp hy with hy | hy
  · obtain ⟨name, hserv⟩ := hm.2 y hy
    exact ⟨name, hserv.added hm.1 ht⟩
  · rw [List.mem_singleton] at hy
    subst hy
    obtain ⟨part, part', hg, ha, hi⟩ := ht
    exact ⟨_, part', _, by rw [hi, if_pos rfl], by rw [ha.get, if_pos rfl], y.state_isServing⟩

/-! ## Runs -/

/-- Every partition has assignments and a serving replica. -/
def AllServed (f : Fsm) : Prop :=
  ∃ p, f.partitions = some p ∧ p.hasAssignments = true ∧
    ∀ q, q < f.partitionCount → ∃ name, ServedBy q name p.items

/-- An assignment command that passes the checks spares a serving replica of each
partition, and the cluster is not bootstrapped a second time. -/
def PayloadSpares (f : Fsm) : Option Payload → Prop
  | some (.updateAssignments cmd) =>
    ∀ p ∈ f.partitions, validateUpdateAssignments f p cmd = .ok () → cmd.Spares p
  | some (.bootstrap _) => f.clusterName ≠ ""
  | some (.register _) | some (.updateStatus _) | some (.initAssignments _) | none => True

instance PayloadSpares.decidable (f : Fsm) : ∀ o, Decidable (PayloadSpares f o)
  | some (.updateAssignments cmd) =>
    inferInstanceAs (Decidable (∀ p ∈ f.partitions, _ = _ → cmd.Spares p))
  | some (.bootstrap _) => inferInstanceAs (Decidable (f.clusterName ≠ ""))
  | some (.register _) | some (.updateStatus _) | some (.initAssignments _)
  | none => isTrue trivial

def SparesServing (f : Fsm) (a : Step) : Prop := PayloadSpares f a.payload
  deriving Decidable

theorem AllServed.step {f' : Fsm} {a : Step} (hf : Sound f) (h : AllServed f)
    (hok : SparesServing f a) (hs : Control.step f a = some f') : AllServed f' := by
  obtain ⟨p, hp, ha, hserv⟩ := h
  cases step_moves hs with
  | idle a i v => exact ⟨p, hp, ha, hserv⟩
  | bootstrap i v m t cmd hc => exact absurd hc hok
  | register i v m t cmd s s' r _ _ _ => exact ⟨p, hp, ha, hserv⟩
  | status i v m t cmd s p' _ hp' =>
    rcases hp' with rfl | ⟨p₀, p₁, h₀, rfl, hver, hi⟩
    · exact ⟨p, hp, ha, hserv⟩
    rw [hp] at h₀
    cases h₀
    refine ⟨p₁, rfl, by rw [← ha]; simp [Partitions.hasAssignments, hver], fun q hq => ?_⟩
    obtain ⟨name, hn⟩ := hserv q hq
    exact ⟨name, foldlM_invariant (ServedBy q name) hi hn fun u _ m m' hm hx =>
      hm.reported (statusItem_touches hx)⟩
  | initAssignments i v m t cmd p₀ items hp₀ hn _ _ =>
    rw [hp] at hp₀
    cases hp₀
    rw [ha] at hn
    cases hn
  | updateAssignments i v m t cmd p₀ items hp₀ _ hv hi =>
    rw [hp] at hp₀
    cases hp₀
    have hspare : cmd.Spares p := hok p hp hv
    refine ⟨_, rfl, decide_eq_true (Nat.succ_pos _), fun q hq => ?_⟩
    obtain ⟨_, part, r, hpart, hr, hst⟩ := hserv q hq
    obtain ⟨name, hn, hx⟩ := hspare.exists hpart ⟨_, r, hr, hst⟩
    exact ⟨name, changeItems_servedBy (hf.items p hp) hv hi hn hx⟩
  | restore =>
    refine ⟨p.wire, by simp [snapshot, hp], ha, fun q hq => ?_⟩
    obtain ⟨name, part, r, hpart, hr, hst⟩ := hserv q hq
    exact ⟨name, part.wire, r, wire_items_get.mpr ⟨part, hpart, rfl⟩,
      by rw [wire_replicas_get]; exact hr, hst⟩

theorem allServed_init {f' : Fsm} {i m : Nat} {cmd : InitAssignments} {r : Result} (hf : Sound f)
    (h : apply f ⟨i, t, some ⟨m, some (.initAssignments cmd)⟩⟩ = some (f', .ok r)) :
    AllServed f' := by
  obtain ⟨_, f₁, h₁, rfl⟩ := apply_accepted.mp h
  obtain ⟨p, items, hp, _, hv, hi, rfl⟩ := applyInitAssignments_ok h₁
  refine ⟨_, rfl, rfl, fun q hq => ?_⟩
  obtain ⟨x, hx, rfl⟩ := (validateInitAssignments_ok hv).cover q hq
  exact initAdd_loop_served (hf.items p hp) hi x hx

/-- **Partitions stay served.** After any run in which the initial assignments
were accepted, and in which every later assignment command spares a serving
replica of each partition, every partition has a replica in a serving state. -/
theorem partitions_stay_served {as bs : List Step} {f₁ f₂ f₃ : Fsm} {i m : Nat} {t : Time}
    {cmd : InitAssignments} {r : Result} (h₁ : runSteps step newFsm as = some f₁)
    (h₂ : apply f₁ ⟨i, t, some ⟨m, some (.initAssignments cmd)⟩⟩ = some (f₂, .ok r))
    (hok : StepsMeet step SparesServing f₂ bs) (h₃ : runSteps step f₂ bs = some f₃) :
    ∃ p, f₃.partitions = some p ∧ ∀ pid, pid < f₃.partitionCount →
      ∃ part, p.items.get pid = some part ∧ part.Served := by
  have hs₁ : Sound f₁ := sound_run sound_new h₁
  have hs₂ : Sound f₂ := hs₁.step (step_of_apply h₂)
  obtain ⟨_, p, hp, _, hserv⟩ := runSteps_invariant step (fun f => Sound f ∧ AllServed f)
    (fun f a f' hi hok hs => ⟨hi.1.step hs, hi.2.step hi.1 hok hs⟩)
    ⟨hs₂, allServed_init hs₁ h₂⟩ hok h₃
  refine ⟨p, hp, fun pid hpid => ?_⟩
  obtain ⟨name, part, r, hpart, hr, hst⟩ := hserv pid hpid
  exact ⟨part, hpart, name, r, hr, hst⟩

def bothLeave : Entry :=
  command 5 (.updateAssignments ⟨0, [], [⟨0, "p0_r1", .leaving⟩, ⟨0, "p0_r2", .leaving⟩], [], 0⟩)

/-- It is accepted, since each item sees two serving replicas, and leaves the
partition without any. -/
theorem bothLeave_unserved : ∃ f₁ f₂ f₃ p part, runSteps step newFsm twoDataServers = some f₁ ∧
    apply f₁ assignTwoVoters = some (f₂, .ok (.updated 1)) ∧
    apply f₂ bothLeave = some (f₃, .ok (.updated 2)) ∧
    f₃.partitions = some p ∧ 0 < f₃.partitionCount ∧ p.items.get 0 = some part ∧ ¬part.Served := by
  refine ⟨_, _, _, _, _, rfl, rfl, rfl, rfl, by decide, rfl, ?_⟩
  rw [← Partition.servingReplicaCount_pos]
  decide

/-- One of two voters leaves and is removed, the other one becomes a non-voter, and a new
replica joins. -/
def oneLeaves : List Step :=
  [.apply (command 5 (.updateAssignments ⟨0, [], [⟨0, "p0_r1", .leaving⟩], [], 0⟩)),
   .restore,
   .apply (command 6 (.updateAssignments ⟨0, [], [⟨0, "p0_r2", .nonVoter⟩], [⟨0, "p0_r1"⟩], 0⟩)),
   .apply (command 7 (.updateAssignments ⟨0, [⟨0, 2⟩], [], [], 0⟩))]

theorem partitions_stay_served_oneLeaves : ∃ f₁ f₂ f₃ : Fsm,
    runSteps step newFsm twoDataServers = some f₁ ∧
    apply f₁ assignTwoVoters = some (f₂, .ok (.updated 1)) ∧ runSteps step f₂ oneLeaves = some f₃ ∧
    f₃.partitions.map Partitions.assignmentsVersion = some 4 ∧
    ∃ p, f₃.partitions = some p ∧ ∀ pid, pid < f₃.partitionCount →
      ∃ part, p.items.get pid = some part ∧ part.Served := by
  refine ⟨_, _, _, rfl, rfl, rfl, rfl, ?_⟩
  exact @partitions_stay_served twoDataServers oneLeaves _ _ _ 4 0 0 twoVoters (.updated 1)
    rfl rfl (by decide) rfl

end Scout.Control
