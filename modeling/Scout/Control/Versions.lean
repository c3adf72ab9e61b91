import Scout.Control.Identity

/-!
The version of the assignments of a partition, over whole runs. A command that
changes the replicas of a partition raises its version, so two states with the same
version of a partition have the same replicas of it.
-/

namespace Scout.Control

open Lib

/-! ## The changes of a command -/

/-- The items outside a set stay, and the versions of all items do. -/
def Within (S : Nat → Prop) (items items' : GoMap Nat Partition) : Prop :=
  ∀ q part, items.get q = some part → ∃ part', items'.get q = some part' ∧
    part'.assignmentsVersion = part.assignmentsVersion ∧ (¬S q → part' = part)

section Within

variable {S : Nat → Prop} {t : Time} {items items' items'' : GoMap Nat Partition} {pid : Nat}

theorem Within.refl (items : GoMap Nat Partition) : Within S items items :=
  fun _ part hp => ⟨part, hp, rfl, fun _ => rfl⟩

theorem Within.trans (h : Within S items items') (h' : Within S items' items'') :
    Within S items items'' := by
  intro q part hp
  obtain ⟨part', hp', hv, hout⟩ := h q part hp
  obtain ⟨part'', hp'', hv', hout'⟩ := h' q part' hp'
  exact ⟨part'', hp'', hv'.trans hv, fun hq => (hout' hq).trans (hout hq)⟩

theorem Touches.within {R : Partition → Partition → Prop} (h : Touches items items' pid R)
    (hpid : S pid)
    (hR : ∀ part part', R part part' → part'.assignmentsVersion = part.assignmentsVersion) :
    Within S items items' := by
  obtain ⟨part₀, part', hg, hr, hi⟩ := h
  intro q part hp
  by_cases hq : q = pid
  · subst hq
    rw [hg] at hp
    cases hp
    exact ⟨part', by rw [hi, if_pos rfl], hR _ _ hr, fun hn => absurd hpid hn⟩
  · exact ⟨part, by rw [hi, if_neg hq]; exact hp, rfl, fun _ => rfl⟩

theorem onPartition_within {op : Partition → Go ApplyError Partition} (hpid : S pid)
    (hop : ∀ part part', op part = .ok part' → part'.assignmentsVersion = part.assignmentsVersion)
    (h : onPartition items pid op = .ok items') : Within S items items' :=
  (onPartition_touches h).within hpid hop

theorem nextReplicaName_touches {name : String}
    (h : nextReplicaName items pid = .ok (items', name)) :
    Touches items items' pid fun part part' =>
      part' = { part with lastReplicaId := part.lastReplicaId + 1 } := by
  obtain ⟨part, hg, h⟩ := bind_eq_ok.mp h
  rw [deref_eq_ok] at hg
  cases h
  refine ⟨part, _, hg, rfl, fun q => ?_⟩
  rw [GoMap.get_store, hg]
  rfl

theorem addReplica_within {sid : Nat} {state : ReplicaState} (hpid : S pid)
    (hid : ∀ part, items.get pid = some part → part.id = pid)
    (h : addReplica t items pid sid state = .ok items') : Within S items items' := by
  obtain ⟨part, hg, h⟩ := bind_eq_ok.mp h
  obtain ⟨⟨items₁, name⟩, h₁, h⟩ := bind_eq_ok.mp h
  rw [hid part (deref_eq_ok.mp hg)] at h₁
  refine Within.trans ((nextReplicaName_touches h₁).within hpid fun _ _ he => by rw [he])
    (onPartition_within hpid (fun part part' ho => ?_) h)
  obtain ⟨_, _, ho⟩ := bind_eq_ok.mp ho
  cases ho
  rfl

theorem updateItem_within {x : Update} (hx : S x.partitionId)
    (h : updateItem t items x = .ok items') : Within S items items' := by
  refine onPartition_within hx (fun part part' ho => ?_) h
  obtain ⟨_, _, ho⟩ := bind_eq_ok.mp ho
  cases ho
  rfl

theorem removeItem_within {x : Remove} (hx : S x.partitionId)
    (h : removeItem items x = .ok items') : Within S items items' := by
  refine onPartition_within hx (fun part part' ho => ?_) h
  cases ho
  rfl

end Within

variable {items items' : GoMap Nat Partition}

/-- The partitions that an assignment command names get the next version, and the
others stay. -/
theorem changeItems_versions {count : Nat} {t : Time} {cmd : UpdateAssignments}
    (hok : ItemsOk count items) (h : changeItems t items cmd = .ok items') {q : Nat}
    {part : Partition} (hq : items.get q = some part) : ∃ part', items'.get q = some part' ∧
      if q ∈ cmd.changed then part'.assignmentsVersion = part.assignmentsVersion + 1
      else part' = part := by
  have hmem : ∀ q, q ∈ cmd.changed ↔ (∃ x ∈ cmd.add, x.partitionId = q) ∨
      (∃ x ∈ cmd.update, x.partitionId = q) ∨ ∃ x ∈ cmd.remove, x.partitionId = q := by
    intro q
    simp [UpdateAssignments.changed]
  obtain ⟨added, updated, removed, ha, hu, hr, hb⟩ := changeItems_ok h
  have h₁ : ItemsOk count added ∧ Within (· ∈ cmd.changed) items added :=
    foldlM_invariant (fun m => ItemsOk count m ∧ Within (· ∈ cmd.changed) items m) ha
      ⟨hok, .refl items⟩ fun x hx m m' hm hs => ⟨hm.1.addItem hs, hm.2.trans
        (addReplica_within ((hmem _).mpr (.inl ⟨x, hx, rfl⟩)) hm.1.id hs)⟩
  have h₂ : Within (· ∈ cmd.changed) items updated :=
    foldlM_invariant (Within (· ∈ cmd.changed) items) hu h₁.2 fun x hx m m' hm hs =>
      hm.trans (updateItem_within ((hmem _).mpr (.inr (.inl ⟨x, hx, rfl⟩))) hs)
  have h₃ : Within (· ∈ cmd.changed) items removed :=
    foldlM_invariant (Within (· ∈ cmd.changed) items) hr h₂ fun x hx m m' hm hs =>
      hm.trans (removeItem_within ((hmem _).mpr (.inr (.inr ⟨x, hx, rfl⟩))) hs)
  obtain ⟨part₃, hp₃, hv₃, hout⟩ := h₃ q part hq
  -- each changed partition is counted up once
  have h₄ : ∃ part', items'.get q = some part' ∧ if q ∈ cmd.changed then
      part'.assignmentsVersion = part₃.assignmentsVersion + 1 else part' = part₃ := by
    refine foldlM_history (fun pre m => ∃ part', m.get q = some part' ∧ if q ∈ pre then
      part'.assignmentsVersion = part₃.assignmentsVersion + 1 else part' = part₃) hb
      ⟨part₃, hp₃, by simp⟩ fun pre pid post m m' hsplit hm hs => ?_
    obtain ⟨part', hp', hcase⟩ := hm
    obtain ⟨part₀, part₁, hg, ho, hi⟩ := onPartition_touches hs
    cases ho
    by_cases he : q = pid
    · subst he
      have hnot : q ∉ pre := by
        have hnd : cmd.changed.Nodup := List.nodup_dedup _
        rw [hsplit] at hnd
        exact fun hin => (List.nodup_append.mp hnd).2.2 q hin q (by simp) rfl
      rw [if_neg hnot] at hcase
      rw [hg] at hp'
      cases hp'
      refine ⟨_, by rw [hi, if_pos rfl], ?_⟩
      rw [if_pos (by simp)]
      rw [← hcase]
    · refine ⟨part', by rw [hi, if_neg he]; exact hp', ?_⟩
      simpa [he] using hcase
  obtain ⟨part', hp', hcase⟩ := h₄
  refine ⟨part', hp', ?_⟩
  split at hcase
  · next hc => rw [if_pos hc, hcase, hv₃]
  · next hc => rw [if_neg hc, hcase, hout hc]

theorem initLoop_versions {count : Nat} {t : Time} {xs : List InitAdd} (hok : ItemsOk count items)
    (h : xs.foldlM (initAdd t) items = .ok items') :
    ∀ x ∈ xs, ∃ part', items'.get x.partitionId = some part' ∧ part'.assignmentsVersion = 1 := by
  refine (foldlM_history (fun pre m => ItemsOk count m ∧ ∀ x ∈ pre,
    ∃ part', m.get x.partitionId = some part' ∧ part'.assignmentsVersion = 1) h ⟨hok, nofun⟩
    fun pre x post m m' _ hm hs => ⟨hm.1.initAdd hs, fun y hy => ?_⟩).2
  obtain ⟨m₁, h₁, h₂⟩ := bind_eq_ok.mp hs
  obtain ⟨part₀, part₁, hg, ho, hi⟩ := onPartition_touches h₂
  cases ho
  by_cases he : y.partitionId = x.partitionId
  · exact ⟨_, by rw [hi, if_pos he], rfl⟩
  rcases List.mem_append.mp hy with hy | hy
  · obtain ⟨part', hp', hv⟩ := hm.2 y hy
    obtain ⟨part'', hp'', hv', _⟩ :=
      addReplica_within (S := fun _ => True) trivial hm.1.id h₁ y.partitionId part' hp'
    exact ⟨part'', by rw [hi, if_neg he]; exact hp'', hv'.trans hv⟩
  · exact absurd (by rw [List.mem_singleton.mp hy]) he

/-! ## Whole runs -/

/-- The replicas with their servers and states. -/
def SamePlaces (part part' : Partition) : Prop :=
  ∀ name, (part'.replicas.get name).map place = (part.replicas.get name).map place

/-- The version of a partition does not go back, and stays only if the replicas do. -/
structure Later (part part' : Partition) : Prop where
  le : part.assignmentsVersion ≤ part'.assignmentsVersion
  same : part'.assignmentsVersion = part.assignmentsVersion → SamePlaces part part'

theorem Later.refl (part : Partition) : Later part part := ⟨Nat.le_refl _, fun _ _ => rfl⟩

theorem Later.trans {part part' part'' : Partition} (h : Later part part')
    (h' : Later part' part'') : Later part part'' := by
  have hle := h.le
  have hle' := h'.le
  refine ⟨Nat.le_trans hle hle', fun he name => ?_⟩
  exact (h'.same (by omega) name).trans (h.same (by omega) name)

theorem Later.of_lt {part part' : Partition}
    (h : part.assignmentsVersion < part'.assignmentsVersion) : Later part part' :=
  ⟨Nat.le_of_lt h, fun he => absurd he (by omega)⟩

theorem updateStatus_later (part : Partition) (u : PartitionStatus) :
    Later part (part.updateStatus u) := by
  refine ⟨Nat.le_refl _, fun _ name => ?_⟩
  have hr := updateStatus_reported part u
  cases hg : part.replicas.get name with
  | none => rw [hr.none name hg]
  | some r =>
    obtain ⟨r', hg', hs⟩ := hr.some name r hg
    rw [hg']
    simp [place, hs.serverId, hs.state]

def LaterItems (items items' : GoMap Nat Partition) : Prop :=
  ∀ q part, items.get q = some part → ∃ part', items'.get q = some part' ∧ Later part part'

theorem LaterItems.refl (items : GoMap Nat Partition) : LaterItems items items :=
  fun _ part hp => ⟨part, hp, .refl part⟩

theorem LaterItems.trans {items'' : GoMap Nat Partition} (h : LaterItems items items')
    (h' : LaterItems items' items'') : LaterItems items items'' := by
  intro q part hp
  obtain ⟨part', hp', hl⟩ := h q part hp
  obtain ⟨part'', hp'', hl'⟩ := h' q part' hp'
  exact ⟨part'', hp'', hl.trans hl'⟩

structure Versioned (f : Fsm) : Prop where
  sound : Sound f
  named : f.clusterName ≠ ""
  zero : ∀ p, f.partitions = some p → p.hasAssignments = false →
    ∀ q part, p.items.get q = some part → part.assignmentsVersion = 0

theorem statusLoop_later {us : List (Nat × PartitionStatus)}
    (h : us.foldlM statusItem items = .ok items') : LaterItems items items' := by
  refine foldlM_invariant (LaterItems items) h (.refl items) fun u _ m m' hm hs => hm.trans ?_
  obtain ⟨part₀, part', hg, ho, hi⟩ := onPartition_touches hs
  cases ho
  intro q part hp
  by_cases hq : q = u.1
  · subst hq
    rw [hg] at hp
    cases hp
    exact ⟨_, by rw [hi, if_pos rfl], updateStatus_later part₀ u.2⟩
  · exact ⟨part, by rw [hi, if_neg hq]; exact hp, .refl part⟩

def LaterState (f f' : Fsm) : Prop :=
  ∀ p, f.partitions = some p → ∃ p', f'.partitions = some p' ∧ LaterItems p.items p'.items

theorem LaterState.trans {f f' f'' : Fsm} (h : LaterState f f') (h' : LaterState f' f'') :
    LaterState f f'' := by
  intro p hp
  obtain ⟨p', hp', hl⟩ := h p hp
  obtain ⟨p'', hp'', hl'⟩ := h' p' hp'
  exact ⟨p'', hp'', hl.trans hl'⟩

theorem Versioned.later {f f' : Fsm} {a : Step} (h : Versioned f) (hs : step f a = some f') :
    LaterState f f' := by
  cases step_moves hs with
  | idle a i v => exact fun p hp => ⟨p, hp, .refl _⟩
  | bootstrap i v m t cmd hc => exact absurd hc h.named
  | register i v m t cmd s s' r _ _ _ => exact fun p hp => ⟨p, hp, .refl _⟩
  | status i v m t cmd s p' _ hr =>
    intro p hp
    rcases hr with rfl | ⟨p₀, p₁, h₀, rfl, _, hi⟩
    · exact ⟨p, hp, .refl _⟩
    · rw [hp] at h₀
      cases h₀
      exact ⟨p₁, rfl, statusLoop_later hi⟩
  | initAssignments i v m t cmd p₀ items hp₀ hn hv hi =>
    intro p hp
    rw [hp] at hp₀
    cases hp₀
    refine ⟨_, rfl, fun q part hq => ?_⟩
    have hlt := ((h.sound.items p₀ hp).present q).mp (by rw [hq]; rfl)
    obtain ⟨x, hx, rfl⟩ := (validateInitAssignments_ok hv).cover q hlt
    obtain ⟨part', hp', hv'⟩ := initLoop_versions (h.sound.items p₀ hp) hi x hx
    refine ⟨part', hp', .of_lt ?_⟩
    rw [h.zero p₀ hp hn _ part hq, hv']
    exact Nat.one_pos
  | updateAssignments i v m t cmd p₀ items hp₀ _ _ hi =>
    intro p hp
    rw [hp] at hp₀
    cases hp₀
    refine ⟨_, rfl, fun q part hq => ?_⟩
    obtain ⟨part', hp', hcase⟩ := changeItems_versions (h.sound.items p₀ hp) hi hq
    refine ⟨part', hp', ?_⟩
    split at hcase
    · exact .of_lt (by omega)
    · rw [hcase]
      exact .refl part
  | restore =>
    intro p hp
    refine ⟨p.wire, by simp [snapshot, hp], fun q part hq => ?_⟩
    refine ⟨part.wire, wire_items_get.mpr ⟨part, hq, rfl⟩, Nat.le_refl _, fun _ name => ?_⟩
    rw [wire_replicas_get]

theorem Versioned.step {f f' : Fsm} {a : Step} (h : Versioned f)
    (hs : Control.step f a = some f') : Versioned f' := by
  refine ⟨h.sound.step hs, ?_, ?_⟩
  · cases step_moves hs with
    | bootstrap i v m t cmd hc => exact absurd hc h.named
    | _ => exact h.named
  · cases step_moves hs with
    | idle a i v => exact h.zero
    | bootstrap i v m t cmd hc => exact absurd hc h.named
    | register i v m t cmd s s' r _ _ _ => exact h.zero
    | status i v m t cmd s p' _ hr =>
      rcases hr with rfl | ⟨p₀, p₁, h₀, rfl, hv, hi⟩
      · exact h.zero
      intro p hp hn
      cases hp
      have hn₀ : p₀.hasAssignments = false := by
        unfold Partitions.hasAssignments at hn ⊢
        rw [← hv]
        exact hn
      refine foldlM_invariant (fun m : GoMap Nat Partition => ∀ q part, m.get q = some part →
        part.assignmentsVersion = 0) hi (h.zero p₀ h₀ hn₀) fun u _ m m' hm hs => ?_
      exact (onPartition_touches hs).all hm fun part part' _ hz ho => by
        cases ho
        exact hz
    | initAssignments i v m t cmd p₀ items _ _ _ _ =>
      intro p hp hn
      cases hp
      cases hn
    | updateAssignments i v m t cmd p₀ items _ _ _ _ =>
      intro p hp hn
      cases hp
      cases of_decide_eq_false hn (Nat.succ_pos _)
    | restore =>
      intro p hp hn q part hq
      obtain ⟨p₀, h₀, rfl⟩ := Option.map_eq_some_iff.mp hp
      obtain ⟨part₀, hp₀, rfl⟩ := wire_items_get.mp hq
      exact h.zero p₀ h₀ hn q part₀ hp₀

section Run

variable {i m : Nat} {t : Time} {cmd : Bootstrap} {r : Result} {f₀ f f' : Fsm} {as bs : List Step}

theorem versioned_bootstrap
    (hboot : apply newFsm ⟨i, t, some ⟨m, some (.bootstrap cmd)⟩⟩ = some (f₀, .ok r))
    (hname : cmd.clusterName ≠ "") : Versioned f₀ := by
  have hsound := sound_new.step (step_of_apply hboot)
  obtain ⟨_, f₁, h₁, rfl⟩ := apply_accepted.mp hboot
  cases h₁
  refine ⟨hsound, hname, fun p hp _ q part hq => ?_⟩
  cases hp
  rw [bootstrapPartitions_get] at hq
  split at hq
  · cases hq
    rfl
  · cases hq

theorem versioned_run (h : Versioned f₀) (hrun : runSteps step f₀ as = some f) : Versioned f :=
  runSteps_preserves step Versioned (fun _ _ _ hf hs => hf.step hs) h hrun

theorem Versioned.later_run (h : Versioned f) (hrun : runSteps Control.step f bs = some f') :
    LaterState f f' :=
  (runSteps_preserves Control.step (fun f' => Versioned f' ∧ LaterState f f')
    (fun _ _ _ hf hs => ⟨hf.1.step hs, hf.2.trans (hf.1.later hs)⟩)
    ⟨h, fun p hp => ⟨p, hp, .refl _⟩⟩ hrun).2

end Run

end Scout.Control
