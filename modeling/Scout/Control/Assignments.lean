import Scout.Control.Effects
import Mathlib

/-!
The assignment of replicas over whole runs of the control state machine: which
partitions stay served, and on which servers replicas are placed.

A command is checked against the state before it, item by item, so its items do
not see each other. The two main results state what has to hold of the items of
a command taken together.
-/

namespace Scout.Control

open Lib

/-! ## Names -/

variable {pid : Nat}

theorem replicaName_inj {n m : Nat} (h : replicaName pid n = replicaName pid m) : n = m := by
  exact Nat.repr_inj.mp ((String.append_right_inj _).mp h)

/-- Replicas are stored under their own names, which the counter has issued. -/
structure Named (pid : Nat) (part : Partition) : Prop where
  id : part.id = pid
  name : ∀ name r, part.replicas.get name = some r → r.name = name
  issued : ∀ name r, part.replicas.get name = some r →
    ∃ n, n ≤ part.lastReplicaId ∧ name = replicaName pid n

variable {part : Partition}

theorem Named.fresh (h : Named pid part) :
    part.replicas.get (replicaName part.id (part.lastReplicaId + 1)) = none := by
  cases hr : part.replicas.get (replicaName part.id (part.lastReplicaId + 1)) with
  | none => rfl
  | some r =>
    obtain ⟨n, hn, he⟩ := h.issued _ r hr
    rw [h.id] at he
    have := replicaName_inj he
    omega

variable {part' : Partition}

theorem Added.named {t : Time} {sid : Nat} {state : ReplicaState}
    (h : Added t sid state part part') (hn : Named pid part) : Named pid part' := by
  refine ⟨h.id.trans hn.id, fun name r hr => ?_, fun name r hr => ?_⟩
  · rw [h.get] at hr
    split at hr
    · next he =>
      cases hr
      exact he.symm
    · exact hn.name name r hr
  · rw [h.get] at hr
    rw [h.lastReplicaId]
    split at hr
    · next he => exact ⟨part.lastReplicaId + 1, Nat.le_refl _, by rw [he, hn.id]⟩
    · obtain ⟨n, hle, he⟩ := hn.issued name r hr
      exact ⟨n, Nat.le_succ_of_le hle, he⟩

theorem Frame.named (h : Frame part part') (hn : Named pid part)
    (hr : ∀ name r', part'.replicas.get name = some r' →
      ∃ r, part.replicas.get name = some r ∧ r'.name = r.name) : Named pid part' := by
  refine ⟨h.id.trans hn.id, fun name r' h' => ?_, fun name r' h' => ?_⟩
  · obtain ⟨r, hg, he⟩ := hr name r' h'
    exact he.trans (hn.name name r hg)
  · obtain ⟨r, hg, _⟩ := hr name r' h'
    rw [h.lastReplicaId]
    exact hn.issued name r hg

/-- Where the replicas of a changed partition come from. -/
def FromOld (part part' : Partition) : Prop :=
  ∀ name r', part'.replicas.get name = some r' →
    ∃ r, part.replicas.get name = some r ∧ r'.name = r.name ∧ r'.serverId = r.serverId

theorem Updated.fromOld {t : Time} {replica : String} {state : ReplicaState}
    (h : Updated t replica state part part') : FromOld part part' := by
  obtain ⟨r, hr, hget⟩ := h.get
  intro name r' h'
  rw [hget] at h'
  split at h'
  · next he =>
    cases h'
    exact ⟨r, he ▸ hr, rfl, rfl⟩
  · exact ⟨r', h', rfl, rfl⟩

theorem Removed.fromOld {replica : String} (h : Removed replica part part') :
    FromOld part part' := by
  intro name r' h'
  rw [h.get] at h'
  split at h'
  · cases h'
  · exact ⟨r', h', rfl, rfl⟩

theorem Bumped.fromOld (h : Bumped part part') : FromOld part part' := by
  intro name r' h'
  rw [h.replicas] at h'
  exact ⟨r', h', rfl, rfl⟩

theorem Reported.fromOld (h : Reported part part') : FromOld part part' := by
  intro name r' h'
  cases hr : part.replicas.get name with
  | none =>
    rw [h.none name hr] at h'
    cases h'
  | some r =>
    obtain ⟨r₁, h₁, hs⟩ := h.some name r hr
    rw [h₁] at h'
    cases h'
    exact ⟨r, rfl, hs.name, hs.serverId⟩

theorem FromOld.named (h : FromOld part part') (hf : Frame part part') (hn : Named pid part) :
    Named pid part' :=
  hf.named hn fun name r' h' => by
    obtain ⟨r, hr, he, _⟩ := h name r' h'
    exact ⟨r, hr, he⟩

/-! ## Partitions of a state -/

/-- There is a partition for every valid id, and its replicas are named well. -/
structure ItemsOk (count : Nat) (items : GoMap Nat Partition) : Prop where
  present : ∀ q, (items.get q).isSome = true ↔ q < count
  named : ∀ q part, items.get q = some part → Named q part

variable {count : Nat}

theorem ItemsOk.touch {items items' : GoMap Nat Partition} {R : Partition → Partition → Prop}
    (h : ItemsOk count items) (ht : Touches items items' pid R)
    (hR : ∀ part part', Named pid part → R part part' → Named pid part') :
    ItemsOk count items' := by
  refine ⟨fun q => ?_, ht.all h.named fun part part' _ hn hr => hR part part' hn hr⟩
  rw [ht.isSome]
  exact h.present q

theorem ItemsOk.id {items : GoMap Nat Partition} (h : ItemsOk count items) :
    ∀ part, items.get pid = some part → part.id = pid := fun part hp => (h.named pid part hp).id

section Items

variable {count : Nat} {t : Time} {items items' : GoMap Nat Partition}

theorem ItemsOk.addItem {x : Add} (h : ItemsOk count items)
    (hx : addItem t items x = .ok items') : ItemsOk count items' :=
  h.touch (addItem_touches h.id hx) fun _ _ hn ha => ha.named hn

theorem ItemsOk.initAdd {x : InitAdd} (h : ItemsOk count items)
    (hx : initAdd t items x = .ok items') : ItemsOk count items' :=
  h.touch (initAdd_touches h.id hx) fun _ _ hn ha => ha.named hn

theorem ItemsOk.updateItem {x : Update} (h : ItemsOk count items)
    (hx : updateItem t items x = .ok items') : ItemsOk count items' :=
  h.touch (updateItem_touches hx) fun _ _ hn hu => hu.fromOld.named hu.toFrame hn

theorem ItemsOk.removeItem {x : Remove} (h : ItemsOk count items)
    (hx : removeItem items x = .ok items') : ItemsOk count items' :=
  h.touch (removeItem_touches hx) fun _ _ hn hr => hr.fromOld.named hr.toFrame hn

theorem ItemsOk.bumpVersion {pid : Nat} (h : ItemsOk count items)
    (hx : bumpVersion items pid = .ok items') : ItemsOk count items' :=
  h.touch (bumpVersion_touches hx) fun _ _ hn hb => hb.fromOld.named hb.toFrame hn

/-- **Invariant rule for a command of assignment changes**, after its Add items.
What each other kind of item keeps, given well-formed partitions, is kept. -/
theorem changeItems_afterAdd {cmd : UpdateAssignments} (I : GoMap Nat Partition → Prop)
    (hok : ItemsOk count items) (h : changeItems t items cmd = .ok items')
    (hadd : ∀ m, cmd.add.foldlM (addItem t) items = .ok m → I m)
    (hupdate : ∀ x ∈ cmd.update, ∀ m m', I m → updateItem t m x = .ok m' → I m')
    (hremove : ∀ x ∈ cmd.remove, ∀ m m', I m → removeItem m x = .ok m' → I m')
    (hbump : ∀ pid m m', I m → bumpVersion m pid = .ok m' → I m') :
    ItemsOk count items' ∧ I items' := by
  obtain ⟨added, updated, removed, ha, hu, hr, hb⟩ := changeItems_ok h
  have h₁ : ItemsOk count added ∧ I added :=
    ⟨foldlM_invariant (ItemsOk count) ha hok fun x _ m m' hm hs => hm.addItem hs, hadd added ha⟩
  have h₂ : ItemsOk count updated ∧ I updated :=
    foldlM_invariant (fun m => ItemsOk count m ∧ I m) hu h₁ fun x hx m m' hm hs =>
      ⟨hm.1.updateItem hs, hupdate x hx m m' hm.2 hs⟩
  have h₃ : ItemsOk count removed ∧ I removed :=
    foldlM_invariant (fun m => ItemsOk count m ∧ I m) hr h₂ fun x hx m m' hm hs =>
      ⟨hm.1.removeItem hs, hremove x hx m m' hm.2 hs⟩
  exact foldlM_invariant (fun m => ItemsOk count m ∧ I m) hb h₃ fun pid _ m m' hm hs =>
    ⟨hm.1.bumpVersion hs, hbump pid m m' hm.2 hs⟩

end Items

/-! ## Initial assignments -/

def InitAdd.pair (x : InitAdd) : Nat × Nat := (x.partitionId, x.serverId)

variable {f : Fsm}

theorem initCheck_ok {seen seen' : List (Nat × Nat)} {x : InitAdd}
    (h : initCheck f seen x = .ok seen') : x.partitionId < f.partitionCount ∧
      DataServer f x.serverId ∧ x.pair ∉ seen ∧ seen' = x.pair :: seen := by
  unfold initCheck at h
  rw [rejectIf_bind, not_not, isValidPartitionId_iff, dataServer_bind, rejectIf_bind] at h
  obtain ⟨hp, hd, hn, h⟩ := h
  cases h
  exact ⟨hp, hd, hn, rfl⟩

/-- Ids below a bound that are as many as the bound are all of them. -/
theorem mem_of_dedup_length {n : Nat} {l : List Nat} (hlt : ∀ q ∈ l, q < n)
    (hlen : l.dedup.length = n) {q : Nat} (hq : q < n) : q ∈ l := by
  have hsub : l.toFinset ⊆ Finset.range n := by
    intro a ha
    exact Finset.mem_range.mpr (hlt a (List.mem_toFinset.mp ha))
  have hcard : (Finset.range n).card ≤ l.toFinset.card := by
    rw [Finset.card_range, List.card_toFinset, hlen]
  have heq := Finset.eq_of_subset_of_card_le hsub hcard
  rw [← List.mem_toFinset, heq]
  exact Finset.mem_range.mpr hq

/-- Accepted initial assignments cover every partition, with distinct pairs of a
partition and a data server. -/
structure InitOk (f : Fsm) (cmd : InitAssignments) : Prop where
  server : ∀ x ∈ cmd.add, DataServer f x.serverId
  nodup : (cmd.add.map InitAdd.pair).Nodup
  cover : ∀ q, q < f.partitionCount → ∃ x ∈ cmd.add, x.partitionId = q

theorem validateInitAssignments_ok {cmd : InitAssignments}
    (h : validateInitAssignments f cmd = .ok ()) : InitOk f cmd := by
  obtain ⟨seen, hf, h⟩ := bind_eq_ok.mp h
  rw [rejectIf_ok, not_not] at h
  have key : seen = (cmd.add.map InitAdd.pair).reverse ∧ (cmd.add.map InitAdd.pair).Nodup ∧
      ∀ x ∈ cmd.add, x.partitionId < f.partitionCount ∧ DataServer f x.serverId := by
    refine foldlM_history (fun pre seen => seen = (pre.map InitAdd.pair).reverse ∧
      (pre.map InitAdd.pair).Nodup ∧
      ∀ x ∈ pre, x.partitionId < f.partitionCount ∧ DataServer f x.serverId) hf
      ⟨rfl, List.nodup_nil, nofun⟩ fun pre x post s s' _ hi hs => ?_
    obtain ⟨rfl, hnd, hall⟩ := hi
    obtain ⟨hp, hd, hn, rfl⟩ := initCheck_ok hs
    rw [List.mem_reverse] at hn
    refine ⟨by simp, ?_, fun y hy => ?_⟩
    · rw [List.map_append, List.nodup_append']
      exact ⟨hnd, List.nodup_singleton _, by simpa [List.disjoint_singleton] using hn⟩
    · rcases List.mem_append.mp hy with hy | hy
      · exact hall y hy
      · rw [List.mem_singleton] at hy
        exact hy ▸ ⟨hp, hd⟩
  obtain ⟨rfl, hnd, hall⟩ := key
  refine ⟨fun x hx => (hall x hx).2, hnd, fun q hq => ?_⟩
  have hmem := mem_of_dedup_length (fun a ha => ?_) h hq
  · simpa [InitAdd.pair] using hmem
  · simp only [List.map_reverse, List.map_map, List.mem_reverse, List.mem_map] at ha
    obtain ⟨x, hx, rfl⟩ := ha
    exact (hall x hx).1

theorem validateInitAssignments_of_ok {cmd : InitAssignments} (h : InitOk f cmd)
    (hlt : ∀ x ∈ cmd.add, x.partitionId < f.partitionCount) :
    validateInitAssignments f cmd = .ok () := by
  have hloop := foldlM_builds (m := Except _) (f := initCheck f)
    (fun pre seen => seen = (pre.map InitAdd.pair).reverse) cmd.add (s := []) rfl ?_
  · obtain ⟨seen, hseen, rfl⟩ := hloop
    refine bind_eq_ok.mpr ⟨_, hseen, rejectIf_ok.mpr (not_not.mpr ?_)⟩
    have hset : ((cmd.add.map InitAdd.pair).reverse.map Prod.fst).toFinset =
        Finset.range f.partitionCount := by
      ext q
      simp only [List.mem_toFinset, List.map_reverse, List.map_map, List.mem_reverse,
        List.mem_map, Finset.mem_range]
      constructor
      · rintro ⟨x, hx, rfl⟩
        exact hlt x hx
      · intro hq
        obtain ⟨x, hx, rfl⟩ := h.cover q hq
        exact ⟨x, hx, rfl⟩
    rw [← List.card_toFinset, hset, Finset.card_range]
  · rintro pre x post _ hxs rfl
    have hmem : x ∈ cmd.add := by rw [hxs]; simp
    have hnew : x.pair ∉ (pre.map InitAdd.pair).reverse := by
      have hnd := h.nodup
      rw [hxs, List.map_append, List.map_cons] at hnd
      rw [List.mem_reverse]
      intro hin
      exact (List.nodup_append.mp hnd).2.2 _ hin _ (by simp) rfl
    refine ⟨x.pair :: (pre.map InitAdd.pair).reverse, ?_, by simp⟩
    exact rejectIf_bind.mpr ⟨by simpa [isValidPartitionId_iff] using hlt x hmem,
      dataServer_bind.mpr ⟨h.server x hmem, rejectIf_bind.mpr ⟨hnew, rfl⟩⟩⟩

/-! ## Reachable states -/

structure Sound (f : Fsm) : Prop where
  items : ∀ p, f.partitions = some p → ItemsOk f.partitionCount p.items
  fresh : ∀ p, f.partitions = some p → p.hasAssignments = false →
    ∀ q part, p.items.get q = some part → ∀ name, part.replicas.get name = none

theorem bootstrapPartitions_get (count q : Nat) : (bootstrapPartitions count).items.get q =
      if q < count then some (emptyPartition q) else none := by
  show AList.lookup q ((List.range count).foldl _ _) = _
  induction count with
  | zero => rfl
  | succ n ih =>
    rw [List.range_succ, List.foldl_append]
    change AList.lookup q (AList.insert n (emptyPartition n)
      ((List.range n).foldl (fun c id => c.insert id (emptyPartition id)) ∅)) = _
    by_cases hq : q = n
    · subst hq
      rw [AList.lookup_insert, if_pos (Nat.lt_succ_self q)]
    · rw [AList.lookup_insert_ne hq, ih]
      by_cases hlt : q < n
      · rw [if_pos hlt, if_pos (Nat.lt_succ_of_lt hlt)]
      · rw [if_neg hlt, if_neg (by omega)]

theorem bootstrapPartitions_none {q : Nat}
    (h : (bootstrapPartitions count).items.get q = some part) (name : String) :
    part.replicas.get name = none := by
  rw [bootstrapPartitions_get] at h
  split at h
  · cases h
    rfl
  · cases h

theorem bootstrapPartitions_ok (count : Nat) : ItemsOk count (bootstrapPartitions count).items := by
  refine ⟨fun q => ?_, fun q part h => ?_⟩
  · rw [bootstrapPartitions_get]
    by_cases hq : q < count <;> simp [hq]
  · rw [bootstrapPartitions_get] at h
    split at h
    · cases h
      exact ⟨rfl, nofun, nofun⟩
    · cases h

theorem wire_items_get {p : Partitions} {q : Nat} :
    p.wire.items.get q = some part ↔ ∃ part₀, p.items.get q = some part₀ ∧ part = part₀.wire := by
  show (p.items.mapValues Partition.wire).wire.get q = some part ↔ _
  rw [GoMap.get_wire, GoMap.get_mapValues, Option.map_eq_some_iff]
  simp only [eq_comm]

theorem wire_replicas_get (part : Partition) (name : String) :
    part.wire.replicas.get name = part.replicas.get name := GoMap.get_wire _ _

theorem ItemsOk.wire {p : Partitions} (h : ItemsOk count p.items) : ItemsOk count p.wire.items := by
  refine ⟨fun q => ?_, fun q part hq => ?_⟩
  · rw [← h.present q]
    show ((p.items.mapValues Partition.wire).wire.get q).isSome = true ↔ _
    rw [GoMap.get_wire, GoMap.get_mapValues, Option.isSome_map]
  · obtain ⟨part₀, h₀, rfl⟩ := wire_items_get.mp hq
    have hn := h.named q part₀ h₀
    refine ⟨hn.id, fun name r hr => ?_, fun name r hr => ?_⟩
    · rw [wire_replicas_get] at hr
      exact hn.name name r hr
    · rw [wire_replicas_get] at hr
      exact hn.issued name r hr

theorem PartitionsReported.sound (h : Sound f) {us : List (Nat × PartitionStatus)}
    {p' : Option Partitions} (hp : PartitionsReported us f.partitions p') :
    ∀ p, p' = some p → ItemsOk f.partitionCount p.items ∧ (p.hasAssignments = false →
      ∀ q part, p.items.get q = some part → ∀ name, part.replicas.get name = none) := by
  intro p hp'
  rcases hp with rfl | ⟨p₀, p₁, h₀, rfl, hv, hi⟩
  · exact ⟨h.items p hp', h.fresh p hp'⟩
  cases hp'
  refine foldlM_invariant (fun m => ItemsOk f.partitionCount m ∧ (p.hasAssignments = false →
    ∀ q part, m.get q = some part → ∀ name, part.replicas.get name = none)) hi
    ⟨h.items p₀ h₀, fun hn => h.fresh p₀ h₀ (by rw [← hn]; simp [Partitions.hasAssignments, hv])⟩
    fun u _ m m' hm hs => ?_
  have ht := statusItem_touches hs
  refine ⟨hm.1.touch ht fun _ _ hn hr => hr.fromOld.named hr.toFrame hn, fun hn => ?_⟩
  exact ht.all (hm.2 hn) fun part part' _ hnone hr name => hr.none name (hnone name)

theorem Sound.step {f' : Fsm} {a : Step} (h : Sound f) (hs : Control.step f a = some f') :
    Sound f' := by
  cases step_moves hs with
  | idle a i v => exact ⟨h.items, h.fresh⟩
  | bootstrap i v m t cmd hc =>
    refine ⟨fun p hp => ?_, fun p hp _ q part hq name => ?_⟩
    · cases hp
      exact bootstrapPartitions_ok cmd.partitionCount
    · cases hp
      exact bootstrapPartitions_none hq name
  | register i v m t cmd s s' r _ _ _ => exact ⟨h.items, h.fresh⟩
  | status i v m t cmd s p _ hp =>
    exact ⟨fun p' hp' => (hp.sound h p' hp').1, fun p' hp' => (hp.sound h p' hp').2⟩
  | initAssignments i v m t cmd p items hp _ _ hi =>
    refine ⟨fun p' hp' => ?_, fun p' hp' hn => ?_⟩
    · cases hp'
      exact foldlM_invariant (ItemsOk f.partitionCount) hi (h.items p hp)
        fun x _ m m' hm hx => hm.initAdd hx
    · cases hp'
      cases hn
  | updateAssignments i v m t cmd p items hp _ _ hi =>
    refine ⟨fun p' hp' => ?_, fun p' hp' hn => ?_⟩
    · cases hp'
      exact (changeItems_afterAdd (fun _ => True) (h.items p hp) hi (fun _ _ => trivial)
        (fun _ _ _ _ _ _ => trivial) (fun _ _ _ _ _ _ => trivial) fun _ _ _ _ _ => trivial).1
    · cases hp'
      cases of_decide_eq_false hn (Nat.succ_pos _)
  | restore =>
    refine ⟨fun p hp => ?_, fun p hp hn q part hq name => ?_⟩
    · obtain ⟨p₀, h₀, rfl⟩ := Option.map_eq_some_iff.mp hp
      exact (h.items p₀ h₀).wire
    · obtain ⟨p₀, h₀, rfl⟩ := Option.map_eq_some_iff.mp hp
      obtain ⟨part₀, hp₀, rfl⟩ := wire_items_get.mp hq
      rw [wire_replicas_get]
      exact h.fresh p₀ h₀ hn q part₀ hp₀ name

theorem sound_new : Sound newFsm := ⟨nofun, nofun⟩

theorem sound_run {f' : Fsm} {as : List Step} (h : Sound f) (hrun : runSteps step f as = some f') :
    Sound f' :=
  runSteps_preserves step Sound (fun _ _ _ hf hs => hf.step hs) h hrun

/-! ## Properties of single partitions -/

def AllItems (P : Nat → Partition → Prop) (f : Fsm) : Prop :=
  ∀ p, f.partitions = some p → ∀ q part, p.items.get q = some part → P q part

/-- What a property of a partition has to survive, with the servers that may get replicas
and the status commands that come. -/
structure Survives (S : Nat → Prop) (P : Nat → Partition → Prop) (comes : UpdateStatus → Prop) :
    Prop where
  empty : ∀ q part, (∀ name, part.replicas.get name = none) → P q part
  same : ∀ q part part', (∀ name, part'.replicas.get name = part.replicas.get name) →
    P q part → P q part'
  added : ∀ q part part' t sid state, Added t sid state part part' →
    state = .joining ∨ state.isServing = true → S sid → P q part → P q part'
  updated : ∀ q part part' t name state r, Updated t name state part part' →
    isValidReplicaTransition (some r) state = true → P q part → P q part'
  removed : ∀ q part part' name, Removed name part part' → P q part → P q part'
  reported : ∀ cmd q u part, comes cmd → cmd.partitions.lookup q = some u → P q part →
    P q (part.updateStatus u)

/-- **Invariant rule for the partitions**, one at a time. -/
theorem AllItems.step {P : Nat → Partition → Prop} {comes : UpdateStatus → Prop}
    (hP : Survives (DataServer f) P comes) {f' : Fsm} {a : Step} (hf : Sound f) (h : AllItems P f)
    (ha : ∀ cmd, a.payload = some (.updateStatus cmd) → comes cmd)
    (hstep : Control.step f a = some f') : AllItems P f' := by
  cases step_moves hstep with
  | idle a i v => exact h
  | bootstrap i v m t cmd hc =>
    intro p hp q part hq
    cases hp
    exact hP.empty q part (bootstrapPartitions_none hq)
  | register i v m t cmd s s' r _ _ _ => exact h
  | status i v m t cmd s p _ hp =>
    rcases hp with rfl | ⟨p₀, p₁, h₀, rfl, _, hi⟩
    · exact h
    intro p hp
    cases hp
    refine foldlM_invariant (fun m => ∀ q part, m.get q = some part → P q part) hi (h p₀ h₀)
      fun u hu m m' hm hx => (onPartition_touches hx).all hm fun part part' _ hk ho => ?_
    cases ho
    obtain ⟨e, he, rfl⟩ := List.mem_map.mp hu
    exact hP.reported cmd e.1 e.2 part (ha cmd rfl) ((mem_entries_iff _ _ _).mp he) hk
  | initAssignments i v m t cmd p items hp _ hv hi =>
    intro p' hp'
    cases hp'
    refine (foldlM_invariant (fun m => ItemsOk f.partitionCount m ∧
      ∀ q part, m.get q = some part → P q part) hi ⟨hf.items p hp, h p hp⟩
      fun x hmem m m' hm hx => ⟨hm.1.initAdd hx, ?_⟩).2
    exact (initAdd_touches hm.1.id hx).all hm.2 fun part part' _ hk hadd =>
      hP.added _ _ _ _ _ _ hadd (.inr x.state_isServing)
        ((validateInitAssignments_ok hv).server x hmem) hk
  | updateAssignments i v m t cmd p items hp _ hv hi =>
    obtain ⟨_, hadd, hupd, _⟩ := validateUpdateAssignments_ok.mp hv
    intro p' hp'
    cases hp'
    refine (changeItems_afterAdd (fun m => ∀ q part, m.get q = some part → P q part)
      (hf.items p hp) hi ?_ ?_ ?_ ?_).2
    · intro added hadds
      exact (foldlM_invariant (fun m => ItemsOk f.partitionCount m ∧
        ∀ q part, m.get q = some part → P q part) hadds ⟨hf.items p hp, h p hp⟩
        fun x hmem m m' hm hx => ⟨hm.1.addItem hx, (addItem_touches hm.1.id hx).all hm.2
          fun _ _ _ hk ha => hP.added _ _ _ _ _ _ ha (.inl rfl)
            (checkAdd_ok.mp (hadd x hmem)).2.1 hk⟩).2
    · intro x hx m m' hm hs
      obtain ⟨_, _, r, _, _, hvalid, _⟩ := checkUpdate_ok.mp (hupd x hx)
      exact (updateItem_touches hs).all hm fun _ _ _ hk hu =>
        hP.updated _ _ _ _ _ _ r hu hvalid hk
    · intro x _ m m' hm hs
      exact (removeItem_touches hs).all hm fun _ _ _ hk hr => hP.removed _ _ _ _ hr hk
    · intro pid m m' hm hs
      refine (bumpVersion_touches hs).all hm fun _ _ _ hk hb => hP.same _ _ _ (fun name => ?_) hk
      rw [hb.replicas]
  | restore =>
    intro p hp q part hq
    obtain ⟨p₀, h₀, rfl⟩ := Option.map_eq_some_iff.mp hp
    obtain ⟨part₀, hp₀, rfl⟩ := wire_items_get.mp hq
    exact hP.same _ _ _ (wire_replicas_get part₀) (h p₀ h₀ q part₀ hp₀)

/-! ## A small cluster -/

def command (i : Nat) (payload : Payload) : Entry := ⟨i, 0, some ⟨0, some payload⟩⟩

/-- One partition, and data servers with the ids 2 and 3. -/
def twoDataServers : List Step :=
  [.apply (command 1 (.bootstrap ⟨"scout", [⟨1, "boot_1", "10.0.0.1:5000", []⟩], 1⟩)),
   .apply (command 2 (.register ⟨.data, "a", "10.0.0.2:5000", []⟩)),
   .apply (command 3 (.register ⟨.data, "b", "10.0.0.3:5000", []⟩))]

def twoVoters : InitAssignments := ⟨[⟨0, 2, true⟩, ⟨0, 3, true⟩], 0⟩

def assignTwoVoters : Entry := command 4 (.initAssignments twoVoters)

end Scout.Control
