import Scout.Control.Assignments

/-!
Restarting the control state machine from a snapshot. A decoded snapshot has nil
maps where the maps were empty, and a nil map can be read but not written.

`fill` forgets the difference. Every command commutes with it, except that on the
state with the nil maps it may panic; the restart is transparent exactly as long as
no command writes to such a map.
-/

namespace Scout.Control

open Lib

/-! ## Filling the maps -/

def Partition.fill (p : Partition) : Partition := { p with replicas := p.replicas.fill }

def fillItems (items : GoMap Nat Partition) : GoMap Nat Partition :=
  (items.mapValues Partition.fill).fill

def Servers.fill (s : Servers) : Servers :=
  { s with items := s.items.fill, tokens := s.tokens.fill }

def Partitions.fill (p : Partitions) : Partitions := { p with items := fillItems p.items }

def Fsm.fill (f : Fsm) : Fsm :=
  { f with servers := f.servers.map Servers.fill, partitions := f.partitions.map Partitions.fill }

theorem get_fillItems (items : GoMap Nat Partition) (q : Nat) :
    (fillItems items).get q = (items.get q).map Partition.fill := by
  unfold fillItems
  rw [GoMap.get_fill, GoMap.get_mapValues]

theorem fillItems_store (items : GoMap Nat Partition) (q : Nat) (part : Partition) :
    fillItems (items.store q part) = (fillItems items).store q part.fill := by
  unfold fillItems
  rw [← GoMap.fill_store]
  cases items with
  | nil => rfl
  | made c =>
    show GoMap.made (GoMap.mapContent Partition.fill
      (if (c.lookup q).isSome then c.insert q part else c)) = GoMap.made
      (if ((GoMap.mapContent Partition.fill c).lookup q).isSome then
        (GoMap.mapContent Partition.fill c).insert q part.fill
        else GoMap.mapContent Partition.fill c)
    rw [GoMap.lookup_mapContent, Option.isSome_map]
    split
    · rw [GoMap.mapContent_insert]
    · rfl

@[simp] theorem Partition.fill_wire (p : Partition) : p.wire.fill = p.fill := by
  unfold Partition.wire Partition.fill
  rw [GoMap.fill_wire]

@[simp] theorem Partition.wire_fill (p : Partition) : p.fill.wire = p.wire := by
  unfold Partition.wire Partition.fill
  rw [GoMap.wire_fill]

theorem Partitions.fill_wire (p : Partitions) : p.wire.fill = p.fill := by
  unfold Partitions.wire Partitions.fill fillItems
  congr 1
  show GoMap.made _ = GoMap.made _
  rw [GoMap.content_mapValues, GoMap.content_mapValues]
  have hw : ((p.items.mapValues Partition.wire).wire).content =
      (p.items.mapValues Partition.wire).content := by
    have h := GoMap.fill_wire (p.items.mapValues Partition.wire)
    exact GoMap.made.inj h
  rw [hw, GoMap.content_mapValues, GoMap.mapContent_mapContent]
  congr 2
  funext part
  exact part.fill_wire

theorem Partitions.wire_fill (p : Partitions) : p.fill.wire = p.wire := by
  unfold Partitions.wire Partitions.fill fillItems
  congr 1
  rw [← GoMap.wire_fill, ← GoMap.wire_fill (p.items.mapValues Partition.wire)]
  congr 1
  show GoMap.made _ = GoMap.made _
  rw [GoMap.content_mapValues, GoMap.content_mapValues, GoMap.content_fill,
    GoMap.content_mapValues, GoMap.mapContent_mapContent]
  congr 2
  funext part
  exact part.wire_fill

theorem fill_snapshot (f : Fsm) : (snapshot f).fill = f.fill := by
  unfold snapshot Fsm.fill
  simp only [Option.map_map, Function.comp_def, Partitions.fill_wire]
  congr 2
  funext s
  simp only [Servers.fill, Servers.wire, GoMap.fill_wire]

theorem snapshot_fill (f : Fsm) : snapshot f.fill = snapshot f := by
  unfold snapshot Fsm.fill
  simp only [Option.map_map, Function.comp_def, Partitions.wire_fill]
  congr 2
  funext s
  simp only [Servers.fill, Servers.wire, GoMap.wire_fill]

/-! ## Checks only read -/

theorem isValidDataServer_fill (f : Fsm) (sid : Nat) :
    isValidDataServer f.fill sid = isValidDataServer f sid := by
  unfold isValidDataServer Fsm.fill
  cases f.servers <;> rfl

theorem checkAdd_fill (f : Fsm) (p : Partitions) (x : Add) :
    checkAdd f.fill p.fill x = checkAdd f p x := by
  unfold checkAdd
  rw [isValidDataServer_fill]
  show (rejectIf (¬isValidPartitionId f x.partitionId = true) _ >>= fun _ => _ >>= fun b =>
    rejectIf (¬b = true) _ >>= fun _ => deref ((fillItems p.items).get x.partitionId) >>= _) = _
  rw [get_fillItems]
  cases p.items.get x.partitionId <;> rfl

theorem checkUpdate_fill (f : Fsm) (p : Partitions) (x : Update) :
    checkUpdate f.fill p.fill x = checkUpdate f p x := by
  unfold checkUpdate
  show (rejectIf (¬isValidPartitionId f x.partitionId = true) _ >>= fun _ =>
    deref ((fillItems p.items).get x.partitionId) >>= _) = _
  rw [get_fillItems]
  cases p.items.get x.partitionId <;> rfl

theorem checkRemove_fill (f : Fsm) (p : Partitions) (x : Remove) :
    checkRemove f.fill p.fill x = checkRemove f p x := by
  unfold checkRemove
  show (rejectIf (¬isValidPartitionId f x.partitionId = true) _ >>= fun _ =>
    deref ((fillItems p.items).get x.partitionId) >>= _) = _
  rw [get_fillItems]
  cases p.items.get x.partitionId <;> rfl

theorem validateUpdateAssignments_fill (f : Fsm) (p : Partitions) (cmd : UpdateAssignments) :
    validateUpdateAssignments f.fill p.fill cmd = validateUpdateAssignments f p cmd := by
  unfold validateUpdateAssignments
  rw [funext (checkAdd_fill f p), funext (checkUpdate_fill f p), funext (checkRemove_fill f p)]

theorem validateInitAssignments_fill (f : Fsm) (cmd : InitAssignments) :
    validateInitAssignments f.fill cmd = validateInitAssignments f cmd := by
  have hcheck : initCheck f.fill = initCheck f := by
    funext seen x
    unfold initCheck
    rw [isValidDataServer_fill]
    rfl
  unfold validateInitAssignments
  rw [hcheck]
  rfl

/-! ## Commands commute with filling -/

def nilAt (items : GoMap Nat Partition) (q : Nat) : Bool :=
  (items.get q).any fun part => part.replicas.isNil

variable {N : Prop} {items : GoMap Nat Partition} {pid : Nat}

theorem onPartition_lifts {op op' : Partition → Go ApplyError Partition}
    (h : ∀ part, items.get pid = some part → Lifts N Partition.fill (op part) (op' part.fill)) :
    Lifts N fillItems (onPartition items pid op) (onPartition (fillItems items) pid op') := by
  unfold onPartition
  rw [get_fillItems]
  refine (Lifts.deref (items.get pid)).bind fun part hp => ?_
  refine (h part (deref_eq_ok.mp hp)).bind fun part' _ => ?_
  rw [← fillItems_store]
  exact Lifts.ok _

variable {items' : GoMap Nat Partition} {q : Nat}

theorem Touches.nilAt {R : Partition → Partition → Prop} (h : Touches items items' pid R)
    (hR : ∀ part part', R part part' → part'.replicas.isNil = true → part.replicas.isNil = true)
    (hq : nilAt items' q = true) : nilAt items q = true := by
  obtain ⟨part, part', hg, hr, hi⟩ := h
  unfold Control.nilAt at hq ⊢
  rw [hi] at hq
  by_cases he : q = pid
  · rw [if_pos he] at hq
    rw [he, hg]
    exact hR part part' hr hq
  · rw [if_neg he] at hq
    exact hq

theorem nextReplicaName_lifts (items : GoMap Nat Partition) (pid : Nat) :
    Lifts N (Prod.map fillItems id) (nextReplicaName items pid)
      (nextReplicaName (fillItems items) pid) := by
  unfold nextReplicaName
  rw [get_fillItems]
  refine (Lifts.deref (items.get pid)).bind fun part _ => ?_
  show Except.ok _ = Except.ok _
  rw [Prod.map, fillItems_store]
  rfl

theorem nextReplicaName_nilAt {name : String} (h : nextReplicaName items pid = .ok (items', name))
    (hq : nilAt items' q = true) : nilAt items q = true := by
  obtain ⟨part, hg, h⟩ := bind_eq_ok.mp h
  cases h
  rw [deref_eq_ok] at hg
  unfold nilAt at hq ⊢
  rw [GoMap.get_store, hg] at hq
  by_cases he : q = pid
  · rw [if_pos he] at hq
    rw [he, hg]
    exact hq
  · rw [if_neg he] at hq
    exact hq

section AddReplica

variable {N : Prop} {t : Time} {items items' : GoMap Nat Partition} {pid sid : Nat}
  {state : ReplicaState}

theorem addReplica_lifts (hN : nilAt items pid = true → N) :
    Lifts N fillItems (addReplica t items pid sid state)
      (addReplica t (fillItems items) pid sid state) := by
  unfold addReplica
  rw [get_fillItems]
  refine (Lifts.deref (items.get pid)).bind fun part _ => ?_
  refine (nextReplicaName_lifts items part.id).bind fun ⟨items₁, name⟩ h₁ => ?_
  refine onPartition_lifts fun part₁ hp₁ => ?_
  have hnil : part₁.replicas.isNil = true → N := by
    intro hn
    exact hN (nextReplicaName_nilAt h₁ (by unfold nilAt; rw [hp₁]; exact hn))
  refine (GoMap.lifts_set hnil name _).bind fun rs _ => ?_
  exact Lifts.ok _

theorem addReplica_nilAt (h : addReplica t items pid sid state = .ok items') {q : Nat}
    (hq : nilAt items' q = true) : nilAt items q = true := by
  obtain ⟨part, _, h⟩ := bind_eq_ok.mp h
  obtain ⟨⟨items₁, name⟩, h₁, h⟩ := bind_eq_ok.mp h
  refine nextReplicaName_nilAt h₁ ((onPartition_touches h).nilAt (fun part part' ho hn => ?_) hq)
  obtain ⟨rs, hs, ho⟩ := bind_eq_ok.mp ho
  cases ho
  cases hr : part.replicas with
  | nil => rfl
  | made c =>
    rw [hr] at hs
    cases hs
    cases hn

theorem addReplica_made (hid : ∀ part, items.get pid = some part → part.id = pid)
    (h : addReplica t items pid sid state = .ok items') : nilAt items pid = false := by
  obtain ⟨part, hg, h⟩ := bind_eq_ok.mp h
  obtain ⟨⟨items₁, name⟩, h₁, h⟩ := bind_eq_ok.mp h
  rw [deref_eq_ok] at hg
  obtain ⟨part₀, hg₀, h₁⟩ := bind_eq_ok.mp h₁
  rw [deref_eq_ok, hid part hg, hg] at hg₀
  cases hg₀
  cases h₁
  obtain ⟨part₁, hg₁, h⟩ := bind_eq_ok.mp h
  obtain ⟨_, h, _⟩ := bind_eq_ok.mp h
  obtain ⟨rs, hset, _⟩ := bind_eq_ok.mp h
  rw [deref_eq_ok, GoMap.get_store, if_pos (hid part hg).symm, hid part hg, hg] at hg₁
  cases hg₁
  unfold nilAt
  rw [hg]
  cases hr : part.replicas with
  | nil =>
    rw [hr] at hset
    cases hset
  | made c => simp [hr, GoMap.isNil]

end AddReplica

variable {t : Time}

theorem initAdd_lifts {x : InitAdd} (hN : nilAt items x.partitionId = true → N) :
    Lifts N fillItems (initAdd t items x) (initAdd t (fillItems items) x) := by
  refine (addReplica_lifts hN).bind fun items₁ _ => ?_
  exact onPartition_lifts fun part _ => Lifts.ok _

theorem initAdd_nilAt {x : InitAdd} (h : initAdd t items x = .ok items')
    (hq : nilAt items' q = true) : nilAt items q = true := by
  obtain ⟨items₁, h₁, h⟩ := bind_eq_ok.mp h
  refine addReplica_nilAt h₁ ((onPartition_touches h).nilAt (fun part part' ho hn => ?_) hq)
  cases ho
  exact hn

theorem initLoop_lifts {xs : List InitAdd} (hN : ∀ x ∈ xs, nilAt items x.partitionId = true → N) :
    Lifts N fillItems (xs.foldlM (initAdd t) items) (xs.foldlM (initAdd t) (fillItems items)) :=
  Lifts.foldlM (fun m => ∀ q, nilAt m q = true → nilAt items q = true) (fun _ h => h)
    (fun _ _ _ _ hm hx q hq => hm q (initAdd_nilAt hx hq))
    fun x hx _ hm => initAdd_lifts fun hn => hN x hx (hm _ hn)

theorem updateItem_lifts (items : GoMap Nat Partition) (x : Update) :
    Lifts N fillItems (updateItem t items x) (updateItem t (fillItems items) x) := by
  refine onPartition_lifts fun part _ => ?_
  refine Lifts.bind_same fun r _ => ?_
  exact congrArg (fun rs => Except.ok { part with replicas := rs })
    (GoMap.fill_store part.replicas x.replica _).symm

theorem removeItem_lifts (items : GoMap Nat Partition) (x : Remove) :
    Lifts N fillItems (removeItem items x) (removeItem (fillItems items) x) := by
  refine onPartition_lifts fun part _ => ?_
  exact congrArg (fun rs => Except.ok { part with replicas := rs })
    (GoMap.fill_delete part.replicas x.replica).symm

theorem bumpVersion_lifts (items : GoMap Nat Partition) (pid : Nat) :
    Lifts N fillItems (bumpVersion items pid) (bumpVersion (fillItems items) pid) :=
  onPartition_lifts fun _ _ => Lifts.ok _

/-- Only the additions write to a map. -/
theorem changeItems_lifts {cmd : UpdateAssignments}
    (hN : ∀ x ∈ cmd.add, nilAt items x.partitionId = true → N) :
    Lifts N fillItems (changeItems t items cmd) (changeItems t (fillItems items) cmd) := by
  have hadd : Lifts N fillItems (cmd.add.foldlM (addItem t) items)
      (cmd.add.foldlM (addItem t) (fillItems items)) :=
    Lifts.foldlM (fun m => ∀ q, nilAt m q = true → nilAt items q = true) (fun _ h => h)
      (fun _ _ _ _ hm hx q hq => hm q (addReplica_nilAt hx hq))
      fun x hx _ hm => addReplica_lifts fun hn => hN x hx (hm _ hn)
  refine hadd.bind fun added _ => ?_
  refine (Lifts.foldlM_of_forall updateItem_lifts cmd.update added).bind fun updated _ => ?_
  refine (Lifts.foldlM_of_forall removeItem_lifts cmd.remove updated).bind fun removed _ => ?_
  exact Lifts.foldlM_of_forall bumpVersion_lifts cmd.changed removed

/-! ### Status -/

theorem updateServer_fill (items : GoMap Nat Server) (id : Nat) (u : ServerStatus) :
    (updateServer items id u).fill = updateServer items.fill id u := by
  unfold updateServer
  rw [GoMap.get_fill]
  cases items.get id with
  | none => rfl
  | some server => exact GoMap.fill_store _ _ _

theorem updateReplica_fill (rs : GoMap String Replica) (name : String) (u : ReplicaStatus) :
    (updateReplica rs name u).fill = updateReplica rs.fill name u := by
  unfold updateReplica
  rw [GoMap.get_fill]
  cases rs.get name with
  | none => rfl
  | some replica => exact GoMap.fill_store _ _ _

theorem updateStatus_fill (part : Partition) (u : PartitionStatus) :
    (part.updateStatus u).fill = part.fill.updateStatus u := by
  have loop : u.replicas.entries.foldl (fun rs e => updateReplica rs e.1 e.2) part.replicas.fill =
      (u.replicas.entries.foldl (fun rs e => updateReplica rs e.1 e.2) part.replicas).fill :=
    List.foldl_hom GoMap.fill fun rs e => (updateReplica_fill rs e.1 e.2).symm
  exact congrArg (fun rs => { part.updateStatus u with replicas := rs }) loop.symm

theorem updateServersStatus_lifts (s : Option Servers) (us : List (Nat × ServerStatus)) :
    Lifts N (Option.map Servers.fill) (updateServersStatus s us)
      (updateServersStatus (s.map Servers.fill) us) := by
  unfold updateServersStatus
  split
  · exact Lifts.ok _
  refine (Lifts.deref s).bind fun s₀ _ => ?_
  have loop : us.foldl (fun m u => updateServer m u.1 u.2) s₀.items.fill =
      (us.foldl (fun m u => updateServer m u.1 u.2) s₀.items).fill :=
    List.foldl_hom GoMap.fill fun m u => (updateServer_fill m u.1 u.2).symm
  exact congrArg
    (fun m => Except.ok (some { s₀.fill with version := s₀.version + 1, items := m })) loop

theorem statusItem_lifts (items : GoMap Nat Partition) (u : Nat × PartitionStatus) :
    Lifts N fillItems (statusItem items u) (statusItem (fillItems items) u) := by
  refine onPartition_lifts fun part _ => ?_
  rw [← updateStatus_fill]
  exact Lifts.ok _

theorem updatePartitionsStatus_lifts (p : Option Partitions) (us : List (Nat × PartitionStatus)) :
    Lifts N (Option.map Partitions.fill) (updatePartitionsStatus p us)
      (updatePartitionsStatus (p.map Partitions.fill) us) := by
  unfold updatePartitionsStatus
  split
  · exact Lifts.ok _
  · refine (Lifts.deref p).bind fun p₀ _ => ?_
    exact (Lifts.foldlM_of_forall statusItem_lifts us p₀.items).bind fun items _ => Lifts.ok _

/-! ### Bootstrap -/

theorem bootstrapServers_fill (t : Time) (servers : List BootstrapServer) :
    (bootstrapServers t servers).fill = bootstrapServers t servers := by
  exact List.foldlRecOn (motive := fun s : Servers => s.fill = s) _ _ rfl fun s hs x _ => by
    have ht : s.tokens.fill = s.tokens := congrArg Servers.tokens hs
    unfold Servers.fill
    rw [ht]
    rfl

theorem bootstrapPartitions_fill (count : Nat) :
    (bootstrapPartitions count).fill = bootstrapPartitions count := by
  unfold bootstrapPartitions Partitions.fill
  congr 1
  show GoMap.made (GoMap.mapContent Partition.fill _) = GoMap.made _
  congr 1
  exact List.foldlRecOn (motive := fun c : AList fun _ : Nat => Partition =>
    GoMap.mapContent Partition.fill c = c) _ _ rfl fun c hc id _ => by
      rw [GoMap.mapContent_insert, hc]
      rfl

/-! ## Applying an entry -/

/-- The command writes to no nil map: a new server is registered only where there
are servers and tokens, and a replica is added only where there are replicas. -/
def PayloadNilSafe (f : Fsm) : Option Payload → Prop
  | some (.register cmd) => ∀ s ∈ f.servers, s.tokens.get cmd.token = none →
      s.items.isNil = false ∧ s.tokens.isNil = false
  | some (.initAssignments cmd) => ∀ p ∈ f.partitions, p.hasAssignments = false →
      validateInitAssignments f cmd = .ok () → ∀ x ∈ cmd.add, nilAt p.items x.partitionId = false
  | some (.updateAssignments cmd) => ∀ p ∈ f.partitions,
      validateUpdateAssignments f p cmd = .ok () →
      ∀ x ∈ cmd.add, nilAt p.items x.partitionId = false
  | some (.bootstrap _) | some (.updateStatus _) | none => True

instance PayloadNilSafe.decidable (f : Fsm) : ∀ o, Decidable (PayloadNilSafe f o)
  | some (.register _) => inferInstanceAs (Decidable (∀ s ∈ f.servers, _ = _ → _ ∧ _))
  | some (.initAssignments cmd) =>
    inferInstanceAs (Decidable (∀ p ∈ f.partitions, _ = _ → _ = _ → ∀ x ∈ cmd.add, _ = _))
  | some (.updateAssignments cmd) =>
    inferInstanceAs (Decidable (∀ p ∈ f.partitions, _ = _ → ∀ x ∈ cmd.add, _ = _))
  | some (.bootstrap _) | some (.updateStatus _) | none => isTrue trivial

theorem registerNew_lifts {s : Servers} (t : Time) (cmd : Register)
    (hitems : s.items.isNil = true → N) (htokens : s.tokens.isNil = true → N) :
    Lifts N (Prod.map Servers.fill id) (registerNew s t cmd) (registerNew s.fill t cmd) := by
  refine (GoMap.lifts_set hitems _ _).bind fun items _ => ?_
  exact (GoMap.lifts_set htokens _ _).bind fun tokens _ => Lifts.ok _

/-- A command on the filled state: the answer is the same, and so is the filled
outcome, unless the command writes to a nil map. -/
theorem applyPayload_lifts (f : Fsm) (t : Time) (payload : Payload) :
    Lifts (¬PayloadNilSafe f (some payload)) (Prod.map Fsm.fill id)
      (applyPayload f t payload) (applyPayload f.fill t payload) := by
  cases payload with
  | bootstrap cmd =>
    show Lifts _ _ (applyBootstrap f t cmd) (applyBootstrap f.fill t cmd)
    unfold applyBootstrap
    by_cases hc : f.clusterName = ""
    · rw [if_neg (not_not.mpr hc), if_neg (not_not.mpr (show f.fill.clusterName = "" from hc))]
      show Except.ok _ = Except.ok _
      simp [Fsm.fill, bootstrapServers_fill, bootstrapPartitions_fill]
    · rw [if_pos hc, if_pos (show f.fill.clusterName ≠ "" from hc)]
      exact Lifts.ok _
  | register cmd =>
    show Lifts _ _ (applyRegister f t cmd) (applyRegister f.fill t cmd)
    refine (Lifts.deref f.servers).bind fun s hs => ?_
    rw [deref_eq_ok] at hs
    rw [show s.fill.tokens.get cmd.token = s.tokens.get cmd.token from rfl]
    cases ht : s.tokens.get cmd.token with
    | some id =>
      refine Lifts.bind_same fun server _ => ?_
      refine Lifts.bind_same fun _ _ => ?_
      exact Lifts.ok _
    | none =>
      have hnew := registerNew_lifts (N := ¬PayloadNilSafe f (some (.register cmd))) (s := s) t cmd
        (fun hn hsafe => by rw [(hsafe s hs ht).1] at hn; cases hn)
        (fun hn hsafe => by rw [(hsafe s hs ht).2] at hn; cases hn)
      refine hnew.bind fun r _ => ?_
      cases r
      exact Lifts.ok _
  | updateStatus cmd =>
    show Lifts _ _ (applyUpdateStatus f cmd) (applyUpdateStatus f.fill cmd)
    refine (updateServersStatus_lifts f.servers _).bind fun s _ => ?_
    refine (updatePartitionsStatus_lifts f.partitions _).bind fun p _ => Lifts.ok _
  | initAssignments cmd =>
    show Lifts _ _ (applyInitAssignments f t cmd) (applyInitAssignments f.fill t cmd)
    unfold applyInitAssignments
    rw [validateInitAssignments_fill]
    refine (Lifts.deref f.partitions).bind fun p hp => ?_
    rw [deref_eq_ok] at hp
    refine Lifts.bind_same fun _ hn => ?_
    refine Lifts.bind_same fun _ hv => ?_
    rw [rejectIf_ok, Bool.not_eq_true] at hn
    refine (initLoop_lifts fun x hx hnil hsafe => ?_).bind fun items _ => Lifts.ok _
    rw [hsafe p hp hn hv x hx] at hnil
    cases hnil
  | updateAssignments cmd =>
    show Lifts _ _ (applyUpdateAssignments f t cmd) (applyUpdateAssignments f.fill t cmd)
    refine (Lifts.deref f.partitions).bind fun p hp => ?_
    rw [deref_eq_ok] at hp
    rw [validateUpdateAssignments_fill]
    refine Lifts.bind_same fun _ _ => ?_
    refine Lifts.bind_same fun _ hn => ?_
    refine Lifts.bind_same fun _ hv => ?_
    refine (changeItems_lifts fun x hx hnil hsafe => ?_).bind fun items _ => Lifts.ok _
    rw [hsafe p hp hv x hx] at hnil
    cases hnil

theorem applyCommand_lifts (f : Fsm) (t : Time) (cmd : Command) :
    Lifts (¬PayloadNilSafe f cmd.payload) (Prod.map Fsm.fill id)
      (applyCommand f t cmd) (applyCommand f.fill t cmd) := by
  refine Lifts.bind_same fun _ _ => ?_
  refine Lifts.bind_same fun payload hp => ?_
  rw [deref_eq_ok] at hp
  rw [hp]
  exact (applyPayload_lifts f t payload).bind fun ⟨f', r⟩ _ => Lifts.ok _

/-- No nil map is written when the entry is applied. -/
def NilSafe (f : Fsm) (e : Entry) : Prop := PayloadNilSafe f (e.data.bind Command.payload)
  deriving Decidable

variable {f : Fsm} {f' : Fsm} {e : Entry}

/-- What a state does without a panic, its filled state does. -/
theorem apply_fill {a : Answer} (h : apply f e = some (f', a)) :
    apply f.fill e = some (f'.fill, a) := by
  unfold apply at h ⊢
  cases hd : e.data with
  | none =>
    rw [hd] at h
    cases h
    rfl
  | some cmd =>
    rw [hd] at h
    have hl := applyCommand_lifts f e.appendedAt cmd
    dsimp only at h ⊢
    cases hc : applyCommand f e.appendedAt cmd with
    | ok r =>
      rw [hc] at h hl
      rw [show applyCommand f.fill e.appendedAt cmd = _ from hl]
      cases h
      rfl
    | error x =>
      rw [hc] at h hl
      cases x with
      | panic => cases h
      | err err =>
        rw [show applyCommand f.fill e.appendedAt cmd = _ from hl]
        cases h
        rfl

/-- A state that does not write to a nil map panics only where its filled state
does. -/
theorem apply_of_fill {F : Fsm} {a : Answer} (hsafe : NilSafe f e)
    (h : apply f.fill e = some (F, a)) : ∃ f', apply f e = some (f', a) ∧ f'.fill = F := by
  cases hf : apply f e with
  | some r =>
    obtain ⟨f', a'⟩ := r
    rw [apply_fill hf] at h
    cases h
    exact ⟨f', rfl, rfl⟩
  | none =>
    exfalso
    unfold apply at hf h
    cases hd : e.data with
    | none =>
      rw [hd] at hf
      cases hf
    | some cmd =>
      rw [NilSafe, hd] at hsafe
      rw [hd] at hf h
      have hl := applyCommand_lifts f e.appendedAt cmd
      dsimp only at hf h
      split at hf
      · cases hf
      · cases hf
      next hc =>
      rw [hc] at hl
      rcases hl with hl | hl
      · rw [hl] at h
        cases h
      · exact hl hsafe

/-! ## Runs -/

def applyAll : Fsm → List Entry → Option (Fsm × List Answer)
  | f, [] => some (f, [])
  | f, e :: es => do
    let (f, a) ← apply f e
    let (f, as) ← applyAll f es
    return (f, a :: as)

/-- One step of the state machine as a system of entries only. -/
def applyStep (f : Fsm) (e : Entry) : Option Fsm := (apply f e).map Prod.fst

theorem applyAll_cons {es : List Entry} {as : List Answer} :
    applyAll f (e :: es) = some (f', as) ↔ ∃ f₁ a as₁, apply f e = some (f₁, a) ∧
      applyAll f₁ es = some (f', as₁) ∧ as = a :: as₁ := by
  show ((apply f e).bind fun r => (applyAll r.1 es).bind fun r' => some (r'.1, r.2 :: r'.2)) =
    some (f', as) ↔ _
  constructor
  · intro h
    obtain ⟨⟨f₁, a⟩, h₁, h⟩ := Option.bind_eq_some_iff.mp h
    obtain ⟨⟨f₂, as₁⟩, h₂, h⟩ := Option.bind_eq_some_iff.mp h
    cases h
    exact ⟨f₁, a, as₁, h₁, h₂, rfl⟩
  · rintro ⟨f₁, a, as₁, h₁, h₂, rfl⟩
    rw [h₁, Option.bind_some, h₂]
    rfl

/-- Two states that differ only in nil maps give the same answers and end in states
that differ only in nil maps. -/
theorem applyAll_same {g : Fsm} {es : List Entry} {as : List Answer} (hfg : f.fill = g.fill)
    (hsafe : StepsMeet applyStep NilSafe g es) (hf : applyAll f es = some (f', as)) :
    ∃ g', applyAll g es = some (g', as) ∧ f'.fill = g'.fill := by
  induction es generalizing f g as with
  | nil =>
    cases hf
    exact ⟨g, rfl, hfg⟩
  | cons e es ih =>
    obtain ⟨f₁, a, as₁, h₁, h₂, rfl⟩ := applyAll_cons.mp hf
    have hfill := apply_fill h₁
    rw [hfg] at hfill
    obtain ⟨g₁, hg₁, hfg₁⟩ := apply_of_fill hsafe.1 hfill
    have hrest : StepsMeet applyStep NilSafe g₁ es := by
      have h := hsafe.2
      rw [show applyStep g e = some g₁ by rw [applyStep, hg₁]; rfl] at h
      exact h
    obtain ⟨g', hg', hfg'⟩ := ih hfg₁.symm hrest h₂
    exact ⟨g', applyAll_cons.mpr ⟨g₁, a, as₁, hg₁, hg', rfl⟩, hfg'⟩

/-- **Transparent restart.** Where a run does not panic, a state machine restored
from a snapshot taken before the run gives the same answers, does not panic and ends
in the same cluster state, as long as it writes to no map that the snapshot has
decoded as nil. -/
theorem restore_transparent {f f' : Fsm} {es : List Entry} {as : List Answer}
    (hrun : applyAll f es = some (f', as))
    (hsafe : StepsMeet applyStep NilSafe (restore newFsm (snapshot f)) es) :
    ∃ g', applyAll (restore newFsm (snapshot f)) es = some (g', as) ∧
      snapshot g' = snapshot f' := by
  obtain ⟨g', hg', hfg⟩ := applyAll_same (fill_snapshot f).symm hsafe hrun
  refine ⟨g', hg', ?_⟩
  rw [← snapshot_fill g', ← hfg, snapshot_fill]

/-- A bootstrapped cluster in which no server has registered. -/
def bootstrapped : Option Fsm :=
  runSteps step newFsm [.apply (command 1
    (.bootstrap ⟨"scout", [⟨1, "boot_1", "10.0.0.1:5000", []⟩], 1⟩))]

def firstRegister : Entry := command 2 (.register ⟨.data, "a", "10.0.0.2:5000", []⟩)

/-- The first registration after a restart writes to the nil map of tokens. -/
theorem firstRegister_panics : ∃ f f', bootstrapped = some f ∧
    applyAll f [firstRegister] = some (f', [.ok (.registered 2 "data_2")]) ∧
    applyAll (restore newFsm (snapshot f)) [firstRegister] = none :=
  ⟨_, _, rfl, rfl, rfl⟩

/-- A registration and an assignment after the restart of an assigned cluster. -/
def laterCommands : List Entry :=
  [command 5 (.register ⟨.data, "c", "10.0.0.4:5000", []⟩),
   command 6 (.updateAssignments ⟨0, [⟨0, 4⟩], [⟨0, "p0_r1", .leaving⟩], [], 0⟩)]

theorem restore_transparent_laterCommands : ∃ f f' : Fsm,
    runSteps step newFsm (twoDataServers ++ [.apply assignTwoVoters]) = some f ∧
    applyAll f laterCommands = some (f', [.ok (.registered 4 "data_4"), .ok (.updated 2)]) ∧
    ∃ g', applyAll (restore newFsm (snapshot f)) laterCommands =
        some (g', [.ok (.registered 4 "data_4"), .ok (.updated 2)]) ∧
      snapshot g' = snapshot f' := by
  refine ⟨_, _, rfl, rfl, ?_⟩
  exact restore_transparent rfl (by decide)

end Scout.Control
