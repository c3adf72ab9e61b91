import Scout.Control.Fsm

/-!
What the functions of the control state machine do, once for each of them: when
a check passes, how an item of a command changes its partition, and what a step
does to the state.
-/

namespace Scout.Control

open Lib

/-! ## Checks -/

def DataServer (f : Fsm) (sid : Nat) : Prop :=
  ∃ s server, f.servers = some s ∧ s.items.get sid = some server ∧ server.type = .data

variable {f : Fsm} {sid : Nat}

theorem isValidDataServer_true : isValidDataServer f sid = .ok true ↔ DataServer f sid := by
  unfold isValidDataServer DataServer
  rw [bind_eq_ok]
  constructor
  · rintro ⟨s, hs, h⟩
    cases hg : s.items.get sid with
    | none =>
      rw [hg] at h
      cases h
    | some server =>
      rw [hg] at h
      have ht : (server.type == .data) = true := Except.ok.inj h
      exact ⟨s, server, deref_eq_ok.mp hs, hg, eq_of_beq ht⟩
  · rintro ⟨s, server, hs, hg, ht⟩
    refine ⟨s, deref_eq_ok.mpr hs, ?_⟩
    rw [hg]
    simp [ht, pure, Except.pure]

variable {e : ApplyError}

@[simp] theorem rejectIf_ok {c : Prop} [Decidable c] : rejectIf c e = .ok () ↔ ¬c := by
  unfold rejectIf
  by_cases h : c
  · rw [if_pos h]
    exact ⟨nofun, fun hc => absurd h hc⟩
  · rw [if_neg h]
    exact ⟨fun _ => h, fun _ => rfl⟩

variable {pid : Nat}

theorem isValidPartitionId_iff :
    isValidPartitionId f pid = true ↔ pid < f.partitionCount := decide_eq_true_iff

theorem rejectIf_bind {α : Type} {c : Prop} [Decidable c] {k : Unit → Go ApplyError α} {a : α} :
    (rejectIf c e >>= k) = .ok a ↔ ¬c ∧ k () = .ok a := by
  rw [bind_eq_ok]
  constructor
  · rintro ⟨_, h, hk⟩
    exact ⟨rejectIf_ok.mp h, hk⟩
  · rintro ⟨h, hk⟩
    exact ⟨(), rejectIf_ok.mpr h, hk⟩

theorem dataServer_bind {α : Type} {k : Unit → Go ApplyError α} {a : α} :
    (isValidDataServer f sid >>= fun b => rejectIf (¬b = true) e >>= k) = .ok a ↔
      DataServer f sid ∧ k () = .ok a := by
  rw [bind_eq_ok, ← isValidDataServer_true]
  constructor
  · rintro ⟨b, hb, h⟩
    obtain ⟨hn, hk⟩ := rejectIf_bind.mp h
    rw [not_not] at hn
    subst hn
    exact ⟨hb, hk⟩
  · rintro ⟨hb, hk⟩
    exact ⟨true, hb, rejectIf_bind.mpr ⟨by simp, hk⟩⟩

variable {p : Partitions}

theorem checkAdd_ok {x : Add} :
    checkAdd f p x = .ok () ↔ x.partitionId < f.partitionCount ∧ DataServer f x.serverId ∧
      ∃ part, p.items.get x.partitionId = some part ∧ part.replicaForServer x.serverId = none := by
  unfold checkAdd
  rw [rejectIf_bind, not_not, isValidPartitionId_iff, dataServer_bind]
  simp only [bind_eq_ok, deref_eq_ok, rejectIf_ok, Bool.not_eq_true,
    Option.isSome_eq_false_iff, Option.isNone_iff_eq_none]

theorem checkUpdate_ok {x : Update} :
    checkUpdate f p x = .ok () ↔ x.partitionId < f.partitionCount ∧
      ∃ part r, p.items.get x.partitionId = some part ∧ part.replicas.get x.replica = some r ∧
        isValidReplicaTransition (some r) x.state = true ∧
        ¬(¬x.state.isServing ∧ part.servingReplicaCount = 1 ∧ r.state.isServing) := by
  unfold checkUpdate
  rw [rejectIf_bind, not_not, isValidPartitionId_iff, bind_eq_ok]
  refine and_congr_right fun _ => exists_congr fun part => ?_
  rw [deref_eq_ok, rejectIf_bind, rejectIf_bind, rejectIf_ok, not_not]
  cases hr : part.replicas.get x.replica with
  | none => simp
  | some r => simp

theorem checkRemove_ok {x : Remove} :
    checkRemove f p x = .ok () ↔ x.partitionId < f.partitionCount ∧
      ∃ part r, p.items.get x.partitionId = some part ∧ part.replicas.get x.replica = some r ∧
        r.state = .leaving := by
  unfold checkRemove
  rw [rejectIf_bind, not_not, isValidPartitionId_iff, bind_eq_ok]
  refine and_congr_right fun _ => exists_congr fun part => ?_
  rw [deref_eq_ok, rejectIf_bind, bind_eq_ok]
  cases hr : part.replicas.get x.replica with
  | none => simp
  | some r => simp

variable {cmd : UpdateAssignments}

theorem validateUpdateAssignments_ok :
    validateUpdateAssignments f p cmd = .ok () ↔ cmd.isEmpty = false ∧
      (∀ x ∈ cmd.add, checkAdd f p x = .ok ()) ∧ (∀ x ∈ cmd.update, checkUpdate f p x = .ok ()) ∧
      ∀ x ∈ cmd.remove, checkRemove f p x = .ok () := by
  unfold validateUpdateAssignments
  rw [rejectIf_bind, Bool.not_eq_true, ← forM_eq_ok, ← forM_eq_ok, ← forM_eq_ok, bind_eq_ok]
  refine and_congr_right fun _ => ?_
  constructor
  · rintro ⟨_, ha, h⟩
    obtain ⟨_, hu, hr⟩ := bind_eq_ok.mp h
    exact ⟨ha, hu, hr⟩
  · rintro ⟨ha, hu, hr⟩
    exact ⟨(), ha, bind_eq_ok.mpr ⟨(), hu, hr⟩⟩

/-! ## Items -/

/-- A command item replaces one partition by a related one. -/
def Touches (items items' : GoMap Nat Partition) (pid : Nat)
    (R : Partition → Partition → Prop) : Prop :=
  ∃ part part', items.get pid = some part ∧ R part part' ∧
    ∀ q, items'.get q = if q = pid then some part' else items.get q

variable {items items' : GoMap Nat Partition} {R : Partition → Partition → Prop}

theorem Touches.all (h : Touches items items' pid R) {P : Nat → Partition → Prop}
    (hP : ∀ q part, items.get q = some part → P q part)
    (hR : ∀ part part', items.get pid = some part → P pid part → R part part' → P pid part') :
    ∀ q part, items'.get q = some part → P q part := by
  obtain ⟨part, part', hg, hr, hi⟩ := h
  intro q part₁ h₁
  rw [hi] at h₁
  by_cases hq : q = pid
  · rw [if_pos hq] at h₁
    cases h₁
    subst hq
    exact hR part part' hg (hP q part hg) hr
  · rw [if_neg hq] at h₁
    exact hP q part₁ h₁

theorem Touches.isSome (h : Touches items items' pid R) (q : Nat) :
    (items'.get q).isSome = (items.get q).isSome := by
  obtain ⟨part, part', hg, _, hi⟩ := h
  rw [hi]
  by_cases hq : q = pid
  · simp [hq, hg]
  · simp [hq]

theorem Touches.mono {R' : Partition → Partition → Prop} (h : Touches items items' pid R)
    (hR : ∀ part part', R part part' → R' part part') : Touches items items' pid R' := by
  obtain ⟨part, part', hg, hr, hi⟩ := h
  exact ⟨part, part', hg, hR part part' hr, hi⟩

theorem onPartition_touches {op : Partition → Go ApplyError Partition}
    (h : onPartition items pid op = .ok items') :
    Touches items items' pid fun part part' => op part = .ok part' := by
  obtain ⟨part, hg, h⟩ := bind_eq_ok.mp h
  obtain ⟨part', ho, h⟩ := bind_eq_ok.mp h
  cases h
  rw [deref_eq_ok] at hg
  refine ⟨part, part', hg, ho, fun q => ?_⟩
  rw [GoMap.get_store, hg]
  rfl

/-- The identity and the replica counter of a partition stay. -/
structure Frame (part part' : Partition) : Prop where
  id : part'.id = part.id
  lastReplicaId : part'.lastReplicaId = part.lastReplicaId

/-- A new replica under the next name. -/
structure Added (appendedAt : Time) (sid : Nat) (state : ReplicaState)
    (part part' : Partition) : Prop where
  id : part'.id = part.id
  lastReplicaId : part'.lastReplicaId = part.lastReplicaId + 1
  get : ∀ name, part'.replicas.get name =
    if name = replicaName part.id (part.lastReplicaId + 1) then
      some (newReplica appendedAt (replicaName part.id (part.lastReplicaId + 1)) sid state)
    else part.replicas.get name

structure Updated (appendedAt : Time) (replica : String) (state : ReplicaState)
    (part part' : Partition) : Prop extends Frame part part' where
  get : ∃ r, part.replicas.get replica = some r ∧ ∀ name, part'.replicas.get name =
    if name = replica then some { r with state := state, stateTransitionTime := appendedAt }
    else part.replicas.get name

structure Removed (replica : String) (part part' : Partition) : Prop
    extends Frame part part' where
  get : ∀ name, part'.replicas.get name =
    if name = replica then none else part.replicas.get name

structure Bumped (part part' : Partition) : Prop extends Frame part part' where
  replicas : part'.replicas = part.replicas

variable {appendedAt : Time}

theorem addReplica_touches {state : ReplicaState}
    (hid : ∀ part, items.get pid = some part → part.id = pid)
    (h : addReplica appendedAt items pid sid state = .ok items') :
    Touches items items' pid (Added appendedAt sid state) := by
  obtain ⟨part, hg, h⟩ := bind_eq_ok.mp h
  rw [deref_eq_ok] at hg
  obtain rfl := hid part hg
  obtain ⟨⟨items₁, name⟩, h₁, h⟩ := bind_eq_ok.mp h
  obtain ⟨part₁, hg₁, h₁⟩ := bind_eq_ok.mp h₁
  rw [deref_eq_ok, hg] at hg₁
  cases hg₁
  cases h₁
  obtain ⟨part₂, part', hg₂, ho, hi⟩ := onPartition_touches h
  rw [GoMap.get_store, if_pos rfl, hg] at hg₂
  cases hg₂
  obtain ⟨rs, hs, ho⟩ := bind_eq_ok.mp ho
  cases ho
  refine ⟨part, { part with lastReplicaId := part.lastReplicaId + 1, replicas := rs }, hg,
    ⟨rfl, rfl, GoMap.get_of_set (deref_eq_ok.mp hs)⟩, fun q => ?_⟩
  rw [hi]
  by_cases hq : q = part.id
  · rw [if_pos hq, if_pos hq]
  · rw [if_neg hq, if_neg hq, GoMap.get_store, if_neg hq]

theorem addItem_touches {x : Add}
    (hid : ∀ part, items.get x.partitionId = some part → part.id = x.partitionId)
    (h : addItem appendedAt items x = .ok items') :
    Touches items items' x.partitionId (Added appendedAt x.serverId .joining) :=
  addReplica_touches hid h

def InitAdd.state (x : InitAdd) : ReplicaState := if x.voter then .voter else .nonVoter

theorem InitAdd.state_isServing (x : InitAdd) : x.state.isServing = true := by
  unfold InitAdd.state
  cases x.voter <;> rfl

theorem initAdd_touches {x : InitAdd}
    (hid : ∀ part, items.get x.partitionId = some part → part.id = x.partitionId)
    (h : initAdd appendedAt items x = .ok items') :
    Touches items items' x.partitionId (Added appendedAt x.serverId x.state) := by
  obtain ⟨items₁, h₁, h⟩ := bind_eq_ok.mp h
  obtain ⟨part, part₁, hg, ha, hi⟩ := addReplica_touches hid h₁
  obtain ⟨part₂, part', hg₂, ho, hi'⟩ := onPartition_touches h
  rw [hi, if_pos rfl] at hg₂
  cases hg₂
  cases ho
  refine ⟨part, { part₁ with assignmentsVersion := 1 }, hg,
    ⟨ha.id, ha.lastReplicaId, ha.get⟩, fun q => ?_⟩
  rw [hi']
  by_cases hq : q = x.partitionId
  · rw [if_pos hq, if_pos hq]
  · rw [if_neg hq, if_neg hq, hi, if_neg hq]

theorem updateItem_touches {x : Update} (h : updateItem appendedAt items x = .ok items') :
    Touches items items' x.partitionId (Updated appendedAt x.replica x.state) := by
  refine (onPartition_touches h).mono fun part part' ho => ?_
  obtain ⟨r, hr, ho⟩ := bind_eq_ok.mp ho
  rw [deref_eq_ok] at hr
  cases ho
  refine ⟨⟨rfl, rfl⟩, r, hr, fun name => ?_⟩
  rw [GoMap.get_store, hr]
  rfl

theorem removeItem_touches {x : Remove} (h : removeItem items x = .ok items') :
    Touches items items' x.partitionId (Removed x.replica) := by
  refine (onPartition_touches h).mono fun part part' ho => ?_
  cases ho
  exact ⟨⟨rfl, rfl⟩, GoMap.get_delete _ _⟩

theorem bumpVersion_touches (h : bumpVersion items pid = .ok items') :
    Touches items items' pid Bumped := by
  refine (onPartition_touches h).mono fun part part' ho => ?_
  cases ho
  exact ⟨⟨rfl, rfl⟩, rfl⟩

theorem changeItems_ok (h : changeItems appendedAt items cmd = .ok items') :
    ∃ added updated removed, cmd.add.foldlM (addItem appendedAt) items = .ok added ∧
      cmd.update.foldlM (updateItem appendedAt) added = .ok updated ∧
      cmd.remove.foldlM removeItem updated = .ok removed ∧
      cmd.changed.foldlM bumpVersion removed = .ok items' := by
  obtain ⟨added, ha, h⟩ := bind_eq_ok.mp h
  obtain ⟨updated, hu, h⟩ := bind_eq_ok.mp h
  obtain ⟨removed, hr, hb⟩ := bind_eq_ok.mp h
  exact ⟨added, updated, removed, ha, hu, hr, hb⟩

/-! ## Status -/

structure SameReplica (r r' : Replica) : Prop where
  name : r'.name = r.name
  serverId : r'.serverId = r.serverId
  state : r'.state = r.state
  createdTime : r'.createdTime = r.createdTime
  stateTransitionTime : r'.stateTransitionTime = r.stateTransitionTime

structure Reported (part part' : Partition) : Prop extends Frame part part' where
  none : ∀ name, part.replicas.get name = none → part'.replicas.get name = none
  some : ∀ name r, part.replicas.get name = some r →
    ∃ r', part'.replicas.get name = some r' ∧ SameReplica r r'

theorem updateReplica_get (rs : GoMap String Replica) (name : String) (u : ReplicaStatus)
    (k : String) : (updateReplica rs name u).get k = if k = name then (rs.get name).map fun r =>
        { r with lastUpdate := u.lastUpdate, appliedIndex := u.appliedIndex, ready := u.ready }
      else rs.get k := by
  unfold updateReplica
  cases hr : rs.get name with
  | none =>
    by_cases hk : k = name
    · simp [hk, hr]
    · simp [hk]
  | some r =>
    rw [GoMap.get_store, hr]
    rfl

theorem SameReplica.refl (r : Replica) : SameReplica r r := ⟨rfl, rfl, rfl, rfl, rfl⟩

theorem SameReplica.trans {r r' r'' : Replica} (h : SameReplica r r') (h' : SameReplica r' r'') :
    SameReplica r r'' :=
  ⟨h'.name.trans h.name, h'.serverId.trans h.serverId, h'.state.trans h.state,
    h'.createdTime.trans h.createdTime, h'.stateTransitionTime.trans h.stateTransitionTime⟩

theorem updateReplica_same (rs : GoMap String Replica) (name : String) (u : ReplicaStatus)
    (k : String) : match rs.get k with
      | none => (updateReplica rs name u).get k = none
      | some r => ∃ r', (updateReplica rs name u).get k = some r' ∧ SameReplica r r' := by
  rw [updateReplica_get]
  by_cases hk : k = name
  · subst hk
    rw [if_pos rfl]
    cases rs.get k with
    | none => rfl
    | some r => exact ⟨_, rfl, rfl, rfl, rfl, rfl, rfl⟩
  · rw [if_neg hk]
    cases rs.get k with
    | none => rfl
    | some r => exact ⟨r, rfl, SameReplica.refl r⟩

theorem updateStatus_reported (part : Partition) (u : PartitionStatus) :
    Reported part (part.updateStatus u) := by
  -- the loop over the replicas of the report
  have loop : ∀ (es : List (Sigma fun _ : String => ReplicaStatus)) (rs : GoMap String Replica)
      (k : String), match rs.get k with
        | none => (es.foldl (fun rs e => updateReplica rs e.1 e.2) rs).get k = none
        | some r => ∃ r', (es.foldl (fun rs e => updateReplica rs e.1 e.2) rs).get k = some r' ∧
            SameReplica r r' := by
    intro es
    induction es with
    | nil =>
      intro rs k
      cases hr : rs.get k with
      | none => exact hr
      | some r => exact ⟨r, hr, SameReplica.refl r⟩
    | cons e es ih =>
      intro rs k
      have h₁ := updateReplica_same rs e.1 e.2 k
      have h₂ := ih (updateReplica rs e.1 e.2) k
      cases hr : rs.get k with
      | none =>
        rw [hr] at h₁
        rw [h₁] at h₂
        exact h₂
      | some r =>
        rw [hr] at h₁
        obtain ⟨r₁, hr₁, hs₁⟩ := h₁
        rw [hr₁] at h₂
        obtain ⟨r', hr', hs'⟩ := h₂
        exact ⟨r', hr', hs₁.trans hs'⟩
  refine ⟨⟨rfl, rfl⟩, fun name hn => ?_, fun name r hr => ?_⟩
  · have h := loop u.replicas.entries part.replicas name
    rw [hn] at h
    exact h
  · have h := loop u.replicas.entries part.replicas name
    rw [hr] at h
    exact h

theorem statusItem_touches {u : Nat × PartitionStatus} (h : statusItem items u = .ok items') :
    Touches items items' u.1 Reported := by
  refine (onPartition_touches h).mono fun part part' ho => ?_
  cases ho
  exact updateStatus_reported part u.2

theorem updateServer_type (items : GoMap Nat Server) (id : Nat) (u : ServerStatus) (sid : Nat) :
    ((updateServer items id u).get sid).map Server.type = (items.get sid).map Server.type := by
  unfold updateServer
  cases hs : items.get id with
  | none => rfl
  | some server =>
    rw [GoMap.get_store, hs]
    by_cases hk : sid = id
    · simp [hk, hs]
    · simp [hk]

/-! ## Steps -/

def ServersReported (s s' : Option Servers) : Prop :=
  s' = s ∨ ∃ s₀ s₁, s = some s₀ ∧ s' = some s₁ ∧
    ∀ sid, (s₁.items.get sid).map Server.type = (s₀.items.get sid).map Server.type

def PartitionsReported (us : List (Nat × PartitionStatus)) (p p' : Option Partitions) : Prop :=
  p' = p ∨ ∃ p₀ p₁, p = some p₀ ∧ p' = some p₁ ∧
    p₁.assignmentsVersion = p₀.assignmentsVersion ∧ us.foldlM statusItem p₀.items = .ok p₁.items

theorem updateServersStatus_ok {s s' : Option Servers} {us : List (Nat × ServerStatus)}
    (h : updateServersStatus s us = .ok s') : ServersReported s s' := by
  unfold updateServersStatus at h
  by_cases hu : us.isEmpty = true
  · rw [if_pos hu] at h
    cases h
    exact .inl rfl
  · rw [if_neg hu] at h
    obtain ⟨s₀, hs₀, h⟩ := bind_eq_ok.mp h
    cases h
    refine .inr ⟨s₀, _, deref_eq_ok.mp hs₀, rfl, fun sid => ?_⟩
    exact List.foldlRecOn (motive := fun m : GoMap Nat Server =>
      (m.get sid).map Server.type = (s₀.items.get sid).map Server.type)
      _ _ rfl fun m hm e _ => (updateServer_type m e.1 e.2 sid).trans hm

theorem updatePartitionsStatus_ok {p p' : Option Partitions} {us : List (Nat × PartitionStatus)}
    (h : updatePartitionsStatus p us = .ok p') : PartitionsReported us p p' := by
  unfold updatePartitionsStatus at h
  by_cases hu : us.isEmpty = true
  · rw [if_pos hu] at h
    cases h
    exact .inl rfl
  · rw [if_neg hu] at h
    obtain ⟨p₀, hp₀, h⟩ := bind_eq_ok.mp h
    obtain ⟨items, hi, h⟩ := bind_eq_ok.mp h
    cases h
    exact .inr ⟨p₀, _, deref_eq_ok.mp hp₀, rfl, rfl, hi⟩

variable {f' : Fsm} {r : Result}

theorem applyUpdateStatus_ok {cmd : UpdateStatus} (h : applyUpdateStatus f cmd = .ok (f', r)) :
    ∃ s p, ServersReported f.servers s ∧
      PartitionsReported (cmd.partitions.entries.map fun e => (e.1, e.2)) f.partitions p ∧
      f' = { f with servers := s, partitions := p } := by
  obtain ⟨s, hs, h⟩ := bind_eq_ok.mp h
  obtain ⟨p, hp, h⟩ := bind_eq_ok.mp h
  cases h
  exact ⟨s, p, updateServersStatus_ok hs, updatePartitionsStatus_ok hp, rfl⟩

/-- What a step can do to the state, the applied index and the version apart. -/
inductive Moves (f : Fsm) : Step → Fsm → Prop
  | idle (a : Step) (i v : Nat) : Moves f a { f with index := i, version := v }
  | bootstrap (i v m : Nat) (t : Time) (cmd : Bootstrap) (hc : f.clusterName = "") :
      Moves f (.apply ⟨i, t, some ⟨m, some (.bootstrap cmd)⟩⟩)
        ⟨i, v, cmd.clusterName, t, cmd.partitionCount,
          some (bootstrapServers t cmd.servers), some (bootstrapPartitions cmd.partitionCount)⟩
  | register (i v m : Nat) (t : Time) (cmd : Register) (s s' : Servers) (r : Result)
      (hs : f.servers = some s) (ht : s.tokens.get cmd.token = none)
      (hr : registerNew s t cmd = .ok (s', r)) :
      Moves f (.apply ⟨i, t, some ⟨m, some (.register cmd)⟩⟩)
        { f with index := i, version := v, servers := some s' }
  | status (i v m : Nat) (t : Time) (cmd : UpdateStatus) (s : Option Servers)
      (p : Option Partitions) (hs : ServersReported f.servers s)
      (hp : PartitionsReported (cmd.partitions.entries.map fun e => (e.1, e.2)) f.partitions p) :
      Moves f (.apply ⟨i, t, some ⟨m, some (.updateStatus cmd)⟩⟩)
        { f with index := i, version := v, servers := s, partitions := p }
  | initAssignments (i v m : Nat) (t : Time) (cmd : InitAssignments) (p : Partitions)
      (items : GoMap Nat Partition) (hp : f.partitions = some p)
      (hn : p.hasAssignments = false) (hv : validateInitAssignments f cmd = .ok ())
      (hi : cmd.add.foldlM (initAdd t) p.items = .ok items) :
      Moves f (.apply ⟨i, t, some ⟨m, some (.initAssignments cmd)⟩⟩)
        { f with index := i, version := v, partitions := some ⟨1, 1, items, cmd.maxImbalance⟩ }
  | updateAssignments (i v m : Nat) (t : Time) (cmd : UpdateAssignments) (p : Partitions)
      (items : GoMap Nat Partition) (hp : f.partitions = some p)
      (hn : p.hasAssignments = true) (hv : validateUpdateAssignments f p cmd = .ok ())
      (hi : changeItems t p.items cmd = .ok items) :
      Moves f (.apply ⟨i, t, some ⟨m, some (.updateAssignments cmd)⟩⟩)
        { f with
          index := i
          version := v
          partitions := some ⟨p.version + 1, p.assignmentsVersion + 1, items, cmd.maxImbalance⟩ }
  | restore : Moves f .restore (snapshot f)

variable {t : Time}

theorem applyUpdateAssignments_ok :
    applyUpdateAssignments f t cmd = .ok (f', r) ↔ ∃ p items, f.partitions = some p ∧
      ¬(cmd.ifMatch ≠ 0 ∧ cmd.ifMatch ≠ p.assignmentsVersion) ∧ p.hasAssignments = true ∧
      validateUpdateAssignments f p cmd = .ok () ∧ changeItems t p.items cmd = .ok items ∧
      f' = { f with
        partitions := some ⟨p.version + 1, p.assignmentsVersion + 1, items, cmd.maxImbalance⟩ } ∧
      r = .updated (p.assignmentsVersion + 1) := by
  unfold applyUpdateAssignments
  rw [bind_eq_ok]
  refine exists_congr fun p => ?_
  rw [deref_eq_ok, rejectIf_bind, rejectIf_bind, not_not, bind_eq_ok]
  constructor
  · rintro ⟨hp, hm, hn, _, hv, h⟩
    obtain ⟨items, hi, h⟩ := bind_eq_ok.mp h
    cases h
    exact ⟨items, hp, hm, hn, hv, hi, rfl, rfl⟩
  · rintro ⟨items, hp, hm, hn, hv, hi, rfl, rfl⟩
    exact ⟨hp, hm, hn, (), hv, bind_eq_ok.mpr ⟨items, hi, rfl⟩⟩

theorem applyInitAssignments_ok {cmd : InitAssignments}
    (h : applyInitAssignments f t cmd = .ok (f', r)) : ∃ p items, f.partitions = some p ∧
      p.hasAssignments = false ∧ validateInitAssignments f cmd = .ok () ∧
      cmd.add.foldlM (initAdd t) p.items = .ok items ∧
      f' = { f with partitions := some ⟨1, 1, items, cmd.maxImbalance⟩ } := by
  obtain ⟨p, hp, h⟩ := bind_eq_ok.mp h
  rw [rejectIf_bind, Bool.not_eq_true] at h
  obtain ⟨hn, h⟩ := h
  obtain ⟨_, hv, h⟩ := bind_eq_ok.mp h
  obtain ⟨items, hi, h⟩ := bind_eq_ok.mp h
  cases h
  exact ⟨p, items, deref_eq_ok.mp hp, hn, hv, hi, rfl⟩

theorem applyRegister_ok {cmd : Register} (h : applyRegister f t cmd = .ok (f', r)) :
    f' = f ∨ ∃ s s', f.servers = some s ∧
      s.tokens.get cmd.token = none ∧ registerNew s t cmd = .ok (s', r) ∧
      f' = { f with servers := some s' } := by
  obtain ⟨s, hs, h⟩ := bind_eq_ok.mp h
  rw [deref_eq_ok] at hs
  cases ht : s.tokens.get cmd.token with
  | some id =>
    rw [ht] at h
    obtain ⟨server, _, h⟩ := bind_eq_ok.mp h
    obtain ⟨_, h⟩ := rejectIf_bind.mp h
    cases h
    exact .inl rfl
  | none =>
    rw [ht] at h
    obtain ⟨⟨s', r'⟩, hr, h⟩ := bind_eq_ok.mp h
    cases h
    exact .inr ⟨s, s', hs, ht, hr, rfl⟩

theorem applyPayload_moves {i v m : Nat} {payload : Payload}
    (h : applyPayload f t payload = .ok (f', r)) :
    Moves f (.apply ⟨i, t, some ⟨m, some payload⟩⟩) { f' with index := i, version := v } := by
  cases payload with
  | bootstrap cmd =>
    change applyBootstrap f t cmd = _ at h
    unfold applyBootstrap at h
    by_cases hc : f.clusterName = ""
    · rw [if_neg (not_not.mpr hc)] at h
      cases h
      exact .bootstrap i v m t cmd hc
    · rw [if_pos hc] at h
      cases h
      exact .idle _ i v
  | register cmd =>
    rcases applyRegister_ok h with rfl | ⟨s, s', hs, ht, hr, rfl⟩
    · exact .idle _ i v
    · exact .register i v m t cmd s s' r hs ht hr
  | updateStatus cmd =>
    obtain ⟨s, p, hs, hp, rfl⟩ := applyUpdateStatus_ok h
    exact .status i v m t cmd s p hs hp
  | initAssignments cmd =>
    obtain ⟨p, items, hp, hn, hv, hi, rfl⟩ := applyInitAssignments_ok h
    exact .initAssignments i v m t cmd p items hp hn hv hi
  | updateAssignments cmd =>
    obtain ⟨p, items, hp, _, hn, hv, hi, rfl, _⟩ := applyUpdateAssignments_ok.mp h
    exact .updateAssignments i v m t cmd p items hp hn hv hi

theorem applyCommand_ok {cmd : Command} :
    applyCommand f t cmd = .ok (f', r) ↔ ¬(cmd.ifMatch ≠ 0 ∧ cmd.ifMatch ≠ f.version) ∧
      ∃ payload f₁, cmd.payload = some payload ∧ applyPayload f t payload = .ok (f₁, r) ∧
        f' = { f₁ with version := f₁.version + 1 } := by
  unfold applyCommand
  rw [rejectIf_bind, bind_eq_ok]
  refine and_congr_right fun _ => exists_congr fun payload => ?_
  rw [deref_eq_ok, bind_eq_ok]
  constructor
  · rintro ⟨hp, ⟨f₁, r₁⟩, h₁, h⟩
    cases h
    exact ⟨f₁, hp, h₁, rfl⟩
  · rintro ⟨f₁, hp, h₁, rfl⟩
    exact ⟨hp, (f₁, r), h₁, rfl⟩

theorem apply_accepted {i m : Nat} {payload : Payload} :
    apply f ⟨i, t, some ⟨m, some payload⟩⟩ = some (f', .ok r) ↔
      ¬(m ≠ 0 ∧ m ≠ f.version) ∧ ∃ f₁, applyPayload f t payload = .ok (f₁, r) ∧
        f' = { f₁ with index := i, version := f₁.version + 1 } := by
  unfold apply
  dsimp only
  constructor
  · intro h
    split at h
    · next f₁ r₁ hc =>
      cases h
      obtain ⟨hm, _, f₂, hp, h₂, rfl⟩ := applyCommand_ok.mp hc
      cases hp
      exact ⟨hm, f₂, h₂, rfl⟩
    · cases h
    · cases h
  · rintro ⟨hm, f₁, h₁, rfl⟩
    have hc : applyCommand f t ⟨m, some payload⟩ =
        .ok ({ f₁ with version := f₁.version + 1 }, r) :=
      applyCommand_ok.mpr ⟨hm, payload, f₁, rfl, h₁, rfl⟩
    rw [hc]

theorem apply_moves {e : Entry} {a : Answer} (h : apply f e = some (f', a)) :
    Moves f (.apply e) f' := by
  obtain ⟨i, t, data⟩ := e
  cases data with
  | none =>
    cases h
    exact .idle _ i f.version
  | some cmd =>
    unfold apply at h
    dsimp only at h
    split at h
    · next f₁ r hc =>
      cases h
      obtain ⟨_, payload, f₂, hp, h₂, rfl⟩ := applyCommand_ok.mp hc
      obtain ⟨m, _⟩ := cmd
      cases hp
      have hm := applyPayload_moves (i := i) (v := f₂.version + 1) (m := m) h₂
      exact hm
    · cases h
      exact .idle _ i f.version
    · cases h

theorem step_of_apply {e : Entry} {a : Answer} (h : apply f e = some (f', a)) :
    step f (.apply e) = some f' := by
  show (apply f e).map Prod.fst = some f'
  rw [h]
  rfl

theorem step_moves {a : Step} (h : step f a = some f') : Moves f a f' := by
  cases a with
  | apply e =>
    obtain ⟨⟨f₁, r⟩, h₁, rfl⟩ := Option.map_eq_some_iff.mp h
    exact apply_moves h₁
  | restore =>
    cases h
    exact .restore

end Scout.Control
