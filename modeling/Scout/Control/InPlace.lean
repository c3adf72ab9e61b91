import Scout.Control.Execution
import Scout.Lib.Mut

/-!
The commands of the control state machine as the code executes them: assignment by
assignment, on the state of the running process. A command that returns an error
leaves the state as it is at that point.

`Fsm` has the same commands as functions of the state. The two agree, because
every check of a command comes before its first assignment.
-/

namespace Scout.Control

open Lib Lib.Mut

abbrev Exec := Mut ApplyError Fsm

namespace InPlace

/-! ## Assignments -/

def servers : Exec Servers := look fun f => deref f.servers

def partitions : Exec Partitions := look fun f => deref f.partitions

def setServers (op : Servers → Go ApplyError Servers) : Exec Unit := change fun f => do
  let s ← deref f.servers
  let s ← op s
  return { f with servers := some s }

def setPartitions (op : Partitions → Go ApplyError Partitions) : Exec Unit := change fun f => do
  let p ← deref f.partitions
  let p ← op p
  return { f with partitions := some p }

def setPartition (pid : Nat) (op : Partition → Go ApplyError Partition) : Exec Unit :=
  setPartitions fun p => do
    let items ← onPartition p.items pid op
    return { p with items := items }

/-! ## Commands -/

def bootstrapServer (appendedAt : Time) (x : BootstrapServer) : Exec Unit := do
  setServers fun s => .ok { s with lastId := max s.lastId x.id }
  setServers fun s => do
    let items ← setEntry s.items x.id
      ⟨x.id, x.name, .control, x.tags, appendedAt, some appendedAt, x.address⟩
    return { s with items := items }

def bootstrapPartition (id : Nat) : Exec Unit := setPartitions fun p => do
  let items ← setEntry p.items id (emptyPartition id)
  return { p with items := items }

def applyBootstrap (appendedAt : Time) (cmd : Bootstrap) : Exec Result := do
  let clusterName ← look fun f => .ok f.clusterName
  if clusterName ≠ "" then return .bootstrapped false
  else do
    change fun f => .ok { f with clusterName := cmd.clusterName }
    change fun f => .ok { f with createdTime := appendedAt }
    change fun f => .ok { f with partitionCount := cmd.partitionCount }
    change fun f => .ok { f with servers := some ⟨1, 1, .empty, 0, .empty⟩ }
    cmd.servers.forM (bootstrapServer appendedAt)
    change fun f => .ok { f with partitions := some ⟨0, 0, .empty, 0⟩ }
    (List.range cmd.partitionCount).forM bootstrapPartition
    return .bootstrapped true

def nextServerID : Exec Nat := do
  setServers fun s => .ok { s with lastId := nextServerId s }
  let s ← servers
  return s.lastId

def applyRegister (appendedAt : Time) (cmd : Register) : Exec Result := do
  let s ← servers
  match s.tokens.get cmd.token with
  | some id =>
    let server ← look fun _ => deref (s.items.get id)
    look fun _ => rejectIf (server.registeredAt < appendedAt - tokenValidityWindow)
      (.validationError "Token expired.")
    return .registered id server.name
  | none =>
    let id ← nextServerID
    let name := serverNamePrefix cmd.type ++ toString id
    setServers fun s => do
      let items ← setEntry s.items id
        ⟨id, name, cmd.type, cmd.tags, appendedAt, some appendedAt, cmd.address⟩
      return { s with items := items }
    setServers fun s => do
      let tokens ← setEntry s.tokens cmd.token id
      return { s with tokens := tokens }
    setServers fun s => .ok { s with registerVersion := s.registerVersion + 1 }
    setServers fun s => .ok { s with version := s.version + 1 }
    return .registered id name

def updateServerStatus (u : Nat × ServerStatus) : Exec Unit :=
  setServers fun s => .ok { s with items := updateServer s.items u.1 u.2 }

def updatePartitionStatus (u : Nat × PartitionStatus) : Exec Unit :=
  setPartition u.1 fun part => .ok (part.updateStatus u.2)

def bumpServersVersion (us : List (Nat × ServerStatus)) : Exec Unit :=
  if us.isEmpty then pure () else setServers fun s => .ok { s with version := s.version + 1 }

def bumpPartitionsVersion (us : List (Nat × PartitionStatus)) : Exec Unit :=
  if us.isEmpty then pure () else setPartitions fun p => .ok { p with version := p.version + 1 }

def applyUpdateStatus (cmd : UpdateStatus) : Exec Result := do
  (cmd.servers.entries.map fun e => (e.1, e.2)).forM updateServerStatus
  (cmd.partitions.entries.map fun e => (e.1, e.2)).forM updatePartitionStatus
  bumpServersVersion (cmd.servers.entries.map fun e => (e.1, e.2))
  bumpPartitionsVersion (cmd.partitions.entries.map fun e => (e.1, e.2))
  return .noResult

def nextReplicaName (pid : Nat) : Exec String := do
  setPartition pid fun part => .ok { part with lastReplicaId := part.lastReplicaId + 1 }
  let p ← partitions
  let part ← look fun _ => deref (p.items.get pid)
  return replicaName part.id part.lastReplicaId

def addReplica (appendedAt : Time) (pid serverId : Nat) (state : ReplicaState) : Exec Unit := do
  let p ← partitions
  let part ← look fun _ => deref (p.items.get pid)
  let name ← nextReplicaName part.id
  setPartition pid fun part => do
    let replicas ← setEntry part.replicas name (newReplica appendedAt name serverId state)
    return { part with replicas := replicas }

def initAdd (appendedAt : Time) (x : InitAdd) : Exec Unit := do
  addReplica appendedAt x.partitionId x.serverId (if x.voter then .voter else .nonVoter)
  setPartition x.partitionId fun part => .ok { part with assignmentsVersion := 1 }

def applyInitAssignments (appendedAt : Time) (cmd : InitAssignments) : Exec Result := do
  let p ← partitions
  look fun _ => rejectIf p.hasAssignments .invalidRequest
  look fun f => validateInitAssignments f cmd
  cmd.add.forM (initAdd appendedAt)
  setPartitions fun p => .ok { p with maxImbalance := cmd.maxImbalance }
  setPartitions fun p => .ok { p with assignmentsVersion := 1 }
  setPartitions fun p => .ok { p with version := 1 }
  return .updated 1

def addItem (appendedAt : Time) (x : Add) : Exec Unit :=
  addReplica appendedAt x.partitionId x.serverId .joining

def updateItem (appendedAt : Time) (x : Update) : Exec Unit := do
  setPartition x.partitionId fun part => do
    let replica ← deref (part.replicas.get x.replica)
    let replica := { replica with state := x.state, stateTransitionTime := appendedAt }
    return { part with replicas := part.replicas.store x.replica replica }

def removeItem (x : Remove) : Exec Unit :=
  setPartition x.partitionId fun part =>
    .ok { part with replicas := part.replicas.delete x.replica }

def bumpVersion (pid : Nat) : Exec Unit :=
  setPartition pid fun part => .ok { part with assignmentsVersion := part.assignmentsVersion + 1 }

def applyUpdateAssignments (appendedAt : Time) (cmd : UpdateAssignments) : Exec Result := do
  let p ← partitions
  look fun _ =>
    rejectIf (cmd.ifMatch ≠ 0 ∧ cmd.ifMatch ≠ p.assignmentsVersion) .failedPrecondition
  look fun _ => rejectIf (¬p.hasAssignments) .invalidRequest
  look fun f => validateUpdateAssignments f p cmd
  cmd.add.forM (addItem appendedAt)
  cmd.update.forM (updateItem appendedAt)
  cmd.remove.forM removeItem
  cmd.changed.forM bumpVersion
  setPartitions fun p => .ok { p with maxImbalance := cmd.maxImbalance }
  setPartitions fun p => .ok { p with assignmentsVersion := p.assignmentsVersion + 1 }
  setPartitions fun p => .ok { p with version := p.version + 1 }
  let p ← partitions
  return .updated p.assignmentsVersion

def applyPayload (appendedAt : Time) : Payload → Exec Result
  | .bootstrap cmd => applyBootstrap appendedAt cmd
  | .register cmd => applyRegister appendedAt cmd
  | .updateStatus cmd => applyUpdateStatus cmd
  | .initAssignments cmd => applyInitAssignments appendedAt cmd
  | .updateAssignments cmd => applyUpdateAssignments appendedAt cmd

def applyCommand (appendedAt : Time) (cmd : Command) : Exec Result := do
  let version ← look fun f => .ok f.version
  look fun _ => rejectIf (cmd.ifMatch ≠ 0 ∧ cmd.ifMatch ≠ version) .failedPrecondition
  let payload ← look fun _ => deref cmd.payload
  let result ← applyPayload appendedAt payload
  change fun f => .ok { f with version := f.version + 1 }
  return result

/-- Apply an entry of the log; `none` if the process panics. -/
def apply (f : Fsm) (e : Entry) : Option (Fsm × Answer) :=
  match e.data with
  | none => some ({ f with index := e.index }, .error .unmarshalFailed)
  | some cmd =>
    match (applyCommand e.appendedAt cmd).run f with
    | (.ok result, f') => some ({ f' with index := e.index }, .ok result)
    | (.error (.err err), f') => some ({ f' with index := e.index }, .error err)
    | (.error .panic, _) => none

def step (f : Fsm) : Step → Option Fsm
  | .apply e => (InPlace.apply f e).map Prod.fst
  | .restore => some (restore newFsm (snapshot f))

/-! ## Nothing is checked after the first assignment -/

theorem accepting_servers : Accepting servers := accepting_look fun f => noError_deref f.servers

theorem accepting_partitions : Accepting partitions :=
  accepting_look fun f => noError_deref f.partitions

theorem noError_setEntry {κ α : Type} [DecidableEq κ] (m : GoMap κ α) (k : κ) (v : α) :
    NoError (setEntry m k v) := noError_deref _

theorem accepting_setServers {op : Servers → Go ApplyError Servers} (h : ∀ s, NoError (op s)) :
    Accepting (setServers op) :=
  accepting_change fun f =>
    (noError_deref f.servers).bind fun s => (h s).bind fun _ => noError_ok _

theorem accepting_setPartitions {op : Partitions → Go ApplyError Partitions}
    (h : ∀ p, NoError (op p)) : Accepting (setPartitions op) :=
  accepting_change fun f =>
    (noError_deref f.partitions).bind fun p => (h p).bind fun _ => noError_ok _

variable {pid : Nat}

theorem accepting_setPartition {op : Partition → Go ApplyError Partition}
    (h : ∀ part, NoError (op part)) : Accepting (setPartition pid op) := by
  refine accepting_setPartitions fun p => ?_
  refine NoError.bind ?_ fun _ => noError_ok _
  exact (noError_deref _).bind fun part => (h part).bind fun _ => noError_ok _

theorem accepting_applyBootstrap (t : Time) (cmd : Bootstrap) :
    Accepting (applyBootstrap t cmd) := by
  refine (accepting_look fun _ => noError_ok _).bind fun name => ?_
  split
  · exact accepting_pure _
  have hset : ∀ g : Fsm → Fsm, Accepting (change fun f => .ok (g f) : Exec Unit) :=
    fun g => accepting_change fun _ => noError_ok _
  refine (hset _).bind fun _ => (hset _).bind fun _ => (hset _).bind fun _ =>
    (hset _).bind fun _ => Accepting.bind (Accepting.forM (fun x => ?_) _) fun _ =>
    (hset _).bind fun _ => Accepting.bind (Accepting.forM (fun id => ?_) _) fun _ =>
    accepting_pure _
  · exact (accepting_setServers fun _ => noError_ok _).bind fun _ =>
      accepting_setServers fun _ => (noError_setEntry _ _ _).bind fun _ => noError_ok _
  · exact accepting_setPartitions fun _ => (noError_setEntry _ _ _).bind fun _ => noError_ok _

theorem accepting_nextReplicaName (pid : Nat) : Accepting (nextReplicaName pid) :=
  (accepting_setPartition fun _ => noError_ok _).bind fun _ => accepting_partitions.bind fun _ =>
    (accepting_look fun _ => noError_deref _).bind fun _ => accepting_pure _

theorem accepting_addReplica (t : Time) (pid sid : Nat) (state : ReplicaState) :
    Accepting (addReplica t pid sid state) := by
  refine accepting_partitions.bind fun _ => (accepting_look fun _ => noError_deref _).bind fun _ =>
    (accepting_nextReplicaName _).bind fun _ => accepting_setPartition fun _ => ?_
  exact (noError_setEntry _ _ _).bind fun _ => noError_ok _

/-- **No command changes anything before its last check.** -/
theorem atomic_applyPayload (t : Time) (payload : Payload) : Atomic (applyPayload t payload) := by
  have hread : ∀ {α : Type} (g : Fsm → Go ApplyError α), ReadOnly (look g) := readOnly_look
  cases payload with
  | bootstrap cmd => exact (accepting_applyBootstrap t cmd).atomic
  | register cmd =>
    refine (hread _).bind_atomic fun s => ?_
    cases s.tokens.get cmd.token with
    | some id =>
      exact (hread _).bind_atomic fun _ => (hread _).bind_atomic fun _ => (accepting_pure _).atomic
    | none =>
      have hset : ∀ g : Servers → Servers, Accepting (setServers fun s => .ok (g s)) :=
        fun g => accepting_setServers fun _ => noError_ok _
      have hid : Accepting nextServerID :=
        (hset _).bind fun _ => accepting_servers.bind fun _ => accepting_pure _
      refine Accepting.atomic (hid.bind fun id => ?_)
      refine (accepting_setServers fun _ => ?_).bind fun _ =>
        (accepting_setServers fun _ => ?_).bind fun _ =>
        (hset _).bind fun _ => (hset _).bind fun _ => accepting_pure _
      · exact (noError_setEntry _ _ _).bind fun _ => noError_ok _
      · exact (noError_setEntry _ _ _).bind fun _ => noError_ok _
  | updateStatus cmd =>
    refine Accepting.atomic (Accepting.bind (Accepting.forM (fun u => ?_) _) fun _ =>
      Accepting.bind (Accepting.forM (fun u => ?_) _) fun _ => ?_)
    · exact accepting_setServers fun _ => noError_ok _
    · exact accepting_setPartition fun _ => noError_ok _
    · refine Accepting.bind ?_ fun _ => Accepting.bind ?_ fun _ => accepting_pure _
      · unfold bumpServersVersion
        split
        · exact accepting_pure _
        · exact accepting_setServers fun _ => noError_ok _
      · unfold bumpPartitionsVersion
        split
        · exact accepting_pure _
        · exact accepting_setPartitions fun _ => noError_ok _
  | initAssignments cmd =>
    refine (hread _).bind_atomic fun p => (hread _).bind_atomic fun _ =>
      (hread _).bind_atomic fun _ => Accepting.atomic ?_
    have hset : ∀ g : Partitions → Partitions, Accepting (setPartitions fun p => .ok (g p)) :=
      fun g => accepting_setPartitions fun _ => noError_ok _
    refine (Accepting.forM (fun x => ?_) _).bind fun _ => (hset _).bind fun _ =>
      (hset _).bind fun _ => (hset _).bind fun _ => accepting_pure _
    exact (accepting_addReplica _ _ _ _).bind fun _ => accepting_setPartition fun _ => noError_ok _
  | updateAssignments cmd =>
    refine (hread _).bind_atomic fun p => (hread _).bind_atomic fun _ =>
      (hread _).bind_atomic fun _ => (hread _).bind_atomic fun _ => Accepting.atomic ?_
    have hset : ∀ g : Partitions → Partitions, Accepting (setPartitions fun p => .ok (g p)) :=
      fun g => accepting_setPartitions fun _ => noError_ok _
    refine (Accepting.forM (fun x => accepting_addReplica _ _ _ _) _).bind fun _ =>
      (Accepting.forM (fun x => ?_) _).bind fun _ =>
      (Accepting.forM (fun x => accepting_setPartition fun _ => noError_ok _) _).bind fun _ =>
      (Accepting.forM (fun x => accepting_setPartition fun _ => noError_ok _) _).bind fun _ =>
      (hset _).bind fun _ => (hset _).bind fun _ => (hset _).bind fun _ =>
      accepting_partitions.bind fun _ => accepting_pure _
    exact accepting_setPartition fun _ => (noError_deref _).bind fun _ => noError_ok _

theorem atomic_applyCommand (t : Time) (cmd : Command) : Atomic (applyCommand t cmd) := by
  have hread : ∀ {α : Type} (g : Fsm → Go ApplyError α), ReadOnly (look g) := readOnly_look
  refine (hread _).bind_atomic fun v => (hread _).bind_atomic fun _ =>
    (hread _).bind_atomic fun payload => (atomic_applyPayload t payload).bind_accepting fun r => ?_
  exact (accepting_change fun _ => noError_ok _).bind fun _ => accepting_pure _

/-! ## What the commands compute -/

section Values

variable {f : Fsm} {s s' : Servers} {p p' : Partitions} {e : Fault ApplyError}

theorem setServers_ok {op : Servers → Go ApplyError Servers} (hs : f.servers = some s)
    (ho : op s = .ok s') : (setServers op).run f = (.ok (), { f with servers := some s' }) :=
  run_change_of_ok (bind_eq_ok.mpr ⟨s, deref_eq_ok.mpr hs, bind_eq_ok.mpr ⟨s', ho, rfl⟩⟩)

theorem gives_setServers {γ β : Type} {e : Servers → Go ApplyError γ}
    {u : Servers → γ → Servers} {k : Unit → Exec β} {h : γ → Go ApplyError (Fsm × β)}
    (hs : f.servers = some s)
    (hk : ∀ x, e s = .ok x → (k ()).Gives { f with servers := some (u s x) } (h x)) :
    (setServers (fun s => e s >>= fun x => pure (u s x)) >>= k).Gives f (e s >>= h) := by
  cases he : e s with
  | ok x =>
    exact gives_bind_of_ok (setServers_ok hs (bind_eq_ok.mpr ⟨x, he, rfl⟩)) (hk x he)
  | error e' =>
    refine run_bind_fst_of_error (congrArg Prod.fst (run_change_of_error ?_))
    exact bind_eq_error.mpr (.inr ⟨s, deref_eq_ok.mpr hs, bind_eq_error.mpr
      (.inl (bind_eq_error.mpr (.inl he)))⟩)

theorem setPartitions_ok {op : Partitions → Go ApplyError Partitions}
    (hp : f.partitions = some p) (ho : op p = .ok p') :
    (setPartitions op).run f = (.ok (), { f with partitions := some p' }) :=
  run_change_of_ok (bind_eq_ok.mpr ⟨p, deref_eq_ok.mpr hp, bind_eq_ok.mpr ⟨p', ho, rfl⟩⟩)

theorem setPartitions_error {op : Partitions → Go ApplyError Partitions}
    (hp : f.partitions = some p) (ho : op p = .error e) :
    (setPartitions op).run f = (.error e, f) :=
  run_change_of_error
    (bind_eq_error.mpr (.inr ⟨p, deref_eq_ok.mpr hp, bind_eq_error.mpr (.inl ho)⟩))

end Values

def withItems (f : Fsm) (p : Partitions) (items : GoMap Nat Partition) : Fsm :=
  { f with partitions := some { p with items := items } }

/-- In place, the partitions become what the function computes. -/
structure OnItems (x : Exec Unit)
    (g : GoMap Nat Partition → Go ApplyError (GoMap Nat Partition)) : Prop where
  ok : ∀ {f p items}, f.partitions = some p → g p.items = .ok items →
    x.run f = (.ok (), withItems f p items)
  error : ∀ {f p e}, f.partitions = some p → g p.items = .error e → (x.run f).1 = .error e

theorem onItems_setPartition (pid : Nat) (op : Partition → Go ApplyError Partition) :
    OnItems (setPartition pid op) fun items => onPartition items pid op := by
  constructor
  · intro f p items hp ho
    refine setPartitions_ok hp ?_
    exact bind_eq_ok.mpr ⟨items, ho, rfl⟩
  · intro f p e hp ho
    have h : (setPartition pid op).run f = (.error e, f) :=
      setPartitions_error hp (bind_eq_error.mpr (.inl ho))
    rw [h]

section Items

variable {f : Fsm} {p : Partitions} {x y : Exec Unit}
  {g h : GoMap Nat Partition → Go ApplyError (GoMap Nat Partition)}

theorem OnItems.of_gives (hx : ∀ f p, f.partitions = some p →
    x.Gives f (g p.items >>= fun items => .ok (withItems f p items, ()))) : OnItems x g where
  ok {f p _} hp hg := by
    have hs := hx f p hp
    rwa [hg] at hs
  error {f p _} hp hg := by
    have hs := hx f p hp
    rwa [hg] at hs

theorem OnItems.bind {β : Type} {k : Unit → Exec β}
    {h : GoMap Nat Partition → Go ApplyError (Fsm × β)} (hx : OnItems x g)
    (hp : f.partitions = some p)
    (hk : ∀ items, g p.items = .ok items → (k ()).Gives (withItems f p items) (h items)) :
    (x >>= k).Gives f (g p.items >>= h) := by
  cases hg : g p.items with
  | ok items => exact gives_bind_of_ok (hx.ok hp hg) (hk items hg)
  | error e => exact run_bind_fst_of_error (hx.error hp hg)

theorem OnItems.gives (hx : OnItems x g) (hp : f.partitions = some p) :
    x.Gives f (g p.items >>= fun items => .ok (withItems f p items, ())) := by
  cases hg : g p.items with
  | ok items => exact hx.ok hp hg
  | error e => exact hx.error hp hg

theorem OnItems.seq (hx : OnItems x g) (hy : OnItems y h) :
    OnItems (x >>= fun _ => y) fun items => g items >>= h := by
  refine .of_gives fun f p hp => ?_
  rw [bind_assoc]
  exact hx.bind hp fun items _ => hy.gives (p := { p with items := items }) rfl

theorem OnItems.forM {α : Type} {body : α → Exec Unit}
    {g : GoMap Nat Partition → α → Go ApplyError (GoMap Nat Partition)}
    (h : ∀ x, OnItems (body x) fun items => g items x) (xs : List α) :
    OnItems (xs.forM body) fun items => xs.foldlM g items := by
  induction xs with
  | nil =>
    refine .of_gives fun f p hp => ?_
    show (Except.ok (), f) = (_, withItems f p p.items)
    unfold withItems
    rw [← hp]
  | cons x xs ih =>
    exact (h x).seq ih

end Items

variable {f : Fsm} {p : Partitions}

theorem partitions_ok (hp : f.partitions = some p) : partitions.run f = (.ok p, f) := by
  rw [partitions, run_look, hp, deref_some]

theorem nextReplicaName_gives (pid : Nat) (hp : f.partitions = some p) :
    (nextReplicaName pid).Gives f
      (Control.nextReplicaName p.items pid >>= fun r => .ok (withItems f p r.1, r.2)) := by
  unfold Control.nextReplicaName
  cases hg : p.items.get pid with
  | none =>
    refine run_bind_fst_of_error ((onItems_setPartition pid _).error hp ?_)
    rw [onPartition, hg]
    rfl
  | some part =>
    have hget : (p.items.store pid { part with lastReplicaId := part.lastReplicaId + 1 }).get pid =
        some { part with lastReplicaId := part.lastReplicaId + 1 } := by
      rw [GoMap.get_store, if_pos rfl, hg]
      rfl
    refine gives_bind_of_ok ((onItems_setPartition pid _).ok hp (onPartition_of_get hg rfl)) ?_
    refine gives_bind_of_ok (partitions_ok rfl) ?_
    exact gives_bind_of_ok (run_look_of_ok (deref_eq_ok.mpr hget)) rfl

theorem onItems_addReplica (t : Time) (pid sid : Nat) (state : ReplicaState) :
    OnItems (addReplica t pid sid state) fun items => Control.addReplica t items pid sid state := by
  refine .of_gives fun f p hp => ?_
  unfold addReplica Control.addReplica
  simp only [bind_assoc]
  refine gives_bind_of_ok (partitions_ok hp) (gives_look_bind fun part _ => ?_)
  have hname := nextReplicaName_gives part.id hp
  cases hn : Control.nextReplicaName p.items part.id with
  | error e =>
    rw [hn] at hname
    exact run_bind_fst_of_error hname
  | ok r =>
    rw [hn] at hname
    refine gives_bind_of_ok hname ?_
    exact (onItems_setPartition pid _).gives (p := { p with items := r.1 }) rfl

/-! ### Bootstrap and Register -/

variable {s : Servers}

theorem bootstrapServers_run (t : Time) (xs : List BootstrapServer)
    {c : AList fun _ : Nat => Server} (hs : f.servers = some s) (hc : s.items = .made c) :
    (xs.forM (bootstrapServer t)).run f = (.ok (), { f with servers := some (xs.foldl (fun s x =>
      { s with
        lastId := max s.lastId x.id
        items := .made (s.items.content.insert x.id
          ⟨x.id, x.name, .control, x.tags, t, some t, x.address⟩) }) s) }) := by
  induction xs generalizing f s c with
  | nil =>
    show (Except.ok (), f) = _
    rw [List.foldl_nil, ← hs]
  | cons x xs ih =>
    have hone : (bootstrapServer t x).run f = (.ok (), { f with servers := some { s with
        lastId := max s.lastId x.id
        items := .made (s.items.content.insert x.id
          ⟨x.id, x.name, .control, x.tags, t, some t, x.address⟩) } }) := by
      refine run_bind_eq (setServers_ok hs rfl) (setServers_ok rfl ?_)
      rw [hc]
      rfl
    refine run_bind_eq hone ?_
    exact ih (s := { s with lastId := max s.lastId x.id, items := .made _ }) rfl rfl

theorem bootstrapPartitions_run (ids : List Nat) {c : AList fun _ : Nat => Partition}
    (hp : f.partitions = some p) (hc : p.items = .made c) :
    (ids.forM bootstrapPartition).run f = (.ok (), { f with partitions := some { p with
      items := .made (ids.foldl (fun c id => c.insert id (emptyPartition id)) c) } }) := by
  induction ids generalizing f p c with
  | nil =>
    show (Except.ok (), f) = _
    rw [List.foldl_nil, ← hc, ← hp]
  | cons id ids ih =>
    have hone : (bootstrapPartition id).run f = (.ok (), { f with partitions := some { p with
        items := .made (c.insert id (emptyPartition id)) } }) := by
      refine setPartitions_ok hp ?_
      rw [hc]
      rfl
    refine run_bind_eq hone ?_
    exact ih (p := { p with items := .made _ }) rfl rfl

theorem follows_applyBootstrap (t : Time) (cmd : Bootstrap) :
    Follows (applyBootstrap t cmd) fun f => Control.applyBootstrap f t cmd := by
  refine .of_gives fun f => ?_
  refine gives_bind_of_ok (run_look_of_ok rfl) ?_
  unfold Control.applyBootstrap
  split
  · rfl
  -- the fields of the cluster, its servers, its partitions
  refine gives_bind_of_ok (run_change_of_ok rfl) ?_
  refine gives_bind_of_ok (run_change_of_ok rfl) ?_
  refine gives_bind_of_ok (run_change_of_ok rfl) ?_
  refine gives_bind_of_ok (run_change_of_ok rfl) ?_
  refine gives_bind_of_ok (bootstrapServers_run t cmd.servers rfl rfl) ?_
  refine gives_bind_of_ok (run_change_of_ok rfl) ?_
  exact gives_bind_of_ok (bootstrapPartitions_run (List.range cmd.partitionCount) rfl rfl) rfl

theorem servers_ok (hs : f.servers = some s) : servers.run f = (.ok s, f) := by
  rw [servers, run_look, hs, deref_some]

theorem nextServerID_ok (hs : f.servers = some s) : nextServerID.run f = (.ok (nextServerId s),
      { f with servers := some { s with lastId := nextServerId s } }) :=
  run_bind_eq (setServers_ok hs rfl) (run_bind_eq (servers_ok rfl) rfl)

theorem follows_applyRegister (t : Time) (cmd : Register) :
    Follows (applyRegister t cmd) fun f => Control.applyRegister f t cmd := by
  refine .of_gives fun f => ?_
  refine gives_look_bind fun s hs => ?_
  rw [deref_eq_ok] at hs
  cases s.tokens.get cmd.token with
  | some id => exact gives_look_bind fun server _ => gives_look_bind fun _ _ => rfl
  | none =>
    simp only [registerNew, bind_assoc, pure_bind]
    refine gives_bind_of_ok (nextServerID_ok hs) ?_
    refine gives_setServers (s := { s with lastId := nextServerId s }) rfl fun items _ => ?_
    refine gives_setServers (s := { s with lastId := nextServerId s, items := items }) rfl
      fun tokens _ => ?_
    exact gives_bind_of_ok (setServers_ok rfl rfl) (gives_bind_of_ok (setServers_ok rfl rfl) rfl)

/-! ### Status -/

theorem updateServersStatus_run {s' : Option Servers} {us : List (Nat × ServerStatus)}
    (h : updateServersStatus f.servers us = .ok s') :
    ∃ mid, (us.forM updateServerStatus).run f = (.ok (), { f with servers := mid }) ∧
      ∀ g : Fsm, g.servers = mid →
        (bumpServersVersion us).run g = (.ok (), { g with servers := s' }) := by
  unfold updateServersStatus at h
  unfold bumpServersVersion
  by_cases hu : us.isEmpty = true
  · rw [if_pos hu] at h ⊢
    cases h
    rw [List.isEmpty_iff.mp hu]
    refine ⟨f.servers, rfl, fun g hg => ?_⟩
    rw [← hg]
    rfl
  · rw [if_neg hu] at h ⊢
    obtain ⟨s, hs, h⟩ := bind_eq_ok.mp h
    cases h
    rw [deref_eq_ok] at hs
    have loop : ∀ (us : List (Nat × ServerStatus)) (f : Fsm) (s : Servers), f.servers = some s →
        (us.forM updateServerStatus).run f = (.ok (), { f with servers := some { s with
          items := us.foldl (fun m u => updateServer m u.1 u.2) s.items } }) := by
      intro us
      induction us with
      | nil =>
        intro f s hs
        show (Except.ok (), f) = _
        rw [List.foldl_nil, ← hs]
      | cons u us ih =>
        intro f s hs
        exact run_bind_eq (setServers_ok hs rfl)
          (ih _ { s with items := updateServer s.items u.1 u.2 } rfl)
    exact ⟨_, loop us f s hs, fun g hg => setServers_ok hg rfl⟩

theorem updateServersStatus_run_error {us : List (Nat × ServerStatus)}
    (h : updateServersStatus f.servers us = .error e) :
    ((us.forM updateServerStatus).run f).1 = .error e := by
  unfold updateServersStatus at h
  cases us with
  | nil => cases h
  | cons u us =>
    rw [if_neg (by simp)] at h
    rcases bind_eq_error.mp h with hs | ⟨s, _, h⟩
    · refine run_bind_fst_of_error (congrArg Prod.fst (run_change_of_error ?_))
      exact bind_eq_error.mpr (.inl hs)
    · cases h

theorem onItems_updatePartitionStatus (u : Nat × PartitionStatus) :
    OnItems (updatePartitionStatus u) fun items => statusItem items u := onItems_setPartition u.1 _

theorem onItems_status (us : List (Nat × PartitionStatus)) :
    OnItems (us.forM updatePartitionStatus) fun items => us.foldlM statusItem items :=
  OnItems.forM onItems_updatePartitionStatus us

theorem updatePartitionsStatus_run {p' : Option Partitions} {us : List (Nat × PartitionStatus)}
    (h : updatePartitionsStatus f.partitions us = .ok p') :
    ∃ mid, (∀ g : Fsm, g.partitions = f.partitions →
        (us.forM updatePartitionStatus).run g = (.ok (), { g with partitions := mid })) ∧
      ∀ g : Fsm, g.partitions = mid →
        (bumpPartitionsVersion us).run g = (.ok (), { g with partitions := p' }) := by
  unfold updatePartitionsStatus at h
  unfold bumpPartitionsVersion
  by_cases hu : us.isEmpty = true
  · rw [if_pos hu] at h ⊢
    cases h
    rw [List.isEmpty_iff.mp hu]
    refine ⟨f.partitions, fun g hg => ?_, fun g hg => ?_⟩
    · rw [← hg]
      rfl
    · rw [← hg]
      rfl
  · rw [if_neg hu] at h ⊢
    obtain ⟨p, hp, h⟩ := bind_eq_ok.mp h
    obtain ⟨items, hi, h⟩ := bind_eq_ok.mp h
    cases h
    rw [deref_eq_ok] at hp
    exact ⟨_, fun g hg => (onItems_status us).ok (hg.trans hp) hi,
      fun g hg => setPartitions_ok hg rfl⟩

theorem updatePartitionsStatus_run_error {g : Fsm} {us : List (Nat × PartitionStatus)}
    (h : updatePartitionsStatus f.partitions us = .error e) (hg : g.partitions = f.partitions) :
    ((us.forM updatePartitionStatus).run g).1 = .error e := by
  unfold updatePartitionsStatus at h
  by_cases hu : us.isEmpty = true
  · rw [if_pos hu] at h
    cases h
  rw [if_neg hu] at h
  rcases bind_eq_error.mp h with hp | ⟨p, hp, h⟩
  · obtain _ | ⟨u, us⟩ := us
    · exact absurd rfl hu
    refine run_bind_fst_of_error (congrArg Prod.fst (run_change_of_error ?_))
    rw [hg]
    exact bind_eq_error.mpr (.inl hp)
  · rw [deref_eq_ok] at hp
    rcases bind_eq_error.mp h with hi | ⟨_, _, h⟩
    · exact (onItems_status us).error (hg.trans hp) hi
    · cases h

theorem follows_applyUpdateStatus (cmd : UpdateStatus) :
    Follows (applyUpdateStatus cmd) fun f => Control.applyUpdateStatus f cmd := by
  constructor
  · intro f f' r h
    obtain ⟨s', hs, h⟩ := bind_eq_ok.mp h
    obtain ⟨p', hp, h⟩ := bind_eq_ok.mp h
    cases h
    obtain ⟨s, hloop, hbump⟩ := updateServersStatus_run hs
    obtain ⟨p, hloop', hbump'⟩ := updatePartitionsStatus_run hp
    refine run_bind_eq hloop (run_bind_eq (hloop' _ rfl) ?_)
    exact run_bind_eq (hbump _ rfl) (run_bind_eq (hbump' _ rfl) rfl)
  · intro f e h
    rcases bind_eq_error.mp h with hs | ⟨s', hs, h⟩
    · exact run_bind_fst_of_error (updateServersStatus_run_error hs)
    obtain ⟨s, hloop, _⟩ := updateServersStatus_run hs
    rcases bind_eq_error.mp h with hp | ⟨_, _, h⟩
    · exact run_bind_fst hloop (run_bind_fst_of_error (updatePartitionsStatus_run_error hp rfl))
    · cases h

/-! ### Assignments -/

theorem onItems_initAdd (t : Time) (x : InitAdd) :
    OnItems (initAdd t x) fun items => Control.initAdd t items x :=
  (onItems_addReplica t x.partitionId x.serverId _).seq (onItems_setPartition x.partitionId _)

theorem follows_applyInitAssignments (t : Time) (cmd : InitAssignments) :
    Follows (applyInitAssignments t cmd) fun f => Control.applyInitAssignments f t cmd := by
  refine .of_gives fun f => ?_
  refine gives_look_bind fun p hp => gives_look_bind fun _ _ => gives_look_bind fun _ _ => ?_
  rw [deref_eq_ok] at hp
  refine (OnItems.forM (onItems_initAdd t) cmd.add).bind hp fun items _ => ?_
  refine gives_bind_of_ok (setPartitions_ok rfl rfl) ?_
  refine gives_bind_of_ok (setPartitions_ok rfl rfl) ?_
  exact gives_bind_of_ok (setPartitions_ok rfl rfl) rfl

section Changes

variable (t : Time)

theorem onItems_addItem (x : Add) : OnItems (addItem t x) fun items => Control.addItem t items x :=
  onItems_addReplica t x.partitionId x.serverId .joining

theorem onItems_updateItem (x : Update) :
    OnItems (updateItem t x) fun items => Control.updateItem t items x :=
  onItems_setPartition x.partitionId _

theorem onItems_removeItem (x : Remove) :
    OnItems (removeItem x) fun items => Control.removeItem items x :=
  onItems_setPartition x.partitionId _

theorem onItems_bumpVersion (pid : Nat) :
    OnItems (bumpVersion pid) fun items => Control.bumpVersion items pid :=
  onItems_setPartition pid _

theorem follows_applyUpdateAssignments (cmd : UpdateAssignments) :
    Follows (applyUpdateAssignments t cmd) fun f => Control.applyUpdateAssignments f t cmd := by
  refine .of_gives fun f => ?_
  unfold Control.applyUpdateAssignments changeItems
  simp only [bind_assoc]
  refine gives_look_bind fun p hp => ?_
  rw [deref_eq_ok] at hp
  refine gives_look_bind fun _ _ => gives_look_bind fun _ _ => gives_look_bind fun _ _ => ?_
  -- the four loops
  refine (OnItems.forM (onItems_addItem t) cmd.add).bind hp fun added _ => ?_
  refine (OnItems.forM (onItems_updateItem t) cmd.update).bind
    (p := { p with items := added }) rfl fun updated _ => ?_
  refine (OnItems.forM onItems_removeItem cmd.remove).bind
    (p := { p with items := updated }) rfl fun removed _ => ?_
  refine (OnItems.forM onItems_bumpVersion cmd.changed).bind
    (p := { p with items := removed }) rfl fun items _ => ?_
  refine gives_bind_of_ok (setPartitions_ok rfl rfl) ?_
  refine gives_bind_of_ok (setPartitions_ok rfl rfl) ?_
  refine gives_bind_of_ok (setPartitions_ok rfl rfl) ?_
  exact gives_bind_of_ok (partitions_ok rfl) rfl

theorem follows_applyPayload (payload : Payload) :
    Follows (applyPayload t payload) fun f => Control.applyPayload f t payload := by
  cases payload with
  | bootstrap cmd => exact follows_applyBootstrap t cmd
  | register cmd => exact follows_applyRegister t cmd
  | updateStatus cmd => exact follows_applyUpdateStatus cmd
  | initAssignments cmd => exact follows_applyInitAssignments t cmd
  | updateAssignments cmd => exact follows_applyUpdateAssignments t cmd

theorem follows_applyCommand (cmd : Command) :
    Follows (applyCommand t cmd) fun f => Control.applyCommand f t cmd := by
  refine .of_gives fun f => ?_
  refine gives_bind_of_ok (run_look_of_ok rfl) ?_
  refine gives_look_bind fun _ _ => gives_look_bind fun payload _ => ?_
  refine ((follows_applyPayload t payload).gives f).bind fun f' r _ => ?_
  exact gives_bind_of_ok (run_change_of_ok rfl) rfl

end Changes

/-- **Executing a command in place gives what the function computes.** -/
theorem apply_eq (f : Fsm) (e : Entry) : InPlace.apply f e = Control.apply f e := by
  unfold InPlace.apply Control.apply
  cases e.data with
  | none => rfl
  | some cmd =>
    dsimp only
    have hfollows := follows_applyCommand e.appendedAt cmd
    rcases h : Control.applyCommand f e.appendedAt cmd with (_ | err) | ⟨f', r⟩
    · rw [show (applyCommand e.appendedAt cmd).run f =
        (.error .panic, ((applyCommand e.appendedAt cmd).run f).2) from
        Prod.ext (hfollows.error h) rfl]
    · rw [hfollows.rejected (atomic_applyCommand e.appendedAt cmd) h]
    · rw [hfollows.ok h]

theorem step_eq (f : Fsm) (a : Step) : InPlace.step f a = Control.step f a := by
  cases a with
  | apply e =>
    show (InPlace.apply f e).map Prod.fst = (Control.apply f e).map Prod.fst
    rw [apply_eq]
  | restore => rfl

/-- **Runs in place.** Log entries and restores that are executed assignment by assignment lead to
the states of the functions, and the next entry gets the same answer or panics in both. -/
theorem inPlace_runs (f : Fsm) (steps : List Step) (e : Entry) :
    runSteps InPlace.step f steps = runSteps Control.step f steps ∧
      (runSteps InPlace.step f steps).bind (InPlace.apply · e) =
        (runSteps Control.step f steps).bind (Control.apply · e) := by
  rw [show InPlace.step = Control.step from funext₂ step_eq]
  simp only [apply_eq, and_self]

end InPlace

end Scout.Control
