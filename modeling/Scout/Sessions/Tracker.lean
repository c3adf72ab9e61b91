import Scout.Control.Execution

/-!
The status of servers and replicas that the session tracker of the control leader
keeps in memory and writes to the state machine from time to time.
-/

namespace Scout.Sessions

open Lib Control

structure ServerStatus where
  lastSeen : Option Time
  lastAddress : String
  dirty : Bool

structure ReplicaStatus where
  lastUpdate : Option Time
  appliedIndex : Nat
  ready : Bool

structure PartitionStatus where
  id : Nat
  replicas : AList fun _ : String => ReplicaStatus
  leader : String
  leaderTerm : Nat
  leaderAppliedIndex : Nat
  commitedIndex : Nat
  dirty : Bool

structure StatusTracker where
  servers : AList fun _ : Nat => ServerStatus
  partitions : AList fun _ : Nat => PartitionStatus

structure DataServerStatus where
  name : String
  isLeader : Bool
  leaderTerm : Nat
  commitedIndex : Nat
  appliedIndex : Nat
  ready : Bool
  deriving DecidableEq, Repr

/-! ## From the state machine -/

def newServerStatus (server : Server) : ServerStatus :=
  ⟨server.lastSeen, server.lastAddress, false⟩

/-- Control servers do not create sessions. -/
def trackedServer (server : Server) : Option ServerStatus :=
  if server.type = .control then none else some (newServerStatus server)

def newReplicaStatus (replica : Replica) : ReplicaStatus :=
  ⟨replica.lastUpdate, replica.appliedIndex, replica.ready⟩

/-- The applied index of the leader is not taken over. -/
def newPartitionStatus (part : Partition) : PartitionStatus :=
  ⟨part.id, GoMap.mapContent newReplicaStatus part.replicas.content, part.leader, part.leaderTerm,
    0, part.commitedIndex, false⟩

def newStatusTracker (servers : Servers) (partitions : Partitions) : StatusTracker :=
  ⟨pick trackedServer servers.items.content,
    GoMap.mapContent newPartitionStatus partitions.items.content⟩

def PartitionStatus.syncReplicas (p : PartitionStatus) (newReplicas : GoMap String Replica) :
    PartitionStatus :=
  { p with
    replicas := addKeys newReplicaStatus newReplicas.content
      (keepKeys newReplicas.content p.replicas) }

def syncPartition (partitions : AList fun _ : Nat => PartitionStatus) (x : Nat × Partition) :
    AList fun _ : Nat => PartitionStatus :=
  match partitions.lookup x.1 with
  | none => partitions.insert x.1 (newPartitionStatus x.2)
  | some p => partitions.insert x.1 (p.syncReplicas x.2.replicas)

namespace StatusTracker

def syncPartitions (t : StatusTracker) (newPartitions : Partitions) : StatusTracker :=
  { t with partitions := newPartitions.items.toList.foldl syncPartition t.partitions }

def syncServers (t : StatusTracker) (newServers : Servers) : StatusTracker :=
  { t with
    servers := addKeys id (pick trackedServer newServers.items.content)
      (keepKeys newServers.items.content t.servers) }

/-! ## From the sessions -/

def recordNewSession (t : StatusTracker) (sid : Nat) (address : String) (now : Time) :
    StatusTracker :=
  match t.servers.lookup sid with
  | none => t
  | some _ => { t with servers := t.servers.insert sid ⟨some now, address, true⟩ }

def recordSessionReceived (t : StatusTracker) (sid : Nat) (now : Time) : StatusTracker :=
  match t.servers.lookup sid with
  | none => t
  | some s => { t with servers := t.servers.insert sid ⟨some now, s.lastAddress, true⟩ }

end StatusTracker

/-- An applied index of 0, as a leaving replica reports it, does not replace the last value. -/
def ReplicaStatus.record (r : ReplicaStatus) (now : Time) (update : DataServerStatus) :
    ReplicaStatus :=
  ⟨some now, if update.appliedIndex ≠ 0 then update.appliedIndex else r.appliedIndex,
    update.ready⟩

/-- Record the status of a replica that is known, and tell whether the leader changed. -/
def PartitionStatus.record (p : PartitionStatus) (now : Time) (update : DataServerStatus) :
    PartitionStatus × Bool :=
  match p.replicas.lookup update.name with
  | none => (p, false)
  | some r =>
    let leaderChanged := update.isLeader && decide (p.leaderTerm < update.leaderTerm)
    let p := { p with
      replicas := p.replicas.insert update.name (r.record now update)
      commitedIndex := max p.commitedIndex update.commitedIndex
      dirty := true }
    if leaderChanged then
      ({ p with
        leader := update.name
        leaderTerm := update.leaderTerm
        leaderAppliedIndex := update.appliedIndex }, true)
    else (p, false)

/-- A partition without a status is a nil pointer. -/
def recordPartition (now : Time) (x : StatusTracker × Bool) (update : Nat × DataServerStatus) :
    Option (StatusTracker × Bool) := do
  let p ← x.1.partitions.lookup update.1
  let y := p.record now update.2
  return ({ x.1 with partitions := x.1.partitions.insert update.1 y.1 }, x.2 || y.2)

def recordReplicaStatus (t : StatusTracker) (now : Time) (updates : List (Nat × DataServerStatus)) :
    Option (StatusTracker × Bool) :=
  updates.foldlM (recordPartition now) (t, false)

/-! ## To the state machine -/

def serverUpdate (s : ServerStatus) : Option Control.ServerStatus :=
  if s.dirty then some ⟨s.lastSeen, s.lastAddress⟩ else none

def replicaUpdate (r : ReplicaStatus) : Control.ReplicaStatus :=
  ⟨r.lastUpdate, r.appliedIndex, r.ready⟩

def partitionUpdate (p : PartitionStatus) : Option Control.PartitionStatus :=
  if p.dirty then
    some ⟨GoMap.mapContent replicaUpdate p.replicas, p.leader, p.leaderTerm, p.leaderAppliedIndex,
      p.commitedIndex⟩
  else none

namespace StatusTracker

def latestStatus (t : StatusTracker) : UpdateStatus :=
  ⟨pick serverUpdate t.servers, pick partitionUpdate t.partitions⟩

def clean (t : StatusTracker) : StatusTracker :=
  ⟨GoMap.mapContent (fun s => { s with dirty := false }) t.servers,
    GoMap.mapContent (fun p => { p with dirty := false }) t.partitions⟩

/-- The command that is sent, if any. What has been written is not dirty any more, unless
the write failed. -/
def writeLatestStatus (t : StatusTracker) (succeeded : Bool) :
    Option UpdateStatus × StatusTracker :=
  let update := t.latestStatus
  if update.servers.entries.isEmpty && update.partitions.entries.isEmpty then (none, t)
  else (some update, if succeeded then t.clean else t)

end StatusTracker

/-! ## Where a Ready flag comes from -/

def ReadyAt (items : GoMap Nat Partition) (pid : Nat) (name : String) : Prop :=
  ∃ r, replicaAt items pid name = some r ∧ r.ready = true

def StatusTracker.Ready (t : StatusTracker) (pid : Nat) (name : String) : Prop :=
  ∃ p r, t.partitions.lookup pid = some p ∧ p.replicas.lookup name = some r ∧ r.ready = true

/-- The command makes the replica ready. -/
def Reports (cmd : UpdateStatus) (pid : Nat) (name : String) : Prop :=
  ∃ p r, cmd.partitions.lookup pid = some p ∧ p.replicas.lookup name = some r ∧ r.ready = true

section Ready

variable {pid : Nat} {name : String} {r : ReplicaStatus}

theorem newPartitionStatus_ready {part : Partition}
    (h : (newPartitionStatus part).replicas.lookup name = some r) :
    ∃ r₀, part.replicas.get name = some r₀ ∧ newReplicaStatus r₀ = r := by
  rw [show (newPartitionStatus part).replicas =
    GoMap.mapContent newReplicaStatus part.replicas.content from rfl,
    GoMap.lookup_mapContent, Option.map_eq_some_iff] at h
  exact h

theorem newStatusTracker_ready {servers : Servers} {partitions : Partitions}
    (h : (newStatusTracker servers partitions).Ready pid name) :
    ReadyAt partitions.items pid name := by
  obtain ⟨p, r, hp, hr, hready⟩ := h
  rw [show (newStatusTracker servers partitions).partitions =
    GoMap.mapContent newPartitionStatus partitions.items.content from rfl,
    GoMap.lookup_mapContent, Option.map_eq_some_iff] at hp
  obtain ⟨part, hg, rfl⟩ := hp
  obtain ⟨r₀, hr₀, rfl⟩ := newPartitionStatus_ready hr
  exact ⟨r₀, replicaAt_eq_some.mpr ⟨part, hg, hr₀⟩, hready⟩

theorem syncReplicas_ready {p : PartitionStatus} {replicas : GoMap String Replica}
    (h : (p.syncReplicas replicas).replicas.lookup name = some r) :
    p.replicas.lookup name = some r ∨
      ∃ r₀, replicas.get name = some r₀ ∧ newReplicaStatus r₀ = r := by
  rcases lookup_addKeys h with h | h
  · exact .inl (lookup_keepKeys h)
  · exact .inr h

variable {t : StatusTracker}

theorem syncPartitions_ready {partitions : Partitions}
    (h : (t.syncPartitions partitions).Ready pid name) :
    t.Ready pid name ∨ ReadyAt partitions.items pid name := by
  refine List.foldlRecOn (motive := fun ps : AList fun _ : Nat => PartitionStatus =>
    (∃ p r, ps.lookup pid = some p ∧ p.replicas.lookup name = some r ∧ r.ready = true) →
    t.Ready pid name ∨ ReadyAt partitions.items pid name) _ _ .inl ?_ h
  rintro ps ih ⟨q, part⟩ he ⟨p, r, hp, hr, hready⟩
  have hg : partitions.items.get q = some part := GoMap.mem_toList.mp he
  -- a replica that is taken over from the cluster state
  have hnew : ∀ r₀, part.replicas.get name = some r₀ → newReplicaStatus r₀ = r → pid = q →
      t.Ready pid name ∨ ReadyAt partitions.items pid name := by
    rintro r₀ hr₀ rfl rfl
    exact .inr ⟨r₀, replicaAt_eq_some.mpr ⟨part, hg, hr₀⟩, hready⟩
  unfold syncPartition at hp
  by_cases hq : pid = q
  · subst hq
    cases hl : ps.lookup pid with
    | none =>
      rw [hl] at hp
      rw [AList.lookup_insert, Option.some_inj] at hp
      subst hp
      obtain ⟨r₀, hr₀, he₀⟩ := newPartitionStatus_ready hr
      exact hnew r₀ hr₀ he₀ rfl
    | some p₀ =>
      rw [hl] at hp
      rw [AList.lookup_insert, Option.some_inj] at hp
      subst hp
      rcases syncReplicas_ready hr with h₀ | ⟨r₀, hr₀, he₀⟩
      · exact ih ⟨p₀, r, hl, h₀, hready⟩
      · exact hnew r₀ hr₀ he₀ rfl
  · have hkeep : ps.lookup pid = some p := by
      split at hp <;> rwa [AList.lookup_insert_ne hq] at hp
    exact ih ⟨p, r, hkeep, hr, hready⟩

theorem record_ready {p : PartitionStatus} {now : Time} {update : DataServerStatus}
    (h : (p.record now update).1.replicas.lookup name = some r) (hready : r.ready = true) :
    p.replicas.lookup name = some r ∨ update.name = name ∧ update.ready = true := by
  unfold PartitionStatus.record at h
  cases hl : p.replicas.lookup update.name with
  | none =>
    rw [hl] at h
    exact .inl h
  | some r₀ =>
    rw [hl] at h
    dsimp only at h
    have h' : (p.replicas.insert update.name (r₀.record now update)).lookup name = some r := by
      split at h <;> exact h
    rcases lookup_insert_eq_some.mp h' with ⟨hn, rfl⟩ | ⟨_, hold⟩
    · exact .inr ⟨hn.symm, hready⟩
    · exact .inl hold

theorem recordPartition_ready {now : Time} {x y : StatusTracker × Bool}
    {update : Nat × DataServerStatus} (h : recordPartition now x update = some y)
    (hr : y.1.Ready pid name) :
    x.1.Ready pid name ∨ update.1 = pid ∧ update.2.name = name ∧ update.2.ready = true := by
  obtain ⟨p, hp, h⟩ := Option.bind_eq_some_iff.mp h
  cases h
  obtain ⟨p', r, hp', hr, hready⟩ := hr
  rcases lookup_insert_eq_some.mp hp' with ⟨rfl, rfl⟩ | ⟨_, hp'⟩
  · rcases record_ready hr hready with hold | ⟨hn, hu⟩
    · exact .inl ⟨p, r, hp, hold, hready⟩
    · exact .inr ⟨rfl, hn, hu⟩
  · exact .inl ⟨p', r, hp', hr, hready⟩

theorem clean_ready (h : t.clean.Ready pid name) : t.Ready pid name := by
  obtain ⟨p, r, hp, hr, hready⟩ := h
  rw [show t.clean.partitions = GoMap.mapContent (fun p => { p with dirty := false }) t.partitions
    from rfl, GoMap.lookup_mapContent, Option.map_eq_some_iff] at hp
  obtain ⟨p₀, hp₀, rfl⟩ := hp
  exact ⟨p₀, r, hp₀, hr, hready⟩

theorem latestStatus_ready (h : Reports t.latestStatus pid name) : t.Ready pid name := by
  obtain ⟨p, r, hp, hr, hready⟩ := h
  rw [show t.latestStatus.partitions = pick partitionUpdate t.partitions from rfl,
    lookup_pick] at hp
  obtain ⟨p₀, hp₀, hu⟩ := Option.bind_eq_some_iff.mp hp
  unfold partitionUpdate at hu
  split at hu
  · cases hu
    rw [GoMap.lookup_mapContent, Option.map_eq_some_iff] at hr
    obtain ⟨r₀, hr₀, rfl⟩ := hr
    exact ⟨p₀, r₀, hp₀, hr₀, hready⟩
  · cases hu

theorem writeLatestStatus_ready {t' : StatusTracker} {succeeded : Bool} {o : Option UpdateStatus}
    (h : t.writeLatestStatus succeeded = (o, t')) : (t'.Ready pid name → t.Ready pid name) ∧
      ∀ cmd ∈ o, Reports cmd pid name → t.Ready pid name := by
  unfold StatusTracker.writeLatestStatus at h
  dsimp only at h
  split at h
  · cases h
    exact ⟨id, nofun⟩
  · cases h
    refine ⟨fun hr => ?_, fun cmd hcmd hr => ?_⟩
    · split at hr
      · exact clean_ready hr
      · exact hr
    · cases hcmd
      exact latestStatus_ready hr

end Ready

end Scout.Sessions
