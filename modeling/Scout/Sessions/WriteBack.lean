import Scout.Sessions.Reports

/-!
A new control leader builds its tracker from the state machine, records reports and
writes the status back. The status goes through three copies: from the state machine to
the tracker, from there to a command, and from the command to the state machine.

`status_kept_iff` says when every field that no report has changed comes back as it was:
the applied index of the leader is lost on the way.
-/

namespace Scout.Sessions

open Lib Control

/-- `writeLatestStatus`, with the command applied to the state machine. -/
def writeBack (f : Fsm) (t : StatusTracker) : Go ApplyError Fsm :=
  match (t.writeLatestStatus true).1 with
  | none => .ok f
  | some cmd => (applyUpdateStatus f cmd).map Prod.fst

/-! ## The command at the state machine -/

theorem updateStatus_get (part : Partition) (u : Control.PartitionStatus) (name : String) :
    (part.updateStatus u).replicas.get name =
      (u.replicas.lookup name).elim (part.replicas.get name) fun r =>
        (part.replicas.get name).map fun replica => { replica with
            lastUpdate := r.lastUpdate, appliedIndex := r.appliedIndex, ready := r.ready } :=
  foldl_update (fun rs k => GoMap.get rs k) updateReplica
    (fun (r : Control.ReplicaStatus) (replica : Replica) =>
      { replica with
        lastUpdate := r.lastUpdate, appliedIndex := r.appliedIndex, ready := r.ready })
    updateReplica_get u.replicas part.replicas name

/-- One step of the loop over the partitions, where the partition exists. -/
def updatePartition (items : GoMap Nat Partition) (pid : Nat) (u : Control.PartitionStatus) :
    GoMap Nat Partition :=
  match items.get pid with
  | none => items
  | some part => items.store pid (part.updateStatus u)

theorem updatePartition_get (items : GoMap Nat Partition) (pid : Nat)
    (u : Control.PartitionStatus) (q : Nat) : (updatePartition items pid u).get q =
      if q = pid then (items.get pid).map fun part => part.updateStatus u else items.get q := by
  unfold updatePartition
  cases hp : items.get pid with
  | none =>
    by_cases hq : q = pid
    · simp [hq, hp]
    · simp [hq]
  | some part =>
    rw [GoMap.get_store, hp]
    rfl

theorem statusItem_eq {items : GoMap Nat Partition} {x : Nat × Control.PartitionStatus}
    (h : (items.get x.1).isSome = true) :
    statusItem items x = .ok (updatePartition items x.1 x.2) := by
  obtain ⟨part, hp⟩ := Option.isSome_iff_exists.mp h
  unfold statusItem onPartition updatePartition
  rw [hp]
  rfl

theorem statusItems_eq {us : List (Sigma fun _ : Nat => Control.PartitionStatus)}
    {items : GoMap Nat Partition} (h : ∀ e ∈ us, (items.get e.1).isSome = true) :
    (us.map fun e => (e.1, e.2)).foldlM statusItem items =
      .ok (us.foldl (fun m e => updatePartition m e.1 e.2) items) := by
  induction us generalizing items with
  | nil => rfl
  | cons e us ih =>
    have he := h e (by simp)
    have hrest : ∀ x ∈ us, ((updatePartition items e.1 e.2).get x.1).isSome = true := by
      intro x hx
      rw [updatePartition_get]
      split
      · rw [Option.isSome_map]
        exact he
      · exact h x (by simp [hx])
    rw [List.map_cons, List.foldlM_cons, statusItem_eq he, List.foldl_cons]
    exact ih hrest

theorem updateServersStatus_ok (s : Servers) (us : List (Nat × Control.ServerStatus)) :
    ∃ s', updateServersStatus (some s) us = .ok s' := by
  unfold updateServersStatus
  split
  · exact ⟨some s, rfl⟩
  · exact ⟨_, rfl⟩

theorem updatePartitionsStatus_get {p : Control.Partitions}
    {us : AList fun _ : Nat => Control.PartitionStatus}
    (h : ∀ pid, (us.lookup pid).isSome = true → (p.items.get pid).isSome = true) :
    ∃ p', updatePartitionsStatus (some p) (us.entries.map fun e => (e.1, e.2)) = .ok (some p') ∧
      ∀ pid, p'.items.get pid = (us.lookup pid).elim (p.items.get pid) fun u =>
          (p.items.get pid).map fun part => part.updateStatus u := by
  have hloop := foldl_update (fun m k => GoMap.get m k) updatePartition
    (fun u part => part.updateStatus u) updatePartition_get us p.items
  have hkeys : ∀ e ∈ us.entries, (p.items.get e.1).isSome = true := by
    intro e he
    apply h
    rw [AList.lookup_isSome]
    exact List.mem_keys_of_mem he
  unfold updatePartitionsStatus
  by_cases hempty : (us.entries.map fun e => (e.1, e.2)).isEmpty = true
  · rw [if_pos hempty]
    have hnil : us.entries = [] := by simpa using hempty
    refine ⟨p, rfl, fun pid => ?_⟩
    have hstep := hloop pid
    rw [hnil] at hstep
    exact hstep
  · rw [if_neg hempty]
    show ∃ p', (List.foldlM statusItem p.items _ >>= _) = _ ∧ _
    rw [statusItems_eq hkeys]
    exact ⟨_, rfl, hloop⟩

theorem writeBack_get {f : Fsm} {s : Servers} {p : Control.Partitions} {t : StatusTracker}
    (hs : f.servers = some s) (hp : f.partitions = some p)
    (hkeys : ∀ pid, (t.partitions.lookup pid).isSome = true → (p.items.get pid).isSome = true) :
    ∃ f' p', writeBack f t = .ok f' ∧ f'.partitions = some p' ∧ ∀ pid, p'.items.get pid =
        ((t.partitions.lookup pid).bind partitionUpdate).elim (p.items.get pid) fun u =>
          (p.items.get pid).map fun part => part.updateStatus u := by
  have hlookup : ∀ pid, t.latestStatus.partitions.lookup pid =
      (t.partitions.lookup pid).bind partitionUpdate := lookup_pick partitionUpdate t.partitions
  have hsome : ∀ pid, (t.latestStatus.partitions.lookup pid).isSome = true →
      (p.items.get pid).isSome = true := by
    intro pid h
    rw [hlookup] at h
    apply hkeys
    cases hl : t.partitions.lookup pid with
    | none => simp [hl] at h
    | some _ => rfl
  obtain ⟨s', hs'⟩ := updateServersStatus_ok s
    (t.latestStatus.servers.entries.map fun e => (e.1, e.2))
  obtain ⟨p', hp', hget⟩ := updatePartitionsStatus_get hsome
  have happly : (applyUpdateStatus f t.latestStatus).map Prod.fst =
      .ok { f with servers := s', partitions := some p' } := by
    unfold applyUpdateStatus
    rw [hs, hp, hs']
    rw [hp']
    rfl
  simp only [hlookup] at hget
  unfold writeBack StatusTracker.writeLatestStatus
  by_cases hempty : (t.latestStatus.servers.entries.isEmpty &&
      t.latestStatus.partitions.entries.isEmpty) = true
  · -- nothing is sent, and there is no partition that would be changed
    rw [if_pos hempty]
    refine ⟨f, p, rfl, hp, fun pid => ?_⟩
    have hnil := List.isEmpty_iff.mp (Bool.and_eq_true_iff.mp hempty).2
    rw [← hlookup, AList.lookup, hnil]
    rfl
  · rw [if_neg hempty]
    exact ⟨_, p', happly, rfl, hget⟩

/-! ## The round trip -/

def reportsOn (part : Partition) (r : DataServerStatus) : Bool :=
  (part.replicas.get r.name).isSome

/-- A field for which no report has a new value stays as it was. -/
structure Keeps (rs : List DataServerStatus) (part part' : Partition) : Prop where
  leader : NoNewLeader part.leaderTerm rs → part'.leader = part.leader
  leaderTerm : NoNewLeader part.leaderTerm rs → part'.leaderTerm = part.leaderTerm
  leaderAppliedIndex : NoNewLeader part.leaderTerm rs →
    part'.leaderAppliedIndex = part.leaderAppliedIndex
  commitedIndex : (∀ r ∈ rs, r.commitedIndex ≤ part.commitedIndex) →
    part'.commitedIndex = part.commitedIndex
  unreported : ∀ name, (∀ r ∈ rs, r.name ≠ name) →
    part'.replicas.get name = part.replicas.get name
  appliedIndex : ∀ name, (∀ r ∈ rs, r.name = name → r.appliedIndex = 0) →
    (part'.replicas.get name).map Replica.appliedIndex =
      (part.replicas.get name).map Replica.appliedIndex

/-- The applied index of the leader is lost unless it is 0: a report has made the partition
dirty, and no report has brought a new leader. -/
def LeaderAppliedKept (rs : List DataServerStatus) (part : Partition) : Prop :=
  rs ≠ [] → NoNewLeader part.leaderTerm rs → part.leaderAppliedIndex = 0

theorem newPartitionStatus_lookup (part : Partition) (name : String) :
    (newPartitionStatus part).replicas.lookup name =
      (part.replicas.get name).map newReplicaStatus :=
  GoMap.lookup_mapContent _ _ _

theorem knows_newPartitionStatus (part : Partition) :
    (newPartitionStatus part).knows = reportsOn part := by
  funext r
  unfold PartitionStatus.knows reportsOn
  rw [newPartitionStatus_lookup, Option.isSome_map]

theorem foldl_max_le (xs : List Nat) {n : Nat} (h : ∀ x ∈ xs, x ≤ n) : xs.foldl max n = n := by
  induction xs with
  | nil => rfl
  | cons x xs ih =>
    have hx := h x (by simp)
    rw [List.foldl_cons, Nat.max_eq_left hx]
    exact ih fun y hy => h y (by simp [hy])

section Keeps

variable {part : Partition} {rs : List DataServerStatus} {p : PartitionStatus}

theorem partitionUpdate_clean (h : Recorded (newPartitionStatus part) [] p) :
    partitionUpdate p = none := by
  unfold partitionUpdate
  rw [h.dirty]
  rfl

theorem partitionUpdate_dirty (h : Recorded (newPartitionStatus part) rs p) (hne : rs ≠ []) :
    partitionUpdate p = some ⟨GoMap.mapContent replicaUpdate p.replicas, p.leader, p.leaderTerm,
      p.leaderAppliedIndex, p.commitedIndex⟩ := by
  unfold partitionUpdate
  rw [h.dirty, List.isEmpty_eq_false_iff.mpr hne]
  rfl

theorem Keeps.refl : Keeps rs part part :=
  ⟨fun _ => rfl, fun _ => rfl, fun _ => rfl, fun _ => rfl, fun _ _ => rfl, fun _ _ => rfl⟩

theorem writtenReplica_get (u : Control.PartitionStatus)
    (hu : u.replicas = GoMap.mapContent replicaUpdate p.replicas) (name : String) :
    (part.updateStatus u).replicas.get name =
      (p.replicas.lookup name).elim (part.replicas.get name) fun r =>
        (part.replicas.get name).map fun replica => { replica with
            lastUpdate := r.lastUpdate, appliedIndex := r.appliedIndex, ready := r.ready } := by
  rw [updateStatus_get, hu, GoMap.lookup_mapContent]
  cases p.replicas.lookup name with
  | none => rfl
  | some r => rfl

theorem keeps_iff (h : Recorded (newPartitionStatus part) rs p) :
    Keeps rs part ((partitionUpdate p).elim part part.updateStatus) ↔
      LeaderAppliedKept rs part := by
  by_cases hne : rs = []
  · subst hne
    rw [partitionUpdate_clean h]
    constructor
    · intro _ hne
      exact absurd rfl hne
    · intro _
      exact Keeps.refl
  · rw [partitionUpdate_dirty h hne]
    constructor
    · intro hkeeps _ hn
      have happ : p.leaderAppliedIndex = part.leaderAppliedIndex := hkeeps.leaderAppliedIndex hn
      rw [← happ]
      exact h.appliedByLeader hn
    · intro hlost
      constructor
      · intro hn
        exact (h.leads.kept hn).1
      · intro hn
        exact (h.leads.kept hn).2
      · intro hn
        rw [hlost hne hn]
        exact h.appliedByLeader hn
      · intro hle
        have hmax : p.commitedIndex =
            (rs.map DataServerStatus.commitedIndex).foldl max part.commitedIndex := h.leads.commited
        rw [hmax]
        apply foldl_max_le
        simpa using hle
      · intro name hno
        show (part.updateStatus _).replicas.get name = _
        rw [writtenReplica_get _ rfl, h.unreported name hno, newPartitionStatus_lookup]
        cases part.replicas.get name with
        | none => rfl
        | some replica => rfl
      · intro name hzero
        have happ := h.applied name hzero
        show ((part.updateStatus _).replicas.get name).map _ = _
        rw [writtenReplica_get _ rfl]
        rw [newPartitionStatus_lookup] at happ
        cases hr : p.replicas.lookup name with
        | none => rfl
        | some r =>
          rw [hr] at happ
          cases hg : part.replicas.get name with
          | none => rfl
          | some replica =>
            rw [hg] at happ
            exact happ

end Keeps

def reportsAbout (ms : List Message) (pid : Nat) (part : Partition) : List DataServerStatus :=
  (reportsFor pid (reports ms)).filter (reportsOn part)

/-- **A change of the control leader keeps the status** of the partitions where nothing new
is reported, but for the applied index of the leader: that is written as 0 when a replica
reports and no replica reports that it leads in a later term. -/
theorem status_kept_iff {f : Fsm} {s : Servers} {p : Control.Partitions} {ms : List Message}
    (hs : f.servers = some s) (hp : f.partitions = some p)
    (hms : ∀ u ∈ reports ms, (p.items.get u.1).isSome = true) :
    ∃ t f' p', recordMessages (newStatusTracker s p) ms = some t ∧ writeBack f t = .ok f' ∧
      f'.partitions = some p' ∧
      ((∀ pid part, p.items.get pid = some part → ∃ part', p'.items.get pid = some part' ∧
          Keeps (reportsAbout ms pid part) part part') ↔ ∀ pid part, p.items.get pid = some part →
          LeaderAppliedKept (reportsAbout ms pid part) part) := by
  have hlookup : ∀ pid, (newStatusTracker s p).partitions.lookup pid =
      (p.items.get pid).map newPartitionStatus := GoMap.lookup_mapContent _ _
  have hknown : ∀ u ∈ reports ms,
      ((newStatusTracker s p).partitions.lookup u.1).isSome = true := by
    intro u hu
    rw [hlookup, Option.isSome_map]
    exact hms u hu
  obtain ⟨t, ht⟩ := recordMessages_ok hknown
  have hrec := recordMessages_recorded ht
  have hkeys : ∀ pid, (t.partitions.lookup pid).isSome = (p.items.get pid).isSome := by
    intro pid
    rw [hrec.keys, hlookup, Option.isSome_map]
  obtain ⟨f', p', hf', hp', hget⟩ := writeBack_get hs hp (t := t) fun pid h => hkeys pid ▸ h
  -- each partition on its own
  have hpart : ∀ pid part, p.items.get pid = some part → ∃ part', p'.items.get pid = some part' ∧
      (Keeps (reportsAbout ms pid part) part part' ↔
        LeaderAppliedKept (reportsAbout ms pid part) part) := by
    intro pid part hg
    have hsome : (t.partitions.lookup pid).isSome = true := by rw [hkeys, hg]; rfl
    obtain ⟨q, hq⟩ := Option.isSome_iff_exists.mp hsome
    have h₀ : (newStatusTracker s p).partitions.lookup pid = some (newPartitionStatus part) := by
      rw [hlookup, hg]
      rfl
    have hone := hrec.partitions pid _ q h₀ hq
    rw [knows_newPartitionStatus] at hone
    refine ⟨_, ?_, keeps_iff hone⟩
    rw [hget, hq, hg]
    show (partitionUpdate q).elim _ _ = _
    cases partitionUpdate q with
    | none => rfl
    | some u => rfl
  refine ⟨t, f', p', ht, hf', hp', ?_⟩
  constructor
  · intro hall pid part hg
    obtain ⟨part', hg', hiff⟩ := hpart pid part hg
    obtain ⟨_, hg'', hk⟩ := hall pid part hg
    rw [hg'] at hg''
    cases hg''
    exact hiff.mp hk
  · intro hall pid part hg
    obtain ⟨part', hg', hiff⟩ := hpart pid part hg
    exact ⟨part', hg', hiff.mpr (hall pid part hg)⟩

/-- A partition with one replica that has led it since term 1. -/
def ledPartition (leaderAppliedIndex : Nat) : Partition :=
  ⟨0, .made ((∅ : AList fun _ : String => Replica).insert "p0_r1"
    ⟨"p0_r1", 2, .voter, 5, 5, some 9, 7, true⟩), 1, 8, "p0_r1", 1, leaderAppliedIndex, 8⟩

def ledPartitions (leaderAppliedIndex : Nat) : Control.Partitions :=
  ⟨1, 1, .made ((∅ : AList fun _ : Nat => Partition).insert 0 (ledPartition leaderAppliedIndex)), 0⟩

def ledServers : Servers := ⟨1, 1, .empty, 2, .empty⟩

def ledFsm (leaderAppliedIndex : Nat) : Fsm :=
  ⟨4, 4, "c", 0, 1, some ledServers, some (ledPartitions leaderAppliedIndex)⟩

def stillLeads : List Message := [(20, [(0, ⟨"p0_r1", true, 1, 8, 9, true⟩)])]

/-- The leader and its term are kept, its applied index is not. -/
theorem status_kept_lost : ∃ t f', recordMessages (newStatusTracker ledServers (ledPartitions 7))
      stillLeads = some t ∧ writeBack (ledFsm 7) t = .ok f' ∧
    NoNewLeader 1 (reportsAbout stillLeads 0 (ledPartition 7)) ∧
    (f'.partitions.bind fun p => p.items.get 0).map
      (fun part => (part.leader, part.leaderTerm, part.leaderAppliedIndex)) =
        some ("p0_r1", 1, 0) := by
  refine ⟨_, _, rfl, rfl, ?_, rfl⟩
  decide

/-- Without an applied index of the leader nothing is lost. -/
theorem status_kept_iff_led : ∃ t f' p', recordMessages (newStatusTracker ledServers
      (ledPartitions 0)) stillLeads = some t ∧ writeBack (ledFsm 0) t = .ok f' ∧
    f'.partitions = some p' ∧ ∃ part', p'.items.get 0 = some part' ∧
      Keeps (reportsAbout stillLeads 0 (ledPartition 0)) (ledPartition 0) part' := by
  obtain ⟨t, f', p', ht, hf', hp', hiff⟩ := status_kept_iff (f := ledFsm 0) (s := ledServers)
    (p := ledPartitions 0) rfl rfl
    (show ∀ u ∈ reports stillLeads, ((ledPartitions 0).items.get u.1).isSome = true by decide)
  refine ⟨t, f', p', ht, hf', hp', hiff.mpr ?_ 0 (ledPartition 0) rfl⟩
  intro pid part hg _ _
  have hpid : pid = 0 := by
    by_contra hne
    have hnone : (ledPartitions 0).items.get pid = none := AList.lookup_insert_ne hne
    rw [hnone] at hg
    cases hg
  subst hpid
  cases hg
  rfl

end Scout.Sessions
