import Scout.Sessions.ServerList

/-!
The load balancer of the data client. It keeps the routing of each partition, and on a
new list of data servers it rebuilds the partitions whose ETag has changed.
-/

namespace Scout.Client

open Lib Sessions
open Control (Servers Server Replica)

/-- The routing of a partition; `count` says that the counter is that of the slice. -/
structure Partition where
  etag : String
  id : Nat
  leaderId : Nat
  leader : String
  replicaSlice : List String
  replicaMap : AList fun _ : Nat => String
  replicaCount : Nat
  count : replicaCount = replicaSlice.length

structure Balancer where
  etag : String
  partitions : Option (AList fun _ : Nat => Partition)
  addrs : List String

/-- `Build`. -/
def newBalancer : Balancer := ⟨"", none, []⟩

/-- `utils.ShuffleSlice`, for each place that asks for it. -/
structure Shuffle where
  order : Nat → List String → List String
  perm : ∀ place xs, (order place xs).Perm xs

section Update

variable (sh : Shuffle) (ds : DataServers)

def leaderAddress (part : ListPartition) : String :=
  match ds.servers.lookup part.leaderServerId with
  | some server => server.address
  | none => ""

/-- The addresses of the replicas; a server that is not in the list is a nil pointer. -/
def replicaAddresses (part : ListPartition) : Option (List (Nat × String)) :=
  part.replicaServerIds.mapM fun serverId =>
    (ds.servers.lookup serverId).map fun server => (serverId, server.address)

def newPartition (pid : Nat) (part : ListPartition) : Option Partition := do
  let replicas ← replicaAddresses ds part
  let slice := sh.order pid (replicas.map Prod.snd)
  return ⟨part.eTag, pid, part.leaderServerId, leaderAddress ds part, slice,
    replicas.foldl (fun m x => m.insert x.1 x.2) ∅, slice.length, rfl⟩

/-- The entry of a partition: the cached one if its ETag is that of the list. -/
def nextPartition (old : Option (AList fun _ : Nat => Partition)) (pid : Nat) :
    Option Partition := do
  let part ← ds.partitions.lookup pid
  match old with
  | none => newPartition sh ds pid part
  | some partitions =>
    let oldPart ← partitions.lookup pid
    if oldPart.etag = part.eTag then return oldPart else newPartition sh ds pid part

def addPartition (old : Option (AList fun _ : Nat => Partition))
    (m : AList fun _ : Nat => Partition) (pid : Nat) :
    Option (AList fun _ : Nat => Partition) := do
  let part ← nextPartition sh ds old pid
  return m.insert pid part

def updatePartitions (old : Option (AList fun _ : Nat => Partition)) :
    Option (AList fun _ : Nat => Partition) :=
  (List.range ds.partitionCount).foldlM (addPartition sh ds old) ∅

/-- `UpdateClientConnState`; `none` if it panics. A list with the ETag of the last one
changes nothing. -/
def updateClientConnState (b : Balancer) : Option Balancer :=
  if b.etag = ds.eTag then some b
  else do
    let partitions ← updatePartitions sh ds b.partitions
    return ⟨ds.eTag, some partitions, ds.servers.entries.map fun e => e.2.address⟩

end Update

/-! ## The routing from scratch -/

/-- Equal up to the order of the replicas, which is random. -/
structure Partition.Same (q r : Partition) : Prop where
  etag : q.etag = r.etag
  id : q.id = r.id
  leaderId : q.leaderId = r.leaderId
  leader : q.leader = r.leader
  replicaMap : ∀ sid, q.replicaMap.lookup sid = r.replicaMap.lookup sid
  replicaSlice : q.replicaSlice.Perm r.replicaSlice

def Balancer.partition (b : Balancer) (pid : Nat) : Option Partition :=
  b.partitions.bind fun m => m.lookup pid

/-- The routing of every partition is the one that the list gives from scratch. -/
def Exact (ds : DataServers) (b : Balancer) : Prop :=
  ∀ (sh : Shuffle) (pid : Nat), pid < ds.partitionCount → ∃ part fresh q,
    ds.partitions.lookup pid = some part ∧ newPartition sh ds pid part = some fresh ∧
    b.partition pid = some q ∧ q.Same fresh

def AllExact : Balancer → List (Shuffle × DataServers) → Prop
  | _, [] => True
  | b, x :: xs => ∃ b', updateClientConnState x.1 x.2 b = some b' ∧ Exact x.2 b' ∧ AllExact b' xs

def addressOf (ds : DataServers) (sid : Nat) : String :=
  ((ds.servers.lookup sid).map ListServer.address).getD ""

/-- A partition that keeps its servers has them at the same addresses. -/
def AddressesKept (ds ds' : DataServers) : Prop :=
  ∀ pid part part', ds.partitions.lookup pid = some part →
    ds'.partitions.lookup pid = some part' → part.leaderServerId = part'.leaderServerId →
    part.replicaServerIds = part'.replicaServerIds →
    ∀ sid, sid = part.leaderServerId ∨ sid ∈ part.replicaServerIds →
      addressOf ds sid = addressOf ds' sid

structure Valid (ds : DataServers) : Prop where
  eTag : ds.eTag ≠ ""
  servers : ds.servers.entries ≠ []
  partition : ∀ pid, pid < ds.partitionCount ↔ (ds.partitions.lookup pid).isSome = true
  replica : ∀ pid part, ds.partitions.lookup pid = some part →
    ∀ sid ∈ part.replicaServerIds, (ds.servers.lookup sid).isSome = true

variable {ds : DataServers}

theorem valid_of_validate (h : ds.validate = true) : Valid ds := by
  unfold DataServers.validate ListPartition.validateIn at h
  simp only [Bool.and_eq_true, Bool.not_eq_true', Bool.or_eq_false_iff, beq_eq_false_iff_ne,
    List.isEmpty_eq_false_iff, List.all_eq_true, beq_iff_eq, decide_eq_true_eq] at h
  obtain ⟨⟨⟨⟨⟨⟨⟨htag, hservers⟩, _⟩, _⟩, _⟩, _⟩, hlen⟩, hparts⟩ := h
  have hmem : ∀ {pid part}, ds.partitions.lookup pid = some part →
      (⟨pid, part⟩ : Sigma fun _ : Nat => ListPartition) ∈ ds.partitions.entries :=
    fun hp => (mem_entries_iff ds.partitions _ _).mpr hp
  -- as many ids as partitions, all of them below the count
  have hkeys : ds.partitions.keys.Perm (List.range ds.partitionCount) := by
    refine List.Subperm.perm_of_length_le (ds.partitions.keys_nodup.subperm ?_) ?_
    · intro pid hpid
      obtain ⟨e, he, rfl⟩ := List.mem_map.mp hpid
      exact List.mem_range.mpr (hparts e he).1.1.2
    · rw [List.length_range, ← hlen]
      exact (List.length_map _).ge
  refine ⟨htag, hservers, fun pid => ?_, fun pid part hp sid hsid => ?_⟩
  · rw [← List.mem_range, ← hkeys.mem_iff, AList.lookup_isSome, AList.mem_keys]
  · exact (hparts _ (hmem hp)).2 sid hsid

structure Routes (ds : DataServers) (pid : Nat) (part : ListPartition) (q : Partition) : Prop where
  etag : q.etag = part.eTag
  id : q.id = pid
  leaderId : q.leaderId = part.leaderServerId
  leader : q.leader = addressOf ds part.leaderServerId
  replicaMap : ∀ sid, q.replicaMap.lookup sid =
    if sid ∈ part.replicaServerIds then some (addressOf ds sid) else none
  replicaSlice : q.replicaSlice.Perm (part.replicaServerIds.map (addressOf ds))

section Routes

variable {ds ds' : DataServers} {pid : Nat} {part part' : ListPartition} {q r : Partition}

theorem Routes.same (hq : Routes ds pid part q) (hr : Routes ds pid part r) : q.Same r :=
  ⟨hq.etag.trans hr.etag.symm, hq.id.trans hr.id.symm, hq.leaderId.trans hr.leaderId.symm,
    hq.leader.trans hr.leader.symm, fun sid => (hq.replicaMap sid).trans (hr.replicaMap sid).symm,
    hq.replicaSlice.trans hr.replicaSlice.symm⟩

theorem Routes.of_same (hr : Routes ds pid part r) (h : q.Same r) : Routes ds pid part q :=
  ⟨h.etag.trans hr.etag, h.id.trans hr.id, h.leaderId.trans hr.leaderId,
    h.leader.trans hr.leader, fun sid => (h.replicaMap sid).trans (hr.replicaMap sid),
    h.replicaSlice.trans hr.replicaSlice⟩

theorem replicaMap_lookup (ids : List Nat) (address : Nat → String) (sid : Nat) :
    ((ids.map fun id => (id, address id)).foldl (fun m x => m.insert x.1 x.2)
      (∅ : AList fun _ : Nat => String)).lookup sid =
      if sid ∈ ids then some (address sid) else none := by
  ext a
  refine (foldl_assign (fun m : AList fun _ : Nat => String => fun k => m.lookup k)
    (fun m x => m.insert x.1 x.2) Prod.fst Prod.snd (fun m x k => lookup_insert_if m x.1 x.2 k)
    ?_ ∅ sid a).trans ?_
  · intro x hx y hy he
    obtain ⟨i, _, rfl⟩ := List.mem_map.mp hx
    obtain ⟨j, _, rfl⟩ := List.mem_map.mp hy
    exact congrArg address he
  · constructor
    · rintro (⟨x, hx, hk, hv⟩ | ⟨_, hn⟩)
      · obtain ⟨i, hi, rfl⟩ := List.mem_map.mp hx
        cases hk
        cases hv
        rw [if_pos hi]
      · cases hn
    · intro h
      by_cases hsid : sid ∈ ids
      · rw [if_pos hsid] at h
        cases h
        exact .inl ⟨(sid, address sid), List.mem_map.mpr ⟨sid, hsid, rfl⟩, rfl, rfl⟩
      · rw [if_neg hsid] at h
        cases h

theorem newPartition_routes (sh : Shuffle) (hv : Valid ds)
    (hp : ds.partitions.lookup pid = some part) :
    ∃ fresh, newPartition sh ds pid part = some fresh ∧ Routes ds pid part fresh := by
  have haddresses : replicaAddresses ds part =
      some (part.replicaServerIds.map fun sid => (sid, addressOf ds sid)) := by
    refine mapM_eq_map fun sid hsid => ?_
    obtain ⟨server, hs⟩ := Option.isSome_iff_exists.mp (hv.replica pid part hp sid hsid)
    unfold addressOf
    rw [hs]
    rfl
  have hleader : leaderAddress ds part = addressOf ds part.leaderServerId := by
    unfold leaderAddress addressOf
    cases ds.servers.lookup part.leaderServerId <;> rfl
  unfold newPartition
  rw [haddresses]
  refine ⟨_, rfl, rfl, rfl, rfl, hleader, fun sid => ?_, ?_⟩
  · exact replicaMap_lookup _ _ sid
  · refine (sh.perm _ _).trans (List.Perm.of_eq ?_)
    rw [List.map_map]
    rfl

/-- The entry of the last list is right for this one if the servers are at the same
addresses, and only then. -/
theorem Routes.iff_kept (hq : Routes ds pid part q)
    (hl : part.leaderServerId = part'.leaderServerId)
    (hr : part.replicaServerIds = part'.replicaServerIds) (he : part.eTag = part'.eTag) :
    Routes ds' pid part' q ↔ ∀ sid, sid = part.leaderServerId ∨ sid ∈ part.replicaServerIds →
      addressOf ds sid = addressOf ds' sid := by
  constructor
  · rintro h sid (rfl | hsid)
    · rw [← hq.leader, h.leader, hl]
    · have hmap := (hq.replicaMap sid).symm.trans (h.replicaMap sid)
      rw [if_pos hsid, if_pos (hr ▸ hsid)] at hmap
      exact Option.some.inj hmap
  · intro h
    refine ⟨hq.etag.trans he, hq.id, hq.leaderId.trans hl, ?_, fun sid => ?_, ?_⟩
    · rw [hq.leader, h _ (.inl rfl), hl]
    · rw [hq.replicaMap, ← hr]
      by_cases hsid : sid ∈ part.replicaServerIds
      · rw [if_pos hsid, if_pos hsid, h sid (.inr hsid)]
      · rw [if_neg hsid, if_neg hsid]
    · rw [← hr]
      refine hq.replicaSlice.trans (List.Perm.of_eq ?_)
      exact List.map_congr_left fun sid hsid => h sid (.inr hsid)

end Routes

/-! ## One list after another -/

def Follows (ds : DataServers) (b : Balancer) : Prop :=
  ∀ pid part, ds.partitions.lookup pid = some part →
    ∃ q, b.partition pid = some q ∧ Routes ds pid part q

theorem exact_iff {b : Balancer} (hv : Valid ds) : Exact ds b ↔ Follows ds b := by
  constructor
  · intro h pid part hp
    have hpid := (hv.partition pid).mpr (by rw [hp]; rfl)
    obtain ⟨part', fresh, q, hp', hfresh, hq, hsame⟩ :=
      h ⟨fun _ xs => xs, fun _ _ => .refl _⟩ pid hpid
    cases hp.symm.trans hp'
    obtain ⟨fresh', hfresh', hroutes⟩ := newPartition_routes _ hv hp
    cases hfresh.symm.trans hfresh'
    exact ⟨q, hq, hroutes.of_same hsame⟩
  · intro h sh pid hpid
    obtain ⟨part, hp⟩ := Option.isSome_iff_exists.mp ((hv.partition pid).mp hpid)
    obtain ⟨q, hq, hroutes⟩ := h pid part hp
    obtain ⟨fresh, hfresh, hfroutes⟩ := newPartition_routes sh hv hp
    exact ⟨part, fresh, q, hp, hfresh, hq, hroutes.same hfroutes⟩

/-- The loop ends, and each entry is the one of its own iteration. -/
theorem updatePartitions_spec {sh : Shuffle} {old : Option (AList fun _ : Nat => Partition)}
    (h : ∀ pid < ds.partitionCount, ∃ q, nextPartition sh ds old pid = some q) :
    ∃ m, updatePartitions sh ds old = some m ∧
      ∀ pid < ds.partitionCount, m.lookup pid = nextPartition sh ds old pid := by
  have hloop := foldlM_builds (m := Option) (f := addPartition sh ds old)
    (fun done m => ∀ pid ∈ done, m.lookup pid = nextPartition sh ds old pid)
    (List.range ds.partitionCount) (s := ∅) nofun ?_
  · obtain ⟨m, hm, hall⟩ := hloop
    exact ⟨m, hm, fun pid hpid => hall pid (List.mem_range.mpr hpid)⟩
  · intro done pid rest m hsplit hdone
    have hpid : pid < ds.partitionCount := List.mem_range.mp (by rw [hsplit]; simp)
    obtain ⟨q, hq⟩ := h pid hpid
    refine ⟨m.insert pid q, ?_, fun k hk => ?_⟩
    · unfold addPartition
      rw [hq]
      rfl
    · rw [lookup_insert_if]
      by_cases hkp : k = pid
      · rw [if_pos hkp, hkp, hq]
      · rw [if_neg hkp]
        exact hdone k ((List.mem_append.mp hk).resolve_right fun he =>
          hkp (List.mem_singleton.mp he))

theorem update_newBalancer (sh : Shuffle) (hv : Valid ds) :
    ∃ b, updateClientConnState sh ds newBalancer = some b ∧ b.etag = ds.eTag ∧ Follows ds b := by
  have hnext : ∀ pid part, ds.partitions.lookup pid = some part →
      nextPartition sh ds none pid = newPartition sh ds pid part := by
    intro pid part hp
    unfold nextPartition
    rw [hp]
    rfl
  have hsome : ∀ pid < ds.partitionCount, ∃ q, nextPartition sh ds none pid = some q := by
    intro pid hpid
    obtain ⟨part, hp⟩ := Option.isSome_iff_exists.mp ((hv.partition pid).mp hpid)
    obtain ⟨q, hq, _⟩ := newPartition_routes sh hv hp
    exact ⟨q, by rw [hnext pid part hp, hq]⟩
  obtain ⟨m, hm, hall⟩ := updatePartitions_spec hsome
  refine ⟨⟨ds.eTag, some m, ds.servers.entries.map fun e => e.2.address⟩, ?_, rfl,
    fun pid part hp => ?_⟩
  · unfold updateClientConnState
    have hne : newBalancer.etag ≠ ds.eTag := hv.eTag.symm
    rw [if_neg hne]
    show (updatePartitions sh ds none).bind _ = _
    rw [hm]
    rfl
  · obtain ⟨q, hq, hroutes⟩ := newPartition_routes sh hv hp
    refine ⟨q, ?_, hroutes⟩
    show m.lookup pid = some q
    rw [hall pid ((hv.partition pid).mpr (by rw [hp]; rfl)), hnext pid part hp, hq]

section Step

variable {sha256 : List UInt8 → List UInt8} {ds ds' : DataServers} {b : Balancer}

/-- An entry stays if its ETag is the same, and is made anew otherwise. -/
theorem nextPartition_eq (h : Follows ds b) (sh : Shuffle) {pid : Nat} {part part' : ListPartition}
    (hp : ds.partitions.lookup pid = some part) (hp' : ds'.partitions.lookup pid = some part') :
    nextPartition sh ds' b.partitions pid =
      if part.eTag = part'.eTag then b.partition pid else newPartition sh ds' pid part' := by
  obtain ⟨q, hq, hroutes⟩ := h pid part hp
  obtain ⟨m, hm, hq⟩ := Option.bind_eq_some_iff.mp hq
  unfold nextPartition Balancer.partition
  rw [hp', hm, ← hroutes.etag]
  show ((m.lookup pid).bind fun oldPart => _) = _
  rw [hq]
  show (if q.etag = part'.eTag then some q else newPartition sh ds' pid part') = _
  split <;> simp [hq]

theorem update_entries (hsha : Function.Injective sha256) (ht : Tagged sha256 ds)
    (ht' : Tagged sha256 ds') (hv : Valid ds) (hv' : Valid ds')
    (hcount : ds.partitionCount = ds'.partitionCount) (hb : b.etag = ds.eTag)
    (h : Follows ds b) (sh : Shuffle) :
    ∃ b', updateClientConnState sh ds' b = some b' ∧ b'.etag = ds'.eTag ∧
      ∀ pid part part', ds.partitions.lookup pid = some part →
        ds'.partitions.lookup pid = some part' →
        if part.eTag = part'.eTag then b'.partition pid = b.partition pid
        else ∃ q, b'.partition pid = some q ∧ Routes ds' pid part' q := by
  unfold updateClientConnState
  by_cases he : b.etag = ds'.eTag
  · rw [if_pos he]
    refine ⟨b, rfl, he, fun pid part part' hp hp' => ?_⟩
    rw [if_pos (listETag_partitions hsha ht ht' hv.servers hv'.servers (hb.symm.trans he) hp hp')]
  · rw [if_neg he]
    have hsome : ∀ pid < ds'.partitionCount, ∃ q,
        nextPartition sh ds' b.partitions pid = some q := by
      intro pid hpid
      obtain ⟨part', hp'⟩ := Option.isSome_iff_exists.mp ((hv'.partition pid).mp hpid)
      obtain ⟨part, hp⟩ := Option.isSome_iff_exists.mp ((hv.partition pid).mp (hcount ▸ hpid))
      rw [nextPartition_eq h sh hp hp']
      split
      · obtain ⟨q, hq, _⟩ := h pid part hp
        exact ⟨q, hq⟩
      · obtain ⟨q, hq, _⟩ := newPartition_routes sh hv' hp'
        exact ⟨q, hq⟩
    obtain ⟨m, hm, hall⟩ := updatePartitions_spec hsome
    refine ⟨⟨ds'.eTag, some m, ds'.servers.entries.map fun e => e.2.address⟩, by rw [hm]; rfl, rfl,
      fun pid part part' hp hp' => ?_⟩
    have hentry : Balancer.partition ⟨ds'.eTag, some m, ds'.servers.entries.map
        fun e => e.2.address⟩ pid =
        if part.eTag = part'.eTag then b.partition pid else newPartition sh ds' pid part' := by
      rw [← nextPartition_eq h sh hp hp']
      exact hall pid ((hv'.partition pid).mpr (by rw [hp']; rfl))
    split
    · next htag => rw [hentry, if_pos htag]
    · next htag =>
      obtain ⟨q, hq, hroutes⟩ := newPartition_routes sh hv' hp'
      exact ⟨q, by rw [hentry, if_neg htag, hq], hroutes⟩

theorem update_follows_iff (hsha : Function.Injective sha256) (ht : Tagged sha256 ds)
    (ht' : Tagged sha256 ds') (hv : Valid ds) (hv' : Valid ds')
    (hcount : ds.partitionCount = ds'.partitionCount) (hb : b.etag = ds.eTag)
    (h : Follows ds b) (sh : Shuffle) :
    ∃ b', updateClientConnState sh ds' b = some b' ∧ b'.etag = ds'.eTag ∧
      (Follows ds' b' ↔ AddressesKept ds ds') := by
  obtain ⟨b', hupdate, hetag, hentries⟩ := update_entries hsha ht ht' hv hv' hcount hb h sh
  refine ⟨b', hupdate, hetag, fun hf => ?_, fun hkept => ?_⟩
  · intro pid part part' hp hp' hl hr
    have he := (partitionETag_iff hsha ht ht' hp hp').mpr ⟨hl, hr⟩
    have hentry := hentries pid part part' hp hp'
    rw [if_pos he] at hentry
    obtain ⟨q, hq, hroutes⟩ := h pid part hp
    obtain ⟨q', hq', hroutes'⟩ := hf pid part' hp'
    rw [hentry, hq] at hq'
    cases hq'
    exact (hroutes.iff_kept hl hr he).mp hroutes'
  · intro pid part' hp'
    obtain ⟨part, hp⟩ := Option.isSome_iff_exists.mp ((hv.partition pid).mp
      (hcount ▸ (hv'.partition pid).mpr (by rw [hp']; rfl)))
    have hentry := hentries pid part part' hp hp'
    by_cases he : part.eTag = part'.eTag
    · rw [if_pos he] at hentry
      obtain ⟨hl, hr⟩ := (partitionETag_iff hsha ht ht' hp hp').mp he
      obtain ⟨q, hq, hroutes⟩ := h pid part hp
      exact ⟨q, hentry.trans hq,
        (hroutes.iff_kept hl hr he).mpr (hkept pid part part' hp hp' hl hr)⟩
    · rw [if_neg he] at hentry
      exact hentry

end Step

/-! ## Every sequence of lists -/

/-- The list is one of the tracker's, for some state of it. -/
def Made (sha256 : List UInt8 → List UInt8) (json : String) (count : Nat) (ds : DataServers) :
    Prop :=
  ∃ servers partitions status,
    newDataServers sha256 json count servers partitions status = some ds

section Runs

variable {sha256 : List UInt8 → List UInt8} {json : String} {count : Nat}

theorem allExact_iff (hsha : Function.Injective sha256) {ds : DataServers} {b : Balancer}
    (hmade : Made sha256 json count ds) (hv : ds.validate = true) (hb : b.etag = ds.eTag)
    (h : Follows ds b) {updates : List (Shuffle × DataServers)}
    (hall : ∀ x ∈ updates, Made sha256 json count x.2 ∧ x.2.validate = true) :
    AllExact b updates ↔ (ds :: updates.map Prod.snd).IsChain AddressesKept := by
  induction updates generalizing ds b with
  | nil => exact iff_of_true trivial (List.isChain_singleton _)
  | cons x xs ih =>
    obtain ⟨_, _, _, hds⟩ := hmade
    obtain ⟨ht, hc⟩ := newDataServers_tagged hds
    obtain ⟨hmade', hvalid'⟩ := hall x (List.mem_cons_self ..)
    obtain ⟨_, _, _, hds'⟩ := hmade'
    obtain ⟨ht', hc'⟩ := newDataServers_tagged hds'
    have hv' := valid_of_validate hvalid'
    obtain ⟨b', hupdate, hetag, hiff⟩ := update_follows_iff hsha ht ht' (valid_of_validate hv) hv'
      (hc.trans hc'.symm) hb h x.1
    have hrest := fun hf => ih ⟨_, _, _, hds'⟩ hvalid' hetag hf
      fun y hy => hall y (List.mem_cons_of_mem _ hy)
    rw [List.map_cons, List.isChain_cons_cons, ← hiff]
    constructor
    · rintro ⟨c, hc, hexact, hxs⟩
      rw [hupdate] at hc
      cases hc
      have hf := (exact_iff hv').mp hexact
      exact ⟨hf, (hrest hf).mp hxs⟩
    · rintro ⟨hf, hchain⟩
      exact ⟨b', hupdate, (exact_iff hv').mpr hf, (hrest hf).mpr hchain⟩

/-- **The cached routing equals a rebuild after each list, if and only if** no list moves a
server to another address while a partition of it keeps its leader and replicas. -/
theorem routing_rebuilt_iff (hsha : Function.Injective sha256)
    {updates : List (Shuffle × DataServers)}
    (hall : ∀ x ∈ updates, Made sha256 json count x.2 ∧ x.2.validate = true) :
    AllExact newBalancer updates ↔ (updates.map Prod.snd).IsChain AddressesKept := by
  cases updates with
  | nil => exact iff_of_true trivial List.isChain_nil
  | cons x xs =>
    obtain ⟨hmade, hvalid⟩ := hall x (List.mem_cons_self ..)
    have hv := valid_of_validate hvalid
    obtain ⟨b, hupdate, hetag, hf⟩ := update_newBalancer x.1 hv
    have hrest := allExact_iff hsha hmade hvalid hetag hf
      fun y hy => hall y (List.mem_cons_of_mem _ hy)
    rw [List.map_cons, ← hrest]
    constructor
    · rintro ⟨c, hc, _, hxs⟩
      rw [hupdate] at hc
      cases hc
      exact hxs
    · intro hxs
      exact ⟨b, hupdate, (exact_iff hv).mpr hf, hxs⟩

end Runs

/-! ## Two servers and a partition on the first one -/

def dataServer (id : Nat) (name : String) : Server := ⟨id, name, .data, [], 0, none, ""⟩

def twoDataServers : Servers :=
  ⟨1, 1, .made (((∅ : AList fun _ : Nat => Server).insert 2 (dataServer 2 "b")).insert 1
    (dataServer 1 "a")), 2, .nil⟩

def oneVoter : Control.Partitions :=
  ⟨1, 1, .made ((∅ : AList fun _ : Nat => Control.Partition).insert 0
    ⟨0, .made ((∅ : AList fun _ : String => Replica).insert "p0_r1"
      ⟨"p0_r1", 1, .voter, 0, 0, none, 0, true⟩), 1, 1, "p0_r1", 1, 0, 0⟩), 0⟩

def statusAt (address₁ address₂ : String) : StatusTracker :=
  ⟨((∅ : AList fun _ : Nat => ServerStatus).insert 2 ⟨none, address₂, false⟩).insert 1
      ⟨none, address₁, false⟩,
    (∅ : AList fun _ : Nat => PartitionStatus).insert 0 ⟨0, ∅, "p0_r1", 1, 0, 0, false⟩⟩

/-- A hash that keeps everything. -/
theorem makeETag_id_ne {values : List String} {s : String} (hs : s ∈ values) (hne : s ≠ "") :
    makeETag id values ≠ "" := by
  intro h
  have hnil : base64RawUrl ((values.insertionSort (· ≤ ·)).flatMap stringBytes) =
      base64RawUrl [] := by
    have ht := congrArg String.toList h
    unfold makeETag at ht
    rw [String.toList_ofList] at ht
    exact ht
  have hbytes := base64RawUrl_inj hnil
  rw [List.flatMap_eq_nil_iff] at hbytes
  exact hne (stringBytes_inj (hbytes s ((List.perm_insertionSort _ _).mem_iff.mpr hs)))

def listAt (address₁ address₂ : String) : DataServers :=
  let servers := ((∅ : AList fun _ : Nat => ListServer).insert 1 ⟨1, address₁⟩).insert 2
    ⟨2, address₂⟩
  let partitions := (∅ : AList fun _ : Nat => ListPartition).insert 0
    ⟨makeETag id [routeText 1 [1]], 0, 1, [1]⟩
  ⟨makeETag id (listTags servers partitions), servers, partitions, 1, "json"⟩

theorem listAt_made (address₁ address₂ : String) : Made id "json" 1 (listAt address₁ address₂) :=
  ⟨twoDataServers, oneVoter, statusAt address₁ address₂, rfl⟩

theorem listAt_valid {address₁ address₂ : String} (h₁ : address₁ ≠ "") (h₂ : address₂ ≠ "") :
    (listAt address₁ address₂).validate = true := by
  have htag : (listAt address₁ address₂).eTag ≠ "" := by
    refine makeETag_id_ne (s := serverTag 2 address₂) (List.mem_append_left _ ?_) fun h => ?_
    · exact List.mem_cons_self ..
    · have ht := congrArg String.toList h
      rw [serverTag_toList] at ht
      cases ht
  unfold DataServers.validate
  rw [beq_eq_false_iff_ne.mpr htag]
  simp [listAt, ListServer.validate, ListPartition.validateIn, AList.insert, h₁, h₂]
  rfl

theorem listAt_address (address₁ address₂ : String) :
    addressOf (listAt address₁ address₂) 1 = address₁ := rfl

theorem listAt_lookup (address₁ address₂ : String) :
    (listAt address₁ address₂).partitions.lookup 0 =
      some ⟨makeETag id [routeText 1 [1]], 0, 1, [1]⟩ := rfl

theorem listAt_partition {address₁ address₂ : String} {pid : Nat} {part : ListPartition}
    (h : (listAt address₁ address₂).partitions.lookup pid = some part) :
    pid = 0 ∧ part.leaderServerId = 1 ∧ part.replicaServerIds = [1] := by
  rcases lookup_insert_eq_some.mp h with ⟨hpid, rfl⟩ | ⟨_, h⟩
  · exact ⟨hpid, rfl, rfl⟩
  · cases h

def sameOrder : Shuffle := ⟨fun _ xs => xs, fun _ _ => .refl _⟩

/-- The address of a server without partitions may change. -/
theorem routing_rebuilt_iff_idle : AllExact newBalancer
    [(sameOrder, listAt "10.0.0.1:1" "10.0.0.2:1"),
      (sameOrder, listAt "10.0.0.1:1" "10.0.0.2:9")] := by
  have hall : ∀ x ∈ [(sameOrder, listAt "10.0.0.1:1" "10.0.0.2:1"),
      (sameOrder, listAt "10.0.0.1:1" "10.0.0.2:9")],
      Made id "json" 1 x.2 ∧ x.2.validate = true := by
    simp only [List.mem_cons, List.not_mem_nil, or_false]
    rintro x (rfl | rfl)
    · exact ⟨listAt_made _ _, listAt_valid (by decide) (by decide)⟩
    · exact ⟨listAt_made _ _, listAt_valid (by decide) (by decide)⟩
  refine (routing_rebuilt_iff Function.injective_id hall).mpr (List.isChain_pair.mpr ?_)
  intro pid part part' hp hp' _ _ sid hsid
  obtain ⟨_, hl, hr⟩ := listAt_partition hp
  rw [hl, hr] at hsid
  have hone : sid = 1 := by simpa using hsid
  rw [hone, listAt_address, listAt_address]

/-- The leader moves to another port; the ETag of its partition stays, and with it the
old address. -/
theorem routing_stale :
    (∀ port ∈ ["10.0.0.1:1", "10.0.0.1:9"], Made id "json" 1 (listAt port "10.0.0.2:1") ∧
      (listAt port "10.0.0.2:1").validate = true) ∧
    ¬AllExact newBalancer [(sameOrder, listAt "10.0.0.1:1" "10.0.0.2:1"),
      (sameOrder, listAt "10.0.0.1:9" "10.0.0.2:1")] := by
  have hvalid : (listAt "10.0.0.1:1" "10.0.0.2:1").validate = true :=
    listAt_valid (by decide) (by decide)
  have hvalid' : (listAt "10.0.0.1:9" "10.0.0.2:1").validate = true :=
    listAt_valid (by decide) (by decide)
  constructor
  · simp only [List.mem_cons, List.not_mem_nil, or_false]
    rintro port (rfl | rfl)
    · exact ⟨listAt_made _ _, hvalid⟩
    · exact ⟨listAt_made _ _, hvalid'⟩
  · rintro ⟨b, hb, _, hrest⟩
    obtain ⟨c, hc, hetag, hf⟩ := update_newBalancer sameOrder (valid_of_validate hvalid)
    obtain rfl : b = c := Option.some.inj (hb.symm.trans hc)
    have hone : ∀ x ∈ [(sameOrder, listAt "10.0.0.1:9" "10.0.0.2:1")],
        Made id "json" 1 x.2 ∧ x.2.validate = true := by
      intro x hx
      rw [List.mem_singleton.mp hx]
      exact ⟨listAt_made _ _, hvalid'⟩
    have hchain := (allExact_iff Function.injective_id (listAt_made _ _) hvalid hetag hf hone).mp
      hrest
    have hkept := List.isChain_pair.mp hchain
    have haddress := hkept 0 _ _ (listAt_lookup _ _) (listAt_lookup _ _) rfl rfl 1 (.inl rfl)
    rw [listAt_address, listAt_address] at haddress
    exact absurd haddress (by decide)

end Scout.Client
