import Scout.Sessions.Configs
import Scout.Sessions.Tracker

/-!
The list of data servers that the session tracker publishes: the address of every data
server, and for each partition the server of the leader and those of the serving
replicas. Clients route their requests by it.

The ETag of a partition is a hash over the ids of these servers. Their addresses are
only in the ETag of the whole list.
-/

namespace Scout.Sessions

open Lib Control
open Partitions (dataServers)

structure ListServer where
  id : Nat
  address : String
  deriving DecidableEq, Repr

structure ListPartition where
  eTag : String
  id : Nat
  leaderServerId : Nat
  replicaServerIds : List Nat
  deriving DecidableEq, Repr

structure DataServers where
  eTag : String
  servers : AList fun _ : Nat => ListServer
  partitions : AList fun _ : Nat => ListPartition
  partitionCount : Nat
  serviceConfigJson : String

/-! ## Making the list -/

def StatusTracker.getServerAddress (t : StatusTracker) (serverId : Nat) : String :=
  match t.servers.lookup serverId with
  | none => ""
  | some server => server.lastAddress

/-- A partition without a status is a nil pointer. -/
def StatusTracker.getPartitionLeader (t : StatusTracker) (pid : Nat) : Option String :=
  (t.partitions.lookup pid).map PartitionStatus.leader

/-- `fmt.Sprintf("%d:%v", leader, replicas)`. -/
def routeText (leaderServerId : Nat) (replicaServerIds : List Nat) : String :=
  toString leaderServerId ++ ":[" ++ " ".intercalate (replicaServerIds.map toString) ++ "]"

def replicaServerIds (part : Partition) : List Nat :=
  (((part.replicas.toList.map Prod.snd).filter fun r => r.state.isServing).map
    Replica.serverId).insertionSort (· ≤ ·)

def leaderServerId (part : Partition) (leader : String) : Nat :=
  if leader ≠ "" then
    match part.replicas.get leader with
    | some replica => replica.serverId
    | none => 0
  else 0

section List

variable (sha256 : List UInt8 → List UInt8)

def listPartition (status : StatusTracker) (x : Nat × Partition) : Option ListPartition := do
  let leader ← status.getPartitionLeader x.1
  let leaderId := leaderServerId x.2 leader
  let replicaIds := replicaServerIds x.2
  return ⟨makeETag sha256 [routeText leaderId replicaIds], x.1, leaderId, replicaIds⟩

def serverTag (id : Nat) (address : String) : String := "srv " ++ toString id ++ ":" ++ address

def listServers (servers : Servers) (status : StatusTracker) : AList fun _ : Nat => ListServer :=
  (dataServers servers).foldl (fun m id => m.insert id ⟨id, status.getServerAddress id⟩) ∅

def addListPartition (status : StatusTracker) (m : AList fun _ : Nat => ListPartition)
    (x : Nat × Partition) : Option (AList fun _ : Nat => ListPartition) := do
  let part ← listPartition sha256 status x
  return m.insert x.1 part

def listTags (servers : AList fun _ : Nat => ListServer)
    (partitions : AList fun _ : Nat => ListPartition) : List String :=
  servers.entries.map (fun e => serverTag e.1 e.2.address)
    ++ partitions.entries.map fun e => partitionTag e.1 e.2.eTag

/-- The list that `updateDataServerList` makes; `none` if it panics. -/
def newDataServers (serviceConfigJson : String) (partitionCount : Nat) (servers : Servers)
    (partitions : Control.Partitions) (status : StatusTracker) : Option DataServers := do
  let list := listServers servers status
  let parts ← partitions.items.toList.foldlM (addListPartition sha256 status) ∅
  return ⟨makeETag sha256 (listTags list parts), list, parts, partitionCount, serviceConfigJson⟩

end List

/-! ## Validation -/

def ListServer.validate (x : ListServer) : Bool := x.id != 0 && x.address != ""

def ListPartition.validateIn (x : DataServers) (id : Nat) (part : ListPartition) : Bool :=
  id == part.id && decide (id < x.partitionCount)
    && (part.leaderServerId == 0 || (x.servers.lookup part.leaderServerId).isSome)
    && part.replicaServerIds.all fun serverId => (x.servers.lookup serverId).isSome

def DataServers.validate (x : DataServers) : Bool :=
  !(x.eTag == "" || x.servers.entries.isEmpty || x.partitions.entries.isEmpty
      || x.partitionCount == 0 || x.serviceConfigJson == "")
    && x.servers.entries.all (fun e => e.2.validate && e.1 == e.2.id)
    && x.partitions.entries.length == x.partitionCount
    && x.partitions.entries.all fun e => e.2.validateIn x e.1

/-! ## What the ETags tell -/

section Tags

variable {sha256 : List UInt8 → List UInt8}

structure Tagged (sha256 : List UInt8 → List UInt8) (ds : DataServers) : Prop where
  eTag : ds.eTag = makeETag sha256 (listTags ds.servers ds.partitions)
  part : ∀ pid part, ds.partitions.lookup pid = some part →
    part.eTag = makeETag sha256 [routeText part.leaderServerId part.replicaServerIds]

variable {ds : DataServers}

theorem newDataServers_tagged {json : String} {count : Nat} {servers : Servers}
    {partitions : Control.Partitions} {status : StatusTracker}
    (h : newDataServers sha256 json count servers partitions status = some ds) :
    Tagged sha256 ds ∧ ds.partitionCount = count := by
  obtain ⟨parts, hparts, hds⟩ := Option.bind_eq_some_iff.mp h
  cases hds
  refine ⟨⟨rfl, ?_⟩, rfl⟩
  -- every iteration of the loop stores an entry with its own ETag
  refine (foldlM_each (fun m : AList fun _ : Nat => ListPartition => ∀ pid part,
    m.lookup pid = some part →
      part.eTag = makeETag sha256 [routeText part.leaderServerId part.replicaServerIds])
    (fun _ => True) hparts nofun ?_).1
  intro x m m' hm hstep
  refine ⟨fun pid part hpart => ?_, trivial⟩
  obtain ⟨new, hnew, hins⟩ := Option.bind_eq_some_iff.mp hstep
  cases hins
  rcases lookup_insert_eq_some.mp hpart with ⟨_, rfl⟩ | ⟨_, hold⟩
  · obtain ⟨leader, _, hmade⟩ := Option.bind_eq_some_iff.mp hnew
    cases hmade
    rfl
  · exact hm pid part hold

theorem routeText_toList (leader : Nat) (ids : List Nat) : (routeText leader ids).toList =
    (toString leader).toList ++ ':' :: '[' ::
      ([' '].intercalate (ids.map fun id => (toString id).toList) ++ [']']) := by
  unfold routeText
  simp only [String.toList_append, String.toList_intercalate, List.map_map, List.append_assoc]
  rfl

theorem toString_ne_nil (n : Nat) : (toString n).toList ≠ [] := by
  intro h
  have hrepr : (Nat.repr n).toList = [] := h
  rw [Nat.toList_repr] at hrepr
  exact Nat.toDigits_ne_nil hrepr

theorem routeText_inj {l l' : Nat} {ids ids' : List Nat} (h : routeText l ids = routeText l' ids') :
    l = l' ∧ ids = ids' := by
  have ht := congrArg String.toList h
  rw [routeText_toList, routeText_toList] at ht
  obtain ⟨hl, hrest⟩ := append_cons_inj (not_mem_toString (by decide) l)
    (not_mem_toString (by decide) l') ht
  have hwords : ∀ ids : List Nat, ∀ x ∈ ids.map fun id => (toString id).toList,
      ' ' ∉ x ∧ x ≠ [] := by
    intro ids x hx
    obtain ⟨id, _, rfl⟩ := List.mem_map.mp hx
    exact ⟨not_mem_toString (by decide) id, toString_ne_nil id⟩
  have hids := intercalate_inj (hwords ids) (hwords ids')
    (List.append_cancel_right (List.cons.inj hrest).2)
  exact ⟨toString_toList_inj hl,
    List.map_injective_iff.mpr (fun _ _ he => toString_toList_inj he) hids⟩

variable {s : String}

theorem makeETag_singleton_inj (hsha : Function.Injective sha256) {t : String}
    (h : makeETag sha256 [s] = makeETag sha256 [t]) : s = t := by
  have hbytes := hsha (base64RawUrl_inj (String.ofList_injective h))
  have htext := flatMap_stringBytes_inj hbytes
  exact String.toList_inj.mp (by simpa using htext)

/-- **The ETag of a partition tells its servers**, and nothing else of the list. -/
theorem partitionETag_iff (hsha : Function.Injective sha256) {ds' : DataServers}
    (h : Tagged sha256 ds) (h' : Tagged sha256 ds') {pid : Nat} {part part' : ListPartition}
    (hp : ds.partitions.lookup pid = some part) (hp' : ds'.partitions.lookup pid = some part') :
    part.eTag = part'.eTag ↔ part.leaderServerId = part'.leaderServerId ∧
      part.replicaServerIds = part'.replicaServerIds := by
  rw [h.part pid part hp, h'.part pid part' hp']
  constructor
  · exact fun he => routeText_inj (makeETag_singleton_inj hsha he)
  · rintro ⟨hl, hr⟩
    rw [hl, hr]

theorem makeETag_no_blank (values : List String) : ' ' ∉ (makeETag sha256 values).toList := by
  intro h
  unfold makeETag at h
  rw [String.toList_ofList] at h
  have hmem := base64RawUrl_mem _ _ h
  revert hmem
  decide

theorem serverTag_toList (id : Nat) (address : String) : (serverTag id address).toList =
    "srv".toList ++ ' ' :: ((toString id).toList ++ (":".toList ++ address.toList)) := by
  unfold serverTag
  simp only [String.toList_append, List.append_assoc]
  rfl

/-- Partitions come before servers in the sorted texts. -/
theorem listTags_sorted (servers : AList fun _ : Nat => ListServer)
    (partitions : AList fun _ : Nat => ListPartition) :
    (listTags servers partitions).insertionSort (· ≤ ·) =
      (partitions.entries.map fun e => partitionTag e.1 e.2.eTag).insertionSort (· ≤ ·) ++
        (servers.entries.map fun e => serverTag e.1 e.2.address).insertionSort (· ≤ ·) := by
  have hsorted : ∀ l : List String, (l.insertionSort (· ≤ ·)).Pairwise (· ≤ ·) :=
    fun l => List.pairwise_insertionSort _ l
  refine List.Perm.eq_of_pairwise (fun _ _ _ _ => le_antisymm) (hsorted _) ?_ ?_
  · refine List.pairwise_append.mpr ⟨hsorted _, hsorted _, fun p hp s hs => ?_⟩
    obtain ⟨e, _, rfl⟩ := List.mem_map.mp ((List.perm_insertionSort _ _).mem_iff.mp hp)
    obtain ⟨e', _, rfl⟩ := List.mem_map.mp ((List.perm_insertionSort _ _).mem_iff.mp hs)
    refine le_of_lt (String.lt_iff_toList_lt.mpr ?_)
    rw [partitionTag_toList]
    rw [serverTag_toList]
    exact List.Lex.rel (by decide)
  · refine (List.perm_insertionSort _ _).trans ?_
    refine List.perm_append_comm.trans ?_
    exact ((List.perm_insertionSort _ _).symm).append (List.perm_insertionSort _ _).symm

def partTags (partitions : AList fun _ : Nat => ListPartition) : List String :=
  (partitions.entries.map fun e => partitionTag e.1 e.2.eTag).insertionSort (· ≤ ·)

theorem mem_partTags {partitions : AList fun _ : Nat => ListPartition} : s ∈ partTags partitions ↔
      ∃ pid part, partitions.lookup pid = some part ∧ s = partitionTag pid part.eTag := by
  unfold partTags
  rw [(List.perm_insertionSort _ _).mem_iff, List.mem_map]
  constructor
  · rintro ⟨e, he, rfl⟩
    exact ⟨e.1, e.2, (mem_entries_iff partitions e.1 e.2).mp he, rfl⟩
  · rintro ⟨pid, part, hp, rfl⟩
    exact ⟨⟨pid, part⟩, (mem_entries_iff partitions pid part).mpr hp, rfl⟩

theorem partTags_label (h : Tagged sha256 ds) (hs : s ∈ partTags ds.partitions) :
    s.toList = "part".toList ++ ' ' :: s.toList.drop 5 ∧ ' ' ∉ s.toList.drop 5 := by
  obtain ⟨pid, part, hp, rfl⟩ := mem_partTags.mp hs
  have hdrop : (partitionTag pid part.eTag).toList.drop 5 =
      (toString pid).toList ++ ':' :: part.eTag.toList := by
    rw [partitionTag_toList]
    rfl
  constructor
  · rw [hdrop, partitionTag_toList]
    rfl
  · have hid := not_mem_toString (c := ' ') (by decide) pid
    have htag : ' ' ∉ part.eTag.toList := by
      rw [h.part pid part hp]
      exact makeETag_no_blank _
    rw [hdrop]
    simp only [List.mem_append, List.mem_cons, hid, htag]
    decide

theorem listTags_text (h : Tagged sha256 ds) (hne : ds.servers.entries ≠ []) : ∃ r,
    (((listTags ds.servers ds.partitions).insertionSort (· ≤ ·)).map String.toList).flatten =
      labelled ' ' "part".toList "srv".toList
        ((partTags ds.partitions).map fun s => s.toList.drop 5) r := by
  have hparts : ((partTags ds.partitions).map String.toList).flatten =
      ((partTags ds.partitions).map fun s => s.toList.drop 5).flatMap
        fun u => "part".toList ++ ' ' :: u := by
    rw [List.flatMap_map, List.flatMap_def]
    exact congrArg List.flatten (List.map_congr_left fun s hs => (partTags_label h hs).1)
  obtain ⟨r, hr⟩ : ∃ r, (((ds.servers.entries.map fun e => serverTag e.1 e.2.address).insertionSort
      (· ≤ ·)).map String.toList).flatten = "srv".toList ++ ' ' :: r := by
    have hperm := List.perm_insertionSort (· ≤ ·)
      (ds.servers.entries.map fun e => serverTag e.1 e.2.address)
    cases hl : (ds.servers.entries.map fun e => serverTag e.1 e.2.address).insertionSort
        (· ≤ ·) with
    | nil =>
      rw [hl] at hperm
      exact absurd (List.map_eq_nil_iff.mp (List.nil_perm.mp hperm)) hne
    | cons s rest =>
      have hs : s ∈ ds.servers.entries.map fun e => serverTag e.1 e.2.address :=
        hperm.mem_iff.mp (by rw [hl]; exact List.mem_cons_self ..)
      obtain ⟨e, _, rfl⟩ := List.mem_map.mp hs
      rw [List.map_cons, List.flatten_cons, serverTag_toList, List.append_assoc]
      exact ⟨_, rfl⟩
  refine ⟨r, ?_⟩
  unfold labelled
  rw [listTags_sorted, List.map_append, List.flatten_append, hr, ← hparts]
  rfl

/-- **The ETag of a list tells the ETags of its partitions.** It does not tell the addresses:
one of them may contain what looks like another server. -/
theorem listETag_partitions (hsha : Function.Injective sha256) {ds' : DataServers}
    (h : Tagged sha256 ds) (h' : Tagged sha256 ds') (hne : ds.servers.entries ≠ [])
    (hne' : ds'.servers.entries ≠ []) (he : ds.eTag = ds'.eTag) {pid : Nat}
    {part part' : ListPartition} (hp : ds.partitions.lookup pid = some part)
    (hp' : ds'.partitions.lookup pid = some part') : part.eTag = part'.eTag := by
  rw [h.eTag, h'.eTag] at he
  have htext := flatMap_stringBytes_inj (hsha (base64RawUrl_inj (String.ofList_injective he)))
  obtain ⟨r, hr⟩ := listTags_text h hne
  obtain ⟨r', hr'⟩ := listTags_text h' hne'
  rw [hr, hr'] at htext
  have hblank : ∀ {ds : DataServers}, Tagged sha256 ds →
      ∀ x ∈ (partTags ds.partitions).map fun s => s.toList.drop 5, ' ' ∉ x := by
    intro ds h x hx
    obtain ⟨s, hs, rfl⟩ := List.mem_map.mp hx
    exact (partTags_label h hs).2
  -- one label ends in `t` and the other in `v`
  have hlabels : ∀ x y : List Char, x ++ "part".toList ≠ y ++ "srv".toList := by
    intro x y hxy
    have hlast := congrArg List.getLast? hxy
    rw [List.getLast?_append, List.getLast?_append] at hlast
    have hletter : some 't' = some 'v' := hlast
    exact absurd hletter (by decide)
  have hdrop := labelled_inj (by decide) (by decide) hlabels (hblank h) (hblank h') htext
  -- the text of the partition is one of the other list, and its id is the same there
  have hmem : (partitionTag pid part.eTag).toList.drop 5 ∈
      (partTags ds'.partitions).map fun s => s.toList.drop 5 := by
    rw [← hdrop]
    exact List.mem_map_of_mem (mem_partTags.mpr ⟨pid, part, hp, rfl⟩)
  obtain ⟨s, hs, hsd⟩ := List.mem_map.mp hmem
  have hstring : s = partitionTag pid part.eTag := by
    refine String.toList_inj.mp ?_
    rw [(partTags_label h' hs).1, hsd]
    exact ((partTags_label h (mem_partTags.mpr ⟨pid, part, hp, rfl⟩)).1).symm
  obtain ⟨pid', part'', hp'', hs'⟩ := mem_partTags.mp hs
  obtain ⟨rfl, htag⟩ := partitionTag_eq (hstring.symm.trans hs')
  rw [hp'] at hp''
  cases hp''
  exact htag

end Tags

end Scout.Sessions
