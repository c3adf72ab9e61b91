import Scout.Control.Versions
import Scout.Lib.Base64
import Scout.Partitions.Planner

/-!
The configurations that the control plane sends to the data servers, and the ETags
by which a server finds out that its configuration has changed.

Each server gets the partitions that have a replica on it. The ETag of a partition is
its version, and the ETag of the whole is a hash over the sorted list of partitions
and versions. SHA-256 is a parameter.
-/

namespace Scout.Sessions

open Lib Control
open Partitions (dataServers)

structure ConfigReplica where
  name : String
  serverId : Nat
  state : ReplicaState
  deriving DecidableEq, Repr

structure ConfigPartition where
  eTag : String
  id : Nat
  replicas : AList fun _ : String => ConfigReplica

/-- A nil map and an empty one are the same message. -/
structure DataServerConfig where
  eTag : String
  partitions : AList fun _ : Nat => ConfigPartition

/-! ## ETags -/

def stringBytes (s : String) : List UInt8 := s.toByteArray.data.toList

def makeETag (sha256 : List UInt8 → List UInt8) (values : List String) : String :=
  let values := values.insertionSort (· ≤ ·)
  String.ofList (base64RawUrl (sha256 (values.flatMap stringBytes)))

/-! ## Configurations -/

def configReplica (replica : Replica) : ConfigReplica :=
  ⟨replica.name, replica.serverId, replica.state⟩

def configPartition (p : Partition) : ConfigPartition :=
  ⟨toString p.assignmentsVersion, p.id,
    (p.replicas.toList.map Prod.snd).foldl (fun m r => m.insert r.name (configReplica r)) ∅⟩

abbrev ByServer := AList fun _ : Nat => AList fun _ : Nat => ConfigPartition

def ByServer.assign (m : ByServer) (partition : ConfigPartition) (serverId : Nat) : ByServer :=
  m.insert serverId (((m.lookup serverId).getD ∅).insert partition.id partition)

def byServer (partitions : Partitions) : ByServer :=
  (partitions.items.toList.map Prod.snd).foldl (fun m p =>
    (p.replicas.toList.map Prod.snd).foldl (fun m replica =>
      m.assign (configPartition p) replica.serverId) m) ∅

def partitionTag (id : Nat) (eTag : String) : String := "part " ++ toString id ++ ":" ++ eTag

def dataServerConfig (sha256 : List UInt8 → List UInt8)
    (partitions : AList fun _ : Nat => ConfigPartition) : DataServerConfig :=
  ⟨makeETag sha256 (partitions.entries.map fun e => partitionTag e.1 e.2.eTag), partitions⟩

def makeDataServerConfigs (sha256 : List UInt8 → List UInt8) (servers : Servers)
    (partitions : Partitions) : AList fun _ : Nat => DataServerConfig :=
  (dataServers servers).foldl (fun result id =>
    result.insert id (dataServerConfig sha256 (((byServer partitions).lookup id).getD ∅))) ∅

/-! ## Equal messages -/

/-- Maps are compared entry by entry. -/
structure ConfigPartition.Same (c c' : ConfigPartition) : Prop where
  eTag : c.eTag = c'.eTag
  id : c.id = c'.id
  replicas : ∀ name, c.replicas.lookup name = c'.replicas.lookup name

structure DataServerConfig.Same (c c' : DataServerConfig) : Prop where
  eTag : c.eTag = c'.eTag
  partitions : ∀ q, Option.Rel ConfigPartition.Same (c.partitions.lookup q) (c'.partitions.lookup q)

/-! ## What a configuration holds -/

variable {q : Nat}

theorem configPartition_replicas {part : Partition} (h : Named q part) (name : String) :
    (configPartition part).replicas.lookup name = (part.replicas.get name).map configReplica := by
  have hmem : ∀ r, r ∈ part.replicas.toList.map Prod.snd ↔ part.replicas.get r.name = some r := by
    intro r
    rw [List.mem_map]
    constructor
    · rintro ⟨⟨n, r⟩, hr, rfl⟩
      have hg := GoMap.mem_toList.mp hr
      rw [h.name n r hg]
      exact hg
    · exact fun hg => ⟨(r.name, r), GoMap.mem_toList.mpr hg, rfl⟩
  have hfun : ∀ r ∈ part.replicas.toList.map Prod.snd, ∀ r' ∈ part.replicas.toList.map Prod.snd,
      r.name = r'.name → configReplica r = configReplica r' := by
    intro r hr r' hr' he
    rw [hmem] at hr hr'
    rw [he, hr'] at hr
    cases hr
    rfl
  refine Option.ext fun x => ?_
  refine (foldl_assign (fun m : AList fun _ : String => ConfigReplica => fun k => m.lookup k)
    (fun m r => m.insert r.name (configReplica r)) Replica.name configReplica
    (fun m r k => lookup_insert_if m r.name _ k) hfun ∅ name x).trans ?_
  rw [Option.map_eq_some_iff]
  constructor
  · rintro (⟨r, hr, rfl, rfl⟩ | ⟨_, hx⟩)
    · exact ⟨r, (hmem r).mp hr, rfl⟩
    · cases hx
  · rintro ⟨r, hr, rfl⟩
    obtain rfl := h.name name r hr
    exact .inl ⟨r, (hmem r).mpr hr, rfl, rfl⟩

def ByServer.at (m : ByServer) (k : Nat × Nat) : Option ConfigPartition :=
  ((m.lookup k.1).getD ∅).lookup k.2

theorem ByServer.at_assign (m : ByServer) (c : ConfigPartition) (sid : Nat) (k : Nat × Nat) :
    (m.assign c sid).at k = if k = (sid, c.id) then some c else m.at k := by
  obtain ⟨s, q⟩ := k
  unfold ByServer.at ByServer.assign
  rw [lookup_insert_if]
  by_cases hs : s = sid
  · subst hs
    rw [if_pos rfl, Option.getD_some, lookup_insert_if]
    simp
  · rw [if_neg hs, if_neg (by simp [hs])]

variable {count : Nat} {p : Partitions}

theorem byServer_at (h : ItemsOk count p.items) (sid q : Nat) (c : ConfigPartition) :
    (byServer p).at (sid, q) = some c ↔ ∃ part, p.items.get q = some part ∧
      c = configPartition part ∧ ∃ name r, part.replicas.get name = some r ∧ r.serverId = sid := by
  -- the two loops as one, over pairs of a partition and a replica
  have hpairs : byServer p = ((p.items.toList.map Prod.snd).flatMap fun part =>
      (part.replicas.toList.map Prod.snd).map fun r => (configPartition part, r.serverId)).foldl
      (fun m x => m.assign x.1 x.2) ∅ := by
    unfold byServer
    rw [List.foldl_flatMap]
    simp only [List.foldl_map]
  have hmem : ∀ x, x ∈ ((p.items.toList.map Prod.snd).flatMap fun part =>
      (part.replicas.toList.map Prod.snd).map fun r => (configPartition part, r.serverId)) ↔
      ∃ q part name r, p.items.get q = some part ∧ part.replicas.get name = some r ∧
        x = (configPartition part, r.serverId) := by
    intro x
    simp only [List.mem_flatMap, List.mem_map, Prod.exists, GoMap.mem_toList]
    constructor
    · rintro ⟨part, ⟨q, _, hq, rfl⟩, r, ⟨name, _, hr, rfl⟩, rfl⟩
      exact ⟨q, _, name, _, hq, hr, rfl⟩
    · rintro ⟨q, part, name, r, hq, hr, rfl⟩
      exact ⟨part, ⟨q, part, hq, rfl⟩, r, ⟨name, r, hr, rfl⟩, rfl⟩
  rw [hpairs, foldl_assign ByServer.at (fun m x => m.assign x.1 x.2)
    (fun x => (x.2, x.1.id)) Prod.fst (fun m x k => m.at_assign x.1 x.2 k)]
  · constructor
    · rintro (⟨x, hx, hk, rfl⟩ | ⟨_, hx⟩)
      · obtain ⟨q', part, name, r, hq, hr, rfl⟩ := (hmem x).mp hx
        obtain ⟨rfl, rfl⟩ := Prod.mk.inj hk
        have hid : part.id = q' := h.id part hq
        exact ⟨part, by rw [show (configPartition part).id = q' from hid]; exact hq, rfl,
          name, r, hr, rfl⟩
      · cases hx
    · rintro ⟨part, hq, rfl, name, r, hr, rfl⟩
      refine .inl ⟨(configPartition part, r.serverId), (hmem _).mpr
        ⟨q, part, name, r, hq, hr, rfl⟩, ?_, rfl⟩
      rw [show (configPartition part).id = q from h.id part hq]
  · intro x hx y hy hk
    obtain ⟨q, part, _, r, hq, _, rfl⟩ := (hmem x).mp hx
    obtain ⟨q', part', _, r', hq', _, rfl⟩ := (hmem y).mp hy
    obtain ⟨_, hid⟩ := Prod.mk.inj hk
    have hid : part.id = part'.id := hid
    rw [h.id part hq, h.id part' hq'] at hid
    subst hid
    rw [hq] at hq'
    cases hq'
    rfl

variable {sid : Nat} {sha256 : List UInt8 → List UInt8}

theorem makeDataServerConfigs_lookup {servers : Servers} {c : DataServerConfig} :
    (makeDataServerConfigs sha256 servers p).lookup sid = some c ↔ sid ∈ dataServers servers ∧
      c = dataServerConfig sha256 (((byServer p).lookup sid).getD ∅) := by
  refine (foldl_assign (fun m : AList fun _ : Nat => DataServerConfig => fun k => m.lookup k)
    (fun m sid => m.insert sid (dataServerConfig sha256 (((byServer p).lookup sid).getD ∅)))
    (fun sid => sid) (fun sid => dataServerConfig sha256 (((byServer p).lookup sid).getD ∅))
    (fun m sid k => lookup_insert_if m sid _ k) (l := dataServers servers)
    (fun a _ b _ he => by rw [show a = b from he]) ∅ sid c).trans ?_
  constructor
  · rintro (⟨a, ha, rfl, rfl⟩ | ⟨_, hx⟩)
    · exact ⟨ha, rfl⟩
    · cases hx
  · rintro ⟨ha, rfl⟩
    exact .inl ⟨sid, ha, rfl, rfl⟩

/-! ## The hash tells the partitions and their versions -/

theorem partitionTag_toList (q : Nat) (eTag : String) : (partitionTag q eTag).toList =
    'p' :: ('a' :: 'r' :: 't' :: ' ' :: ((toString q).toList ++ ':' :: eTag.toList)) := by
  unfold partitionTag
  rw [String.toList_append, String.toList_append, String.toList_append, List.append_assoc,
    List.append_assoc]
  rfl

theorem partitionTag_eq {q' : Nat} {e e' : String} (h : partitionTag q e = partitionTag q' e') :
    q = q' ∧ e = e' := by
  have ht := congrArg String.toList h
  rw [partitionTag_toList, partitionTag_toList] at ht
  simp only [List.cons.injEq, true_and] at ht
  obtain ⟨hq, he⟩ := append_cons_inj (not_mem_toString (by decide) q)
    (not_mem_toString (by decide) q') ht
  exact ⟨toString_toList_inj hq, String.toList_inj.mp he⟩

theorem partitionTag_inj {q' v v' : Nat}
    (h : partitionTag q (toString v) = partitionTag q' (toString v')) : q = q' ∧ v = v' := by
  obtain ⟨hq, hv⟩ := partitionTag_eq h
  exact ⟨hq, Nat.repr_inj.mp hv⟩

theorem partitionTag_starts (q v : Nat) : Starts 'p' (partitionTag q (toString v)).toList := by
  refine ⟨_, partitionTag_toList q (toString v), ?_⟩
  have hq := not_mem_toString (c := 'p') (by decide) q
  have hv := not_mem_toString (c := 'p') (by decide) v
  simp only [List.mem_cons, List.mem_append, hq, hv]
  decide

theorem stringBytes_inj {s t : String} (h : stringBytes s = stringBytes t) : s = t := by
  refine String.toByteArray_inj.mp (ByteArray.ext ?_)
  exact Array.toList_inj.mp h

theorem stringBytes_append (s t : String) :
    stringBytes (s ++ t) = stringBytes s ++ stringBytes t := by
  unfold stringBytes
  rw [String.toByteArray_append, ByteArray.data_append, Array.toList_append]

theorem flatMap_stringBytes_inj {xs ys : List String}
    (h : xs.flatMap stringBytes = ys.flatMap stringBytes) :
    (xs.map String.toList).flatten = (ys.map String.toList).flatten := by
  have hbytes : ∀ xs : List String,
      xs.flatMap stringBytes = stringBytes (xs.foldr (· ++ ·) "") := by
    intro xs
    induction xs with
    | nil => rfl
    | cons x xs ih => rw [List.flatMap_cons, ih, List.foldr_cons, stringBytes_append]
  have htext : ∀ xs : List String,
      (xs.foldr (· ++ ·) "").toList = (xs.map String.toList).flatten := by
    intro xs
    induction xs with
    | nil => rfl
    | cons x xs ih =>
      rw [List.foldr_cons, String.toList_append, ih, List.map_cons, List.flatten_cons]
  rw [hbytes, hbytes] at h
  rw [← htext, ← htext, stringBytes_inj h]

/-- **The ETag tells the values**, up to their order. -/
theorem makeETag_inj (hsha : Function.Injective sha256) {xs ys : List String}
    (hx : ∀ x ∈ xs, Starts 'p' x.toList) (hy : ∀ y ∈ ys, Starts 'p' y.toList)
    (h : makeETag sha256 xs = makeETag sha256 ys) : xs.Perm ys := by
  have hbytes := hsha (base64RawUrl_inj (String.ofList_injective h))
  have hperm : ∀ l : List String, (l.insertionSort (· ≤ ·)).Perm l :=
    fun l => List.perm_insertionSort _ l
  have hstarts : ∀ l : List String, (∀ x ∈ l, Starts 'p' x.toList) →
      ∀ x ∈ (l.insertionSort (· ≤ ·)).map String.toList, Starts 'p' x := by
    intro l hl x hm
    obtain ⟨s, hs, rfl⟩ := List.mem_map.mp hm
    exact hl s ((hperm l).mem_iff.mp hs)
  have hsorted := flatten_inj (hstarts xs hx) (hstarts ys hy) (flatMap_stringBytes_inj hbytes)
  have hlists := List.map_injective_iff.mpr (fun _ _ => String.toList_inj.mp) hsorted
  exact (hperm xs).symm.trans (hlists ▸ hperm ys)

/-! ## Two states of a run -/

theorem configPartition_same {part part' : Partition} (h : Named q part) (h' : Named q part')
    (hv : part.assignmentsVersion = part'.assignmentsVersion) (hs : SamePlaces part part') :
    (configPartition part).Same (configPartition part') := by
  refine ⟨congrArg toString hv, h.id.trans h'.id.symm, fun name => ?_⟩
  rw [configPartition_replicas h, configPartition_replicas h']
  have hplace := hs name
  cases hr : part.replicas.get name with
  | none =>
    rw [hr, Option.map_none, Option.map_eq_none_iff] at hplace
    rw [hplace]
  | some r =>
    rw [hr] at hplace
    obtain ⟨r', hr', he⟩ := Option.map_eq_some_iff.mp hplace
    obtain ⟨hserver, hstate⟩ := Prod.mk.inj he
    rw [hr', Option.map_some, Option.map_some]
    unfold configReplica
    rw [hserver, hstate, h.name name r hr, h'.name name r' hr']

def tags (p : Partitions) (sid : Nat) : List String :=
  (((byServer p).lookup sid).getD ∅).entries.map fun e => partitionTag e.1 e.2.eTag

theorem mem_tags {tag : String} : tag ∈ tags p sid ↔
    ∃ q c, (byServer p).at (sid, q) = some c ∧ tag = partitionTag q c.eTag := by
  unfold tags
  rw [List.mem_map]
  constructor
  · rintro ⟨⟨q, c⟩, he, rfl⟩
    exact ⟨q, c, (mem_entries_iff _ _ _).mp he, rfl⟩
  · rintro ⟨q, c, hc, rfl⟩
    exact ⟨⟨q, c⟩, (mem_entries_iff _ _ _).mpr hc, rfl⟩

theorem byServer_eTag (h : ItemsOk count p.items) {c : ConfigPartition}
    (hc : (byServer p).at (sid, q) = some c) : ∃ v : Nat, c.eTag = toString v := by
  obtain ⟨part, _, rfl, _⟩ := (byServer_at h sid q c).mp hc
  exact ⟨part.assignmentsVersion, rfl⟩

theorem tags_start (h : ItemsOk count p.items) : ∀ x ∈ tags p sid, Starts 'p' x.toList := by
  intro x hx
  obtain ⟨q, c, hc, rfl⟩ := mem_tags.mp hx
  obtain ⟨v, hv⟩ := byServer_eTag h hc
  rw [hv]
  exact partitionTag_starts q v

theorem partitionTag_mem_tags (h : ItemsOk count p.items) {v : Nat} :
    partitionTag q (toString v) ∈ tags p sid ↔
      ∃ c, (byServer p).at (sid, q) = some c ∧ c.eTag = toString v := by
  rw [mem_tags]
  constructor
  · rintro ⟨q', c, hc, ht⟩
    obtain ⟨v', hv'⟩ := byServer_eTag h hc
    rw [hv'] at ht
    obtain ⟨rfl, rfl⟩ := partitionTag_inj ht
    exact ⟨c, hc, hv'⟩
  · rintro ⟨c, hc, hv⟩
    exact ⟨q, c, hc, by rw [hv]⟩

theorem config_eTag_inj (hsha : Function.Injective sha256) {count₁ count₂ : Nat}
    {p₁ p₂ : Partitions} (h₁ : ItemsOk count₁ p₁.items) (h₂ : ItemsOk count₂ p₂.items)
    (he : (dataServerConfig sha256 (((byServer p₁).lookup sid).getD ∅)).eTag =
      (dataServerConfig sha256 (((byServer p₂).lookup sid).getD ∅)).eTag) (q v : Nat) :
    (∃ c, (byServer p₁).at (sid, q) = some c ∧ c.eTag = toString v) ↔
      ∃ c, (byServer p₂).at (sid, q) = some c ∧ c.eTag = toString v := by
  rw [← partitionTag_mem_tags h₁, ← partitionTag_mem_tags h₂]
  exact (makeETag_inj hsha (tags_start h₁) (tags_start h₂) he).mem_iff

section Run

variable {i m : Nat} {t : Time} {cmd : Bootstrap} {r : Result} {f₀ f₁ f₂ : Fsm}
  {as bs : List Step} {p₁ p₂ : Partitions} {s₁ s₂ : Servers}

/-- **A change of configuration is detected.** Two states of a run with the same version
of a partition have the same replicas of it. So two configurations of one server with
the same ETag are equal, and so are their entries for a partition that have the same
ETag. -/
theorem config_change_detected {sha256 : List UInt8 → List UInt8} (hsha : Function.Injective sha256)
    (hboot : apply newFsm ⟨i, t, some ⟨m, some (.bootstrap cmd)⟩⟩ = some (f₀, .ok r))
    (hname : cmd.clusterName ≠ "") (hrun₁ : runSteps step f₀ as = some f₁)
    (hrun₂ : runSteps step f₁ bs = some f₂) (hp₁ : f₁.partitions = some p₁)
    (hp₂ : f₂.partitions = some p₂) :
    (∀ q part₁ part₂, p₁.items.get q = some part₁ → p₂.items.get q = some part₂ →
      part₁.assignmentsVersion = part₂.assignmentsVersion → SamePlaces part₁ part₂) ∧
    ∀ sid c₁ c₂, (makeDataServerConfigs sha256 s₁ p₁).lookup sid = some c₁ →
      (makeDataServerConfigs sha256 s₂ p₂).lookup sid = some c₂ → (c₁.eTag = c₂.eTag → c₁.Same c₂) ∧
      ∀ q e₁ e₂, c₁.partitions.lookup q = some e₁ → c₂.partitions.lookup q = some e₂ →
        e₁.eTag = e₂.eTag → e₁.Same e₂ := by
  have hv₁ := versioned_run (versioned_bootstrap hboot hname) hrun₁
  have hv₂ := versioned_run hv₁ hrun₂
  have hok₁ := hv₁.sound.items p₁ hp₁
  have hok₂ := hv₂.sound.items p₂ hp₂
  obtain ⟨p, hp, hlater⟩ := hv₁.later_run hrun₂ p₁ hp₁
  rw [hp₂] at hp
  cases hp
  have hplaces : ∀ q part₁ part₂, p₁.items.get q = some part₁ → p₂.items.get q = some part₂ →
      part₁.assignmentsVersion = part₂.assignmentsVersion → SamePlaces part₁ part₂ := by
    intro q part₁ part₂ h₁ h₂ he
    obtain ⟨part, hq, hl⟩ := hlater q part₁ h₁
    rw [h₂] at hq
    cases hq
    exact hl.same he.symm
  refine ⟨hplaces, fun sid c₁ c₂ hc₁ hc₂ => ?_⟩
  have hentries : ∀ q e₁ e₂, (byServer p₁).at (sid, q) = some e₁ →
      (byServer p₂).at (sid, q) = some e₂ → e₁.eTag = e₂.eTag → e₁.Same e₂ := by
    intro q e₁ e₂ h₁ h₂ he
    obtain ⟨part₁, hq₁, rfl, _⟩ := (byServer_at hok₁ sid q e₁).mp h₁
    obtain ⟨part₂, hq₂, rfl, _⟩ := (byServer_at hok₂ sid q e₂).mp h₂
    have hver := toString_toList_inj (congrArg String.toList he)
    exact configPartition_same (hok₁.named q part₁ hq₁) (hok₂.named q part₂ hq₂) hver
      (hplaces q part₁ part₂ hq₁ hq₂ hver)
  obtain ⟨_, rfl⟩ := makeDataServerConfigs_lookup.mp hc₁
  obtain ⟨_, rfl⟩ := makeDataServerConfigs_lookup.mp hc₂
  refine ⟨fun he => ⟨he, fun q => ?_⟩, fun q e₁ e₂ h₁ h₂ he => hentries q e₁ e₂ h₁ h₂ he⟩
  have htags := config_eTag_inj hsha hok₁ hok₂ he q
  show Option.Rel _ ((byServer p₁).at (sid, q)) ((byServer p₂).at (sid, q))
  cases h₁ : (byServer p₁).at (sid, q) with
  | none =>
    cases h₂ : (byServer p₂).at (sid, q) with
    | none => exact .none
    | some e₂ =>
      obtain ⟨v, hv⟩ := byServer_eTag hok₂ h₂
      obtain ⟨e₁, h, _⟩ := (htags v).mpr ⟨e₂, h₂, hv⟩
      rw [h₁] at h
      cases h
  | some e₁ =>
    obtain ⟨v, hv⟩ := byServer_eTag hok₁ h₁
    obtain ⟨e₂, h₂, hv₂⟩ := (htags v).mp ⟨e₁, h₁, hv⟩
    rw [h₂]
    exact .some (hentries q e₁ e₂ h₁ h₂ (hv.trans hv₂.symm))

def assignedCluster : List Step :=
  [.apply (command 2 (.register ⟨.data, "a", "10.0.0.2:5000", []⟩)),
   .apply (command 3 (.register ⟨.data, "b", "10.0.0.3:5000", []⟩)),
   .apply assignTwoVoters]

/-- A replica reports that it is ready, and the state is restored. -/
def reportAndRestore : List Step :=
  [.apply (command 5 (.updateStatus ⟨∅, (∅ : AList fun _ : Nat => PartitionStatus).insert 0
    ⟨(∅ : AList fun _ : String => ReplicaStatus).insert "p0_r1" ⟨some 5, 7, true⟩,
      "p0_r1", 1, 7, 7⟩⟩)),
   .restore]

theorem reportAndRestore_run : ∃ f₀ f₁ f₂ p₁ p₂ s₁ s₂,
    apply newFsm nameCluster = some (f₀, .ok (.bootstrapped true)) ∧
    runSteps step f₀ assignedCluster = some f₁ ∧ runSteps step f₁ reportAndRestore = some f₂ ∧
    f₁.partitions = some p₁ ∧ f₂.partitions = some p₂ ∧ f₁.servers = some s₁ ∧
    f₂.servers = some s₂ ∧ 2 ∈ dataServers s₁ ∧ 2 ∈ dataServers s₂ ∧
    tags p₁ 2 = ["part 0:1"] ∧ tags p₂ 2 = ["part 0:1"] :=
  ⟨_, _, _, _, _, _, _, rfl, rfl, rfl, rfl, rfl, rfl, rfl, by decide, by decide, rfl, rfl⟩

theorem config_change_detected_report : ∃ f₀ f₁ f₂ p₁ p₂ s₁ s₂ c₁ c₂,
    apply newFsm nameCluster = some (f₀, .ok (.bootstrapped true)) ∧
    runSteps step f₀ assignedCluster = some f₁ ∧ runSteps step f₁ reportAndRestore = some f₂ ∧
    f₁.partitions = some p₁ ∧ f₂.partitions = some p₂ ∧ f₁.servers = some s₁ ∧
    f₂.servers = some s₂ ∧ (makeDataServerConfigs id s₁ p₁).lookup 2 = some c₁ ∧
    (makeDataServerConfigs id s₂ p₂).lookup 2 = some c₂ ∧ c₁.eTag = c₂.eTag ∧ c₁.Same c₂ := by
  obtain ⟨f₀, f₁, f₂, p₁, p₂, s₁, s₂, hboot, hrun₁, hrun₂, hp₁, hp₂, hs₁, hs₂, hd₁, hd₂, ht₁,
    ht₂⟩ := reportAndRestore_run
  have hc₁ : (makeDataServerConfigs id s₁ p₁).lookup 2 = some _ :=
    makeDataServerConfigs_lookup.mpr ⟨hd₁, rfl⟩
  have hc₂ : (makeDataServerConfigs id s₂ p₂).lookup 2 = some _ :=
    makeDataServerConfigs_lookup.mpr ⟨hd₂, rfl⟩
  have he : makeETag id (tags p₁ 2) = makeETag id (tags p₂ 2) := by rw [ht₁, ht₂]
  have hsame := (config_change_detected Function.injective_id hboot (by decide) hrun₁ hrun₂
    hp₁ hp₂).2 2 _ _ hc₁ hc₂
  exact ⟨f₀, f₁, f₂, p₁, p₂, s₁, s₂, _, _, hboot, hrun₁, hrun₂, hp₁, hp₂, hs₁, hs₂, hc₁, hc₂, he,
    hsame.1 he⟩

end Run

end Scout.Sessions
