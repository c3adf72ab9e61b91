import Scout.Partitions.Passes
import Scout.Control.Placement

/-!
The state that the planner makes of the replicated cluster state. `View` relates the
two: the planner sees every replica in the role of its state, and nothing else.
-/

namespace Scout.Partitions

open Lib Control

/-! ## States of replicas -/

def roleOf : Control.ReplicaState → Role
  | .joining => .joining
  | .voter | .nonVoter => .serving
  | .leaving => .leaving
  | .stopped | .other _ => .absent

variable {state : Control.ReplicaState}

theorem roleOf_serving : roleOf state = .serving ↔ state.isServing = true := by
  cases state <;> simp [roleOf, ReplicaState.isServing]

theorem roleOf_of_transition {replica : Option Replica}
    (h : isValidReplicaTransition replica state = true) : roleOf state ≠ .absent := by
  cases state with
  | stopped => cases h
  | other n => cases h
  | joining | voter | nonVoter | leaving => nofun

def Known (part : Partition) : Prop :=
  ∀ name r, part.replicas.get name = some r → roleOf r.state ≠ .absent

section Known

variable {part part' : Partition}

theorem known_added {t : Time} {sid : Nat} {state : Control.ReplicaState}
    (ha : Added t sid state part part') (hs : roleOf state ≠ .absent) (h : Known part) :
    Known part' := by
  intro name r hr
  rw [ha.get] at hr
  split at hr
  · cases hr
    exact hs
  · exact h name r hr

theorem known_updated {t : Time} {replica : String} {state : Control.ReplicaState}
    (hu : Updated t replica state part part') (hs : roleOf state ≠ .absent) (h : Known part) :
    Known part' := by
  obtain ⟨r₀, hr₀, hget⟩ := hu.get
  intro name r hr
  rw [hget] at hr
  split at hr
  · cases hr
    exact hs
  · exact h name r hr

theorem known_removed {replica : String} (hr : Removed replica part part') (h : Known part) :
    Known part' := by
  intro name r hg
  rw [hr.get] at hg
  split at hg
  · cases hg
  · exact h name r hg

theorem known_reported (hr : Reported part part') (h : Known part) : Known part' := by
  intro name r' hg'
  cases hg : part.replicas.get name with
  | none =>
    rw [hr.none name hg] at hg'
    cases hg'
  | some r =>
    obtain ⟨r₁, h₁, hs⟩ := hr.some name r hg
    rw [h₁] at hg'
    cases hg'
    rw [hs.state]
    exact h name r hg

end Known

def AllKnown (f : Fsm) : Prop :=
  ∀ p, f.partitions = some p → ∀ q part, p.items.get q = some part → Known part

theorem known_survives (S : Nat → Prop) : Survives S (fun _ => Known) fun _ => True where
  empty _ part hnone name r hr := by
    rw [hnone] at hr
    cases hr
  same _ part part' hsame h name r hr := by
    rw [hsame] at hr
    exact h name r hr
  added _ _ _ _ _ _ ha hs _ h := by
    refine known_added ha ?_ h
    rcases hs with rfl | hs
    · nofun
    · rw [roleOf_serving.mpr hs]
      nofun
  updated _ _ _ _ _ _ _ hu hvalid h := known_updated hu (roleOf_of_transition hvalid) h
  removed _ _ _ _ hr h := known_removed hr h
  reported _ _ u part _ _ h := known_reported (updateStatus_reported part u) h

variable {f : Fsm}

theorem AllKnown.step {f' : Fsm} {a : Step} (hf : Sound f) (h : AllKnown f)
    (hstep : Control.step f a = some f') : AllKnown f' :=
  AllItems.step (known_survives _) hf h (fun _ _ => trivial) hstep

/-! ## Building the view -/

/-- A replica, with its partition and the name it is stored under. -/
abbrev Stored := Nat × String × Replica

structure Built (sids pids : List Nat) (done : List Stored) (s : State) (ρ : Roles) : Prop where
  refines : Refines s ρ
  server : ∀ sid, (s.serv.lookup sid).isSome = true ↔ sid ∈ sids
  partition : ∀ pid, (s.part.lookup pid).isSome = true ↔ pid ∈ pids
  within : ∀ x ∈ done, x.1 ∈ pids
  role : ∀ x ∈ done, ρ x.2.2.serverId x.1 = roleOf x.2.2.state
  entry : ∀ x ∈ done, s.getReplica x.2.2.serverId x.1 =
    some ⟨x.1, x.2.1, x.2.2.createdTime, x.2.2.ready⟩
  only : ∀ sid pid, ρ sid pid ≠ .absent ∨ (s.getReplica sid pid).isSome = true →
    ∃ x ∈ done, x.1 = pid ∧ x.2.2.serverId = sid

section Built

variable {sids pids : List Nat} {done : List Stored} {s : State} {ρ : Roles}

theorem built_new : Built [] [] [] State.new fun _ _ => .absent := by
  refine ⟨⟨nofun, nofun, nofun, fun _ _ h => absurd rfl h⟩, ?_, ?_, nofun, nofun, nofun, ?_⟩
  · exact fun sid => ⟨nofun, nofun⟩
  · exact fun pid => ⟨nofun, nofun⟩
  · rintro sid pid (h | h)
    · exact absurd rfl h
    · cases h

theorem Built.addServer (h : Built sids pids done s ρ) (sid : Nat) :
    Built (sids ++ [sid]) pids done (s.addServer sid) ρ := by
  unfold State.addServer
  cases hl : s.serv.lookup sid with
  | some x =>
    have hmem : sid ∈ sids := (h.server sid).mp (by rw [hl]; rfl)
    rw [if_pos (show (some x).isSome = true from rfl)]
    refine ⟨h.refines, fun a => ?_, h.partition, h.within, h.role, h.entry, h.only⟩
    rw [h.server, List.mem_append, List.mem_singleton]
    exact ⟨.inl, fun ha => ha.elim id fun e => e ▸ hmem⟩
  | none =>
    rw [if_neg (by simp)]
    have hlook : ∀ a, (s.serv.insert sid (Sets.new sid)).lookup a =
        if a = sid then some (Sets.new sid) else s.serv.lookup a :=
      lookup_insert_if _ _ _
    refine ⟨⟨fun a x hx => ?_, fun a x hx => ?_, h.refines.part, fun a b hab => ?_⟩, fun a => ?_,
      h.partition, h.within, h.role, h.entry, h.only⟩
    · rw [hlook] at hx
      split at hx
      · next ha =>
        cases hx
        exact ha.symm
      · exact h.refines.servId a x hx
    · rw [hlook] at hx
      split at hx
      · next ha =>
        cases hx
        exact (Sets.Holds.new sid).congr fun k => ha ▸ h.refines.absent_of_serv hl k
      · exact h.refines.serv a x hx
    · have hw := h.refines.known a b hab
      unfold State.writable at hw ⊢
      rw [Bool.and_eq_true] at hw ⊢
      refine ⟨?_, hw.2⟩
      rw [hlook]
      split
      · rfl
      · exact hw.1
    · rw [hlook, List.mem_append, List.mem_singleton, ← h.server]
      by_cases ha : a = sid <;> simp [ha]

variable {pid : Nat}

theorem Built.addPartition (h : Built sids pids done s ρ) (hn : pid ∉ pids) :
    Built sids (pids ++ [pid]) done (s.addPartition pid) ρ := by
  have hl : s.part.lookup pid = none := by
    rw [← Option.isNone_iff_eq_none, ← Option.isSome_eq_false_iff, ← Bool.not_eq_true]
    exact fun hs => hn ((h.partition pid).mp hs)
  have hlook : ∀ b, (s.part.insert pid (Sets.new pid)).lookup b =
      if b = pid then some (Sets.new pid) else s.part.lookup b :=
      lookup_insert_if _ _ _
  unfold State.addPartition
  rw [if_neg (by simp [hl])]
  refine ⟨⟨h.refines.servId, h.refines.serv, fun b y hy => ?_, fun a b hab => ?_⟩, h.server,
    fun b => ?_, fun x hx => List.mem_append_left _ (h.within x hx), h.role, h.entry, h.only⟩
  · rw [hlook] at hy
    split at hy
    · next hb =>
      cases hy
      exact (Sets.Holds.new pid).congr fun k => hb ▸ h.refines.absent_of_part hl k
    · exact h.refines.part b y hy
  · have hw := h.refines.known a b hab
    unfold State.writable at hw ⊢
    rw [Bool.and_eq_true] at hw ⊢
    refine ⟨hw.1, ?_⟩
    rw [hlook]
    split
    · rfl
    · exact hw.2
  · rw [hlook, List.mem_append, List.mem_singleton, ← h.partition]
    by_cases hb : b = pid <;> simp [hb]

theorem getReplica_addReplica (s : State) (sid pid : Nat) (e : ReplicaState) (a b : Nat) :
    (s.addReplica sid pid e).getReplica a b =
      if a = sid ∧ b = pid then some e else s.getReplica a b := by
  unfold State.addReplica State.getReplica
  by_cases h : a = sid ∧ b = pid
  · rw [if_pos h, h.1, h.2, AList.lookup_insert]
  · rw [if_neg h, AList.lookup_insert_ne fun he => h ⟨congrArg Prod.fst he, congrArg Prod.snd he⟩]

theorem makeReplica_eq (name : String) {r : Replica} (hw : s.writable r.serverId pid = true)
    (hr : roleOf r.state ≠ .absent) :
    ∃ f n, MovesRole f .absent (roleOf r.state) ∧ makeReplica pid s (name, r) =
      some (State.addReplica { s.modify r.serverId pid f with joining := n } r.serverId pid
        ⟨pid, name, r.createdTime, r.ready⟩) := by
  unfold makeReplica
  have hserving : s.addServing r.serverId pid = _ := if_pos hw
  have hjoining : s.addJoining r.serverId pid = _ := if_pos hw
  have hleaving : s.addLeaving r.serverId pid = _ := if_pos hw
  cases hs : r.state with
  | stopped | other => simp [hs, roleOf] at hr
  | voter =>
    rw [if_pos (by decide), hserving]
    exact ⟨_, s.joining, movesRole_addServing, rfl⟩
  | nonVoter =>
    rw [if_pos (by decide), hserving]
    exact ⟨_, s.joining, movesRole_addServing, rfl⟩
  | joining =>
    rw [if_neg (by decide), hjoining]
    exact ⟨_, s.joining + 1, movesRole_addJoining, rfl⟩
  | leaving =>
    rw [if_neg (by decide), hleaving]
    exact ⟨_, s.joining, movesRole_addLeaving, rfl⟩

theorem Built.makeReplica {name : String} {r : Replica} (h : Built sids pids done s ρ)
    (hsid : r.serverId ∈ sids) (hpid : pid ∈ pids) (hr : roleOf r.state ≠ .absent)
    (hfree : ∀ x ∈ done, x.1 = pid → x.2.2.serverId ≠ r.serverId) :
    ∃ s' ρ', Partitions.makeReplica pid s (name, r) = some s' ∧
      Built sids pids (done ++ [(pid, name, r)]) s' ρ' := by
  have hw : s.writable r.serverId pid = true := by
    unfold State.writable
    rw [(h.server _).mpr hsid, (h.partition _).mpr hpid]
    rfl
  have habs : ρ r.serverId pid = .absent := by
    by_contra hc
    obtain ⟨x, hx, e₁, e₂⟩ := h.only _ _ (.inl hc)
    exact hfree x hx e₁ e₂
  -- a replica that was read before is at another point of the map
  have hother : ∀ x ∈ done, ¬(x.2.2.serverId = r.serverId ∧ x.1 = pid) :=
    fun x hx he => hfree x hx he.2 he.1
  obtain ⟨f, n, hf, he⟩ := makeReplica_eq name hw hr
  have hkeys := (modify_sameKeys (f := f) hw).withJoining n
  have href := (h.refines.modify hw hf habs).withJoining n
  refine ⟨_, ρ.set r.serverId pid (roleOf r.state), he, ⟨href.servId, href.serv, href.part,
    href.known⟩, fun a => ?_, fun b => ?_, fun x hx => ?_, fun x hx => ?_, fun x hx => ?_,
    fun a b hab => ?_⟩
  · exact (iff_of_eq (congrArg (· = true) (hkeys.serv a))).trans (h.server a)
  · exact (iff_of_eq (congrArg (· = true) (hkeys.part b))).trans (h.partition b)
  · rcases List.mem_append.mp hx with hx | hx
    · exact h.within x hx
    · cases List.mem_singleton.mp hx
      exact hpid
  · rcases List.mem_append.mp hx with hx | hx
    · rw [Roles.set_of_ne ρ (hother x hx)]
      exact h.role x hx
    · cases List.mem_singleton.mp hx
      exact Roles.set_self ρ _ _ _
  · rw [getReplica_addReplica]
    rcases List.mem_append.mp hx with hx | hx
    · rw [if_neg (hother x hx)]
      exact h.entry x hx
    · cases List.mem_singleton.mp hx
      exact if_pos ⟨rfl, rfl⟩
  · by_cases hc : a = r.serverId ∧ b = pid
    · exact ⟨(pid, name, r), by simp, hc.2.symm, hc.1.symm⟩
    · rw [Roles.set_of_ne ρ hc, getReplica_addReplica, if_neg hc] at hab
      obtain ⟨x, hx, e⟩ := h.only a b hab
      exact ⟨x, List.mem_append_left _ hx, e⟩

def storedOf (x : Nat × Partition) : List Stored :=
  x.2.replicas.toList.map fun e => (x.1, e.1, e.2)

theorem Built.makePartition {part : Partition} (h : Built sids pids done s ρ) (hn : pid ∉ pids)
    (hspread : part.Spread) (hon : part.On (· ∈ sids)) (hknown : Known part) :
    ∃ s' ρ', Partitions.makePartition s (pid, part) = some s' ∧
      Built sids (pids ++ [pid]) (done ++ storedOf (pid, part)) s' ρ' := by
  have hnd := GoMap.nodup_keys part.replicas
  have hloop := foldlM_builds (m := Option) (f := Partitions.makeReplica pid)
    (fun pre s => ∃ ρ, Built sids (pids ++ [pid])
      (done ++ pre.map fun e => (pid, e.1, e.2)) s ρ) part.replicas.toList
    (s := s.addPartition pid) ⟨ρ, by simpa using h.addPartition hn⟩ ?_
  · obtain ⟨s', hs', ρ', h'⟩ := hloop
    exact ⟨s', ρ', hs', h'⟩
  · rintro pre ⟨name, r⟩ post s₁ hxs ⟨ρ₁, h₁⟩
    have hget : part.replicas.get name = some r := GoMap.mem_toList.mp (by simp [hxs])
    have hfree : ∀ x ∈ done ++ pre.map (fun e => (pid, e.1, e.2)), x.1 = pid →
        x.2.2.serverId ≠ r.serverId := by
      intro x hx hpid hsid
      rcases List.mem_append.mp hx with hx | hx
      · exact hn (hpid ▸ h.within x hx)
      obtain ⟨⟨name', r'⟩, hmem, rfl⟩ := List.mem_map.mp hx
      have hget' : part.replicas.get name' = some r' := GoMap.mem_toList.mp (by simp [hxs, hmem])
      obtain rfl : name' = name := hspread name' name r' r hget' hget hsid
      -- the name occurs twice in the map
      rw [hxs, List.map_append, List.nodup_append'] at hnd
      exact hnd.2.2 (List.mem_map.mpr ⟨_, hmem, rfl⟩) (by simp)
    obtain ⟨s₂, ρ₂, e₂, h₂⟩ := h₁.makeReplica (hon name r hget)
      (List.mem_append_right pids (by simp : pid ∈ [pid])) (hknown name r hget) hfree
    refine ⟨s₂, e₂, ρ₂, ?_⟩
    rw [List.map_append, ← List.append_assoc]
    exact h₂

end Built

theorem built_servers (sids : List Nat) :
    Built sids [] [] (sids.foldl State.addServer State.new) fun _ _ => .absent := by
  induction sids using List.reverseRecOn with
  | nil => exact built_new
  | append_singleton sids sid ih =>
    rw [List.foldl_append]
    exact ih.addServer sid

/-! ## The view -/

structure View (f : Fsm) (p : Control.Partitions) (s : State) (ρ : Roles) : Prop where
  refines : Refines s ρ
  server : ∀ sid, (s.serv.lookup sid).isSome = true ↔ DataServer f sid
  partition : ∀ pid, (s.part.lookup pid).isSome = true ↔ (p.items.get pid).isSome = true
  role : ∀ {pid part name r}, p.items.get pid = some part → part.replicas.get name = some r →
    ρ r.serverId pid = roleOf r.state
  entry : ∀ {pid part name r}, p.items.get pid = some part → part.replicas.get name = some r →
    s.getReplica r.serverId pid = some ⟨pid, name, r.createdTime, r.ready⟩
  only : ∀ {sid pid}, ρ sid pid ≠ .absent ∨ (s.getReplica sid pid).isSome = true →
    ∃ part name r, p.items.get pid = some part ∧ part.replicas.get name = some r ∧
      r.serverId = sid

variable {pid : Nat} {p : Control.Partitions} {name : String} {r : Replica}

theorem mem_stored : (pid, name, r) ∈ p.items.toList.flatMap storedOf ↔
      ∃ part, p.items.get pid = some part ∧ part.replicas.get name = some r := by
  unfold storedOf
  simp only [List.mem_flatMap, List.mem_map, Prod.exists, GoMap.mem_toList, Prod.mk.injEq]
  constructor
  · rintro ⟨_, part, hp, _, _, hr, rfl, rfl, rfl⟩
    exact ⟨part, hp, hr⟩
  · rintro ⟨part, hp, hr⟩
    exact ⟨pid, part, hp, name, r, hr, rfl, rfl, rfl⟩

variable {servers : Servers} {sid : Nat}

theorem mem_dataServers (hs : f.servers = some servers) :
    sid ∈ dataServers servers ↔ DataServer f sid := by
  unfold dataServers DataServer
  simp only [List.mem_map, List.mem_filter, Prod.exists, GoMap.mem_toList, beq_iff_eq]
  constructor
  · rintro ⟨_, server, ⟨hg, ht⟩, rfl⟩
    exact ⟨servers, server, hs, hg, ht⟩
  · rintro ⟨s', server, hs', hg, ht⟩
    rw [hs] at hs'
    cases hs'
    exact ⟨sid, server, ⟨hg, ht⟩, rfl⟩

/-- The planner can read every state with known replicas, one for each server and
partition and all on data servers. -/
theorem makeState_view (hs : f.servers = some servers)
    (hspread : ∀ q part, p.items.get q = some part → part.Spread)
    (hon : ∀ q part, p.items.get q = some part → part.On (DataServer f))
    (hknown : ∀ q part, p.items.get q = some part → Known part) :
    ∃ s ρ, makeState servers p = some s ∧ View f p s ρ := by
  have hnd := GoMap.nodup_keys p.items
  have hloop := foldlM_builds (m := Option) (f := makePartition)
    (fun pre s => ∃ ρ, Built (dataServers servers) (pre.map Prod.fst) (pre.flatMap storedOf) s ρ)
    p.items.toList ⟨_, built_servers (dataServers servers)⟩ ?_
  · obtain ⟨s, hmake, ρ, h⟩ := hloop
    refine ⟨s, ρ, hmake, h.refines, fun sid => ?_, fun pid => ?_, fun {pid part name r} hp hr => ?_,
      fun {pid part name r} hp hr => ?_, fun {sid pid} hab => ?_⟩
    · rw [h.server, mem_dataServers hs]
    · rw [h.partition, Option.isSome_iff_exists]
      simp only [List.mem_map, Prod.exists, GoMap.mem_toList, exists_and_right, exists_eq_right]
    · exact h.role (pid, name, r) (mem_stored.mpr ⟨part, hp, hr⟩)
    · exact h.entry (pid, name, r) (mem_stored.mpr ⟨part, hp, hr⟩)
    · obtain ⟨⟨_, name, r⟩, hx, rfl, rfl⟩ := h.only sid pid hab
      obtain ⟨part, hp, hr⟩ := mem_stored.mp hx
      exact ⟨part, name, r, hp, hr, rfl⟩
  · rintro pre ⟨pid, part⟩ post s₁ hxs ⟨ρ₁, h₁⟩
    have hget : p.items.get pid = some part := GoMap.mem_toList.mp (by simp [hxs])
    have hnew : pid ∉ pre.map Prod.fst := by
      rw [hxs, List.map_append, List.nodup_append'] at hnd
      exact fun hm => hnd.2.2 hm (by simp)
    obtain ⟨s₂, ρ₂, e₂, h₂⟩ := h₁.makePartition hnew (hspread pid part hget)
      (fun name r hr => (mem_dataServers hs).mpr (hon pid part hget name r hr))
      (hknown pid part hget)
    refine ⟨s₂, e₂, ρ₂, ?_⟩
    rw [List.map_append, List.flatMap_append]
    simpa using h₂

/-! ## Servers that the planner knows -/

variable {s s' : State}

theorem addServing_writable (h : s.addServing sid pid = some s') : s.writable sid pid = true := by
  unfold State.addServing at h
  split at h
  · assumption
  · cases h

theorem addLeaving_writable (h : s.addLeaving sid pid = some s') : s.writable sid pid = true := by
  unfold State.addLeaving at h
  split at h
  · assumption
  · cases h

theorem makeReplica_writable (h : makeReplica pid s (name, r) = some s') :
    s.writable r.serverId pid = true ∧ roleOf r.state ≠ .absent := by
  unfold makeReplica at h
  cases hs : r.state with
  | voter | nonVoter =>
    rw [hs, if_pos (by decide)] at h
    obtain ⟨_, h₁, _⟩ := Option.bind_eq_some_iff.mp h
    exact ⟨addServing_writable h₁, nofun⟩
  | joining =>
    rw [hs, if_neg (by decide)] at h
    obtain ⟨_, h₁, _⟩ := Option.bind_eq_some_iff.mp h
    exact ⟨addJoining_writable h₁, nofun⟩
  | leaving =>
    rw [hs, if_neg (by decide)] at h
    obtain ⟨_, h₁, _⟩ := Option.bind_eq_some_iff.mp h
    exact ⟨addLeaving_writable h₁, nofun⟩
  | stopped | other n =>
    rw [hs, if_neg (by simp [ReplicaState.isServing])] at h
    cases h

def Serves (sids : List Nat) (s : State) : Prop :=
  ∀ sid, (s.serv.lookup sid).isSome = true ↔ sid ∈ sids

theorem Serves.makeReplica {sids : List Nat} (h : Serves sids s)
    (hm : makeReplica pid s (name, r) = some s') : Serves sids s' ∧ r.serverId ∈ sids := by
  obtain ⟨hw, hr⟩ := makeReplica_writable hm
  obtain ⟨f, n, _, he⟩ := makeReplica_eq name hw hr
  rw [he] at hm
  cases hm
  have hkeys := (modify_sameKeys (f := f) hw).withJoining n
  refine ⟨fun sid => ?_, (h _).mp (Bool.and_eq_true_iff.mp hw).1⟩
  exact (iff_of_eq (congrArg (· = true) (hkeys.serv sid))).trans (h sid)

theorem addPartition_serv (s : State) (pid : Nat) : (s.addPartition pid).serv = s.serv := by
  unfold State.addPartition
  split <;> rfl

theorem makeState_on (h : makeState servers p = some s) :
    ∀ q part, p.items.get q = some part → part.On (· ∈ dataServers servers) := by
  have hloop := (foldlM_each (Serves (dataServers servers))
    (fun x : Nat × Partition => x.2.On (· ∈ dataServers servers)) h
    (built_servers (dataServers servers)).server ?_).2
  · exact fun q part hq => hloop (q, part) (GoMap.mem_toList.mpr hq)
  · intro x s s' hs hm
    have hpart := foldlM_each (Serves (dataServers servers))
      (fun e : String × Replica => e.2.serverId ∈ dataServers servers) hm ?_
      fun e s s' hs hm => hs.makeReplica hm
    · exact ⟨hpart.1, fun name r hr => hpart.2 (name, r) (GoMap.mem_toList.mpr hr)⟩
    · intro sid
      rw [addPartition_serv]
      exact hs sid

end Scout.Partitions
