import Scout.Partitions.Roles

/-!
What the passes of the planner preserve. `Planned` relates the state after some of the
passes to the state that the plan started from: every server goes from its role to
one that the pass may give it, and no pass panics or loops forever.
-/

namespace Scout.Partitions

open Lib Control

/-- The roles that a plan can give to a server: a server without a replica may join; a
ready joining replica may serve, and even leave at once; a serving one may leave; a
ready leaving one is removed. -/
inductive Allowed : Option ReplicaState → Role → Role → Prop
  | same (e : Option ReplicaState) (r : Role) : Allowed e r r
  | join : Allowed none .absent .joining
  | serve (e : ReplicaState) (h : e.ready = true) : Allowed (some e) .joining .serving
  | serveAndLeave (e : ReplicaState) (h : e.ready = true) : Allowed (some e) .joining .leaving
  | leave (e : Option ReplicaState) : Allowed e .serving .leaving
  | remove (e : ReplicaState) (h : e.ready = true) : Allowed (some e) .leaving .absent

section Allowed

variable {e : Option ReplicaState} {r₀ : Role}

theorem Allowed.to_joining (h : Allowed e r₀ .joining) :
    r₀ = .joining ∨ r₀ = .absent ∧ e = none := by
  cases h with
  | same => exact .inl rfl
  | join => exact .inr ⟨rfl, rfl⟩

theorem Allowed.to_serving (h : Allowed e r₀ .serving) :
    r₀ = .serving ∨ r₀ = .joining ∧ ∃ x, e = some x ∧ x.ready = true := by
  cases h with
  | same => exact .inl rfl
  | serve x hx => exact .inr ⟨rfl, x, rfl, hx⟩

theorem Allowed.to_absent (h : Allowed e r₀ .absent) :
    r₀ = .absent ∨ r₀ = .leaving ∧ ∃ x, e = some x ∧ x.ready = true := by
  cases h with
  | same => exact .inl rfl
  | remove x hx => exact .inr ⟨rfl, x, rfl, hx⟩

theorem Allowed.from_absent {r : Role} (h : Allowed e .absent r) : r = .absent ∨ r = .joining := by
  cases h with
  | same => exact .inl rfl
  | join => exact .inr rfl

theorem Allowed.known {r : Role} (h : Allowed e r₀ r) (hr : r = .serving ∨ r = .leaving) :
    r₀ ≠ .absent := by
  rintro rfl
  rcases h.from_absent with rfl | rfl <;> simp at hr

end Allowed

/-- Every role goes with an entry of the replica, and partitions are numbered from 0. -/
structure Complete (curr : State) (ρ₀ : Roles) : Prop where
  entry : ∀ sid pid, ρ₀ sid pid ≠ .absent → (curr.getReplica sid pid).isSome = true
  numbered : ∀ pid, pid < curr.partitionCount → (curr.part.lookup pid).isSome = true

structure Planned (curr : State) (ρ₀ : Roles) (s : State) (ρ : Roles) : Prop where
  refines : Refines s ρ
  keys : SameKeys curr s
  allowed : ∀ sid pid, Allowed (curr.getReplica sid pid) (ρ₀ sid pid) (ρ sid pid)

/-- What every operation of a plan keeps, under the conditions in which a pass uses it. -/
structure Invariant (config : Config) (Q : State → Prop) : Prop where
  remove : ∀ {s ρ sid pid}, Refines s ρ → ρ sid pid = .leaving → Q s → Q (s.removeLeaving sid pid)
  serve : ∀ {s ρ sid pid s'}, Refines s ρ → ρ sid pid = .joining →
    s.transitionJoiningToServing sid pid = some s' → Q s → Q s'
  join : ∀ {s ρ sid pid s'}, Refines s ρ → canAddReplica config s sid pid = true →
    s.addJoining sid pid = some s' → Q s → Q s'
  leave : ∀ {s ρ sid pid s'}, Refines s ρ → ρ sid pid = .serving →
    config.replicationFactor < (s.partition pid).servingCount →
    s.transitionServingToLeaving sid pid = some s' → Q s → Q s'

section Passes

variable {config : Config} {ch : Choices} {curr s : State} {ρ₀ ρ : Roles} {Q : State → Prop}

theorem Planned.start (h : Refines curr ρ₀) : Planned curr ρ₀ curr ρ₀ :=
  ⟨h, .refl curr, fun _ _ => .same _ _⟩

variable {sid pid : Nat}

theorem Planned.modify {f : Nat → Sets → Sets} {r₁ r₂ : Role} (h : Planned curr ρ₀ s ρ)
    (hw : s.writable sid pid = true) (hf : MovesRole f r₁ r₂) (hr : ρ sid pid = r₁)
    (ha : Allowed (curr.getReplica sid pid) (ρ₀ sid pid) r₂) (n : Int) :
    Planned curr ρ₀ { s.modify sid pid f with joining := n } (ρ.set sid pid r₂) := by
  refine ⟨(h.refines.modify hw hf hr).withJoining n,
    h.keys.trans ((modify_sameKeys hw).withJoining n), fun a b => ?_⟩
  by_cases hc : a = sid ∧ b = pid
  · rw [hc.1, hc.2, Roles.set_self]
    exact ha
  · rw [Roles.set_of_ne ρ hc]
    exact h.allowed a b

theorem Planned.writable (h : Planned curr ρ₀ s ρ) (hr : ρ sid pid ≠ .absent) :
    s.writable sid pid = true := h.refines.known sid pid hr

variable {tag : List Nat}

theorem exists_server {keys : List Nat} (h : sid ∈ ch.order tag keys) :
    sid ∈ keys := (ch.perm tag keys).mem_iff.mp h

theorem lookup_of_mem_keys {α : Type} {c : AList fun _ : Nat => α} {k : Nat} (h : k ∈ c.keys) :
    ∃ v, c.lookup k = some v := by
  have hk : k ∈ c := h
  rw [← AList.lookup_isSome] at hk
  exact Option.isSome_iff_exists.mp hk

/-! ### Loops -/

/-- **Loop over the partitions of a server**, of which each operation changes the role
in its own partition only. -/
theorem foldlM_own {P : State → Roles → Prop} {r : Role} {op : State → Nat → Option State}
    (hop : ∀ s ρ pid, P s ρ → ρ sid pid = r →
      ∃ s' ρ', op s pid = some s' ∧ P s' ρ' ∧ ∀ b, b ≠ pid → ρ' sid b = ρ sid b) {pids : List Nat}
    (hnd : pids.Nodup) (h : P s ρ) (hr : ∀ pid ∈ pids, ρ sid pid = r) :
    ∃ s' ρ', pids.foldlM op s = some s' ∧ P s' ρ' := by
  -- the partitions that are still to come have their role
  have hloop := foldlM_builds (m := Option) (f := op)
    (fun pre s => ∃ ρ, P s ρ ∧ ∀ pid ∈ pids, pid ∉ pre → ρ sid pid = r) pids
    ⟨ρ, h, fun pid hpid _ => hr pid hpid⟩ ?_
  · obtain ⟨s', hs', ρ', hp', _⟩ := hloop
    exact ⟨s', ρ', hs', hp'⟩
  · rintro pre pid post s rfl ⟨ρ, hp, hrest⟩
    have hfresh : pid ∉ pre := fun hin =>
      (List.nodup_append.mp hnd).2.2 pid hin pid (by simp) rfl
    obtain ⟨s₁, ρ₁, h₁, hp₁, hframe⟩ := hop s ρ pid hp (hrest pid (by simp) hfresh)
    refine ⟨s₁, h₁, ρ₁, hp₁, fun b hb hnot => ?_⟩
    rw [List.mem_append, List.mem_singleton, not_or] at hnot
    rw [hframe b hnot.2]
    exact hrest b hb hnot.1

theorem foldlM_keys {P : State → Roles → Prop} {op : State → Nat → Option State} {keys : List Nat}
    (hop : ∀ k ∈ keys, ∀ s ρ, P s ρ → ∃ s' ρ', op s k = some s' ∧ P s' ρ') (h : P s ρ) :
    ∃ s' ρ', keys.foldlM op s = some s' ∧ P s' ρ' := by
  have hloop := foldlM_builds (m := Option) (f := op)
    (fun _ s => ∃ ρ, P s ρ) keys ⟨ρ, h⟩ ?_
  · obtain ⟨s', hs', ρ', hp'⟩ := hloop
    exact ⟨s', ρ', hs', hp'⟩
  · rintro pre k post s rfl ⟨ρ, hp⟩
    obtain ⟨s₁, ρ₁, h₁, hp₁⟩ := hop k (by simp) s ρ hp
    exact ⟨s₁, h₁, ρ₁, hp₁⟩

theorem mem_keys_isSome (h : SameKeys curr s) (hs : sid ∈ ch.order tag s.serv.keys) :
    (curr.serv.lookup sid).isSome = true := by
  obtain ⟨x, hx⟩ := lookup_of_mem_keys (exists_server hs)
  rw [← h.serv, hx]
  rfl

theorem Planned.server (h : Planned curr ρ₀ s ρ)
    (hs : (curr.serv.lookup sid).isSome = true) :
    (s.server sid).id = sid ∧ (s.server sid).Holds (ρ sid) := by
  refine ⟨?_, h.refines.server sid⟩
  rw [← h.keys.serv] at hs
  obtain ⟨x, hx⟩ := Option.isSome_iff_exists.mp hs
  rw [server_of_lookup hx]
  exact h.refines.servId sid x hx

/-! ### Removing and promoting -/

/-- Before new replicas are added, all joining ones were joining before the plan. -/
def NoNewJoining (ρ₀ ρ : Roles) : Prop :=
  ∀ sid pid, ρ sid pid = .joining → ρ₀ sid pid = .joining

/-- While leaving replicas are removed, no other replica leaves. -/
def Removing (curr : State) (ρ₀ : Roles) (s : State) (ρ : Roles) : Prop :=
  Planned curr ρ₀ s ρ ∧ NoNewJoining ρ₀ ρ ∧
    ∀ sid pid, ρ sid pid = .leaving → ρ₀ sid pid = .leaving

theorem Roles.of_set {ρ : Roles} {a b : Nat} {r r' : Role} (h : ρ.set sid pid r a b = r')
    (hne : r ≠ r') : ρ a b = r' := by
  by_cases hab : a = sid ∧ b = pid
  · rw [hab.1, hab.2, Roles.set_self] at h
    exact absurd h hne
  · rw [Roles.set_of_ne ρ hab] at h
    exact h

theorem removeIfReady_planned (hI : Invariant config Q) (hc : Complete curr ρ₀)
    (h : Removing curr ρ₀ s ρ) (hq : Q s) (hr : ρ sid pid = .leaving) :
    ∃ s' ρ', removeIfReady sid s pid = some s' ∧ (Removing curr ρ₀ s' ρ' ∧ Q s') ∧
      ∀ b, b ≠ pid → ρ' sid b = ρ sid b := by
  have h₀ := h.2.2 sid pid hr
  obtain ⟨e, he⟩ := Option.isSome_iff_exists.mp (hc.entry sid pid (by rw [h₀]; nofun))
  unfold removeIfReady
  rw [h.1.keys.getReplica, he, Option.bind_eq_bind, Option.bind_some]
  by_cases hready : e.ready = true
  · have hp := h.1.modify (h.1.writable (by rw [hr]; nofun)) movesRole_drop hr
      (by rw [he, h₀]; exact .remove e hready) s.joining
    refine ⟨_, _, if_pos hready, ⟨⟨hp, fun a b hl => ?_, fun a b hl => ?_⟩,
      hI.remove h.1.refines hr hq⟩, fun b hb => ?_⟩
    · exact h.2.1 a b (Roles.of_set hl nofun)
    · exact h.2.2 a b (Roles.of_set hl nofun)
    · exact Roles.set_of_ne ρ fun hab => hb hab.2
  · exact ⟨s, ρ, if_neg hready, ⟨h, hq⟩, fun _ _ => rfl⟩

theorem removeLeaving_planned (hI : Invariant config Q) (hc : Complete curr ρ₀)
    (h : Removing curr ρ₀ s ρ) (hq : Q s) :
    ∃ s' ρ', removeLeaving ch s = some s' ∧ Removing curr ρ₀ s' ρ' ∧ Q s' := by
  refine foldlM_keys (P := fun s ρ => Removing curr ρ₀ s ρ ∧ Q s)
    (fun sid hsid s₁ ρ₁ h₁ => ?_) ⟨h, hq⟩
  obtain ⟨hid, hsets⟩ := h₁.1.1.server (mem_keys_isSome h.1.keys hsid)
  unfold removeLeavingServer
  dsimp only
  rw [hid]
  refine foldlM_own (P := fun s ρ => Removing curr ρ₀ s ρ ∧ Q s)
    (fun s₂ ρ₂ pid h₂ hr => removeIfReady_planned hI hc h₂.1 h₂.2 hr)
    ((ch.perm _ _).nodup_iff.mpr (s₁.server sid).leaving.nodup) h₁ fun pid hpid => ?_
  exact (hsets.leaving pid).mp ((ch.perm _ _).mem_iff.mp hpid)

/-- Before replicas are added. -/
def Serving (curr : State) (ρ₀ : Roles) (s : State) (ρ : Roles) : Prop :=
  Planned curr ρ₀ s ρ ∧ NoNewJoining ρ₀ ρ

theorem serveIfReady_planned (hI : Invariant config Q) (hc : Complete curr ρ₀)
    (h : Serving curr ρ₀ s ρ) (hq : Q s) (hr : ρ sid pid = .joining) :
    ∃ s' ρ', serveIfReady sid s pid = some s' ∧ (Serving curr ρ₀ s' ρ' ∧ Q s') ∧
      ∀ b, b ≠ pid → ρ' sid b = ρ sid b := by
  have h₀ := h.2 sid pid hr
  obtain ⟨e, he⟩ := Option.isSome_iff_exists.mp (hc.entry sid pid (by rw [h₀]; nofun))
  unfold serveIfReady
  rw [h.1.keys.getReplica, he, Option.bind_eq_bind, Option.bind_some]
  by_cases hready : e.ready = true
  · have hw : s.writable sid pid = true := h.1.writable (by rw [hr]; nofun)
    have hp := h.1.modify hw movesRole_promote hr (by rw [he, h₀]; exact .serve e hready)
      (s.joining - 1)
    have hserve : s.transitionJoiningToServing sid pid = some _ := if_pos hw
    refine ⟨_, _, ?_, ⟨⟨hp, fun a b hl => h.2 a b (Roles.of_set hl nofun)⟩,
      hI.serve h.1.refines hr hserve hq⟩, fun b hb => ?_⟩
    · rw [if_pos hready]
      exact hserve
    · exact Roles.set_of_ne ρ fun hab => hb hab.2
  · exact ⟨s, ρ, if_neg hready, ⟨h, hq⟩, fun _ _ => rfl⟩

theorem transitionToServing_planned (hI : Invariant config Q) (hc : Complete curr ρ₀)
    (h : Serving curr ρ₀ s ρ) (hq : Q s) :
    ∃ s' ρ', transitionToServing ch s = some s' ∧ Serving curr ρ₀ s' ρ' ∧ Q s' := by
  refine foldlM_keys (P := fun s ρ => Serving curr ρ₀ s ρ ∧ Q s)
    (fun sid hsid s₁ ρ₁ h₁ => ?_) ⟨h, hq⟩
  obtain ⟨hid, hsets⟩ := h₁.1.1.server (mem_keys_isSome h.1.keys hsid)
  unfold transitionServer
  dsimp only
  rw [hid]
  refine foldlM_own (P := fun s ρ => Serving curr ρ₀ s ρ ∧ Q s)
    (fun s₂ ρ₂ pid h₂ hr => serveIfReady_planned hI hc h₂.1 h₂.2 hr)
    ((ch.perm _ _).nodup_iff.mpr (s₁.server sid).joining.nodup) h₁ fun pid hpid => ?_
  exact (hsets.joining pid).mp ((ch.perm _ _).mem_iff.mp hpid)

/-! ### Adding -/

theorem canAddReplica_limits (h : canAddReplica config s sid pid = true) :
    s.joining < config.maxJoining ∧ (s.server sid).joiningCount < config.maxJoiningForServer ∧
      (s.partition pid).joiningCount < config.maxJoiningForPartition := by
  unfold canAddReplica at h
  simp only [Bool.and_eq_true, decide_eq_true_eq] at h
  exact ⟨h.1.1.1, h.1.1.2, h.1.2⟩

theorem Refines.absent_of_canAdd (h : Refines s ρ) (hcan : canAddReplica config s sid pid = true) :
    ρ sid pid = .absent ∧ s.getReplica sid pid = none := by
  have hsets := h.partition pid
  unfold canAddReplica State.hasReplica at hcan
  simp only [Bool.and_eq_true, Bool.not_eq_true', Bool.or_eq_false_iff, decide_eq_true_eq,
    decide_eq_false_iff_not, Option.isSome_eq_false_iff, Option.isNone_iff_eq_none] at hcan
  obtain ⟨_, ⟨⟨hnone, hnj⟩, hns⟩, hnl⟩ := hcan
  refine ⟨?_, hnone⟩
  cases hr : ρ sid pid with
  | absent => rfl
  | joining => exact absurd ((hsets.joining sid).mpr hr) hnj
  | serving => exact absurd ((hsets.serving sid).mpr hr) hns
  | leaving => exact absurd ((hsets.leaving sid).mpr hr) hnl

theorem canAddReplica_absent (h : Planned curr ρ₀ s ρ)
    (hcan : canAddReplica config s sid pid = true) :
    ρ sid pid = .absent ∧ ρ₀ sid pid = .absent ∧ curr.getReplica sid pid = none := by
  obtain ⟨habs, hnone⟩ := h.refines.absent_of_canAdd hcan
  rw [h.keys.getReplica] at hnone
  refine ⟨habs, ?_, hnone⟩
  have ha := h.allowed sid pid
  rw [habs, hnone] at ha
  rcases ha.to_absent with h₀ | ⟨_, _, he, _⟩
  · exact h₀
  · cases he

theorem addJoining_planned (hI : Invariant config Q) (h : Planned curr ρ₀ s ρ) (hq : Q s)
    (hs : (curr.serv.lookup sid).isSome = true) (hp : (curr.part.lookup pid).isSome = true)
    (hcan : canAddReplica config s sid pid = true) :
    ∃ s' ρ', s.addJoining sid pid = some s' ∧ Planned curr ρ₀ s' ρ' ∧ Q s' ∧
      s'.joining = s.joining + 1 := by
  obtain ⟨habs, h₀, hnone⟩ := canAddReplica_absent h hcan
  have hw : s.writable sid pid = true := by
    unfold State.writable
    rw [h.keys.serv, h.keys.part, hs, hp]
    rfl
  have hplan := h.modify hw movesRole_addJoining habs (by rw [hnone, h₀]; exact .join)
    (s.joining + 1)
  have hjoin : s.addJoining sid pid = some _ := if_pos hw
  exact ⟨_, _, hjoin, hplan, hI.join h.refines hcan hjoin hq, rfl⟩

theorem addFirst_planned (hI : Invariant config Q) (hp : (curr.part.lookup pid).isSome = true)
    {candidates : List Nat} (hs : ∀ sid ∈ candidates, (curr.serv.lookup sid).isSome = true)
    (count : Int) (h : Planned curr ρ₀ s ρ) (hq : Q s) :
    ∃ s' ρ', addFirst config pid candidates count s = some s' ∧
      Planned curr ρ₀ s' ρ' ∧ Q s' := by
  induction candidates generalizing s ρ count with
  | nil => exact ⟨s, ρ, rfl, h, hq⟩
  | cons sid candidates ih =>
    have hrest : ∀ a ∈ candidates, (curr.serv.lookup a).isSome = true :=
      fun a ha => hs a (by simp [ha])
    unfold addFirst
    by_cases hcount : count ≤ 0
    · exact ⟨s, ρ, if_pos hcount, h, hq⟩
    rw [if_neg hcount]
    by_cases hcan : canAddReplica config s sid pid = true
    · obtain ⟨s₁, ρ₁, h₁, hp₁, hq₁, _⟩ := addJoining_planned hI h hq (hs sid (by simp)) hp hcan
      rw [if_pos hcan, h₁]
      exact ih hrest (count - 1) hp₁ hq₁
    · rw [if_neg hcan]
      exact ih hrest count h hq

theorem addMissing_planned (hI : Invariant config Q) (hp : (curr.part.lookup pid).isSome = true)
    (h : Planned curr ρ₀ s ρ) (hq : Q s) :
    ∃ s' ρ', addMissing config ch s pid = some s' ∧ Planned curr ρ₀ s' ρ' ∧ Q s' := by
  unfold addMissing
  dsimp only
  split
  · exact ⟨s, ρ, rfl, h, hq⟩
  · refine addFirst_planned hI hp (fun sid hsid => ?_) _ h hq
    rw [List.mem_insertionSort, List.mem_filter] at hsid
    exact mem_keys_isSome h.keys hsid.1

/-! ### Leaving -/

/-- As many replicas leave as there are above the replication factor. -/
theorem leaveFirst_planned (hI : Invariant config Q)
    {candidates : List Nat} (hnd : candidates.Nodup) (count : Int)
    (h : Planned curr ρ₀ s ρ) (hq : Q s)
    (hextra : count ≤ (s.partition pid).servingCount - config.replicationFactor)
    (hr : ∀ sid ∈ candidates, ρ sid pid = .serving) :
    ∃ s' ρ', leaveFirst pid candidates count s = some s' ∧ Planned curr ρ₀ s' ρ' ∧ Q s' := by
  induction candidates generalizing s ρ count with
  | nil => exact ⟨s, ρ, rfl, h, hq⟩
  | cons sid candidates ih =>
    obtain ⟨hn, hnd⟩ := List.nodup_cons.mp hnd
    unfold leaveFirst
    by_cases hcount : count ≤ 0
    · exact ⟨s, ρ, if_pos hcount, h, hq⟩
    have hrole := hr sid (by simp)
    have hw : s.writable sid pid = true := h.writable (by rw [hrole]; nofun)
    have ha : Allowed (curr.getReplica sid pid) (ρ₀ sid pid) .leaving := by
      have ha := h.allowed sid pid
      rw [hrole] at ha
      rcases ha.to_serving with h₀ | ⟨h₀, x, hx, hready⟩
      · rw [h₀]
        exact .leave _
      · rw [h₀, hx]
        exact .serveAndLeave x hready
    have hp₁ := h.modify hw movesRole_demote hrole ha s.joining
    have hleave : s.transitionServingToLeaving sid pid = some _ := if_pos hw
    have hq₁ := hI.leave h.refines hrole (by omega) hleave hq
    rw [if_neg hcount, hleave]
    refine ih hnd (count - 1) hp₁ hq₁ ?_ fun a ha => ?_
    · have hserving : sid ∈ (s.partition pid).serving :=
        ((h.refines.partition pid).serving sid).mpr hrole
      have hsize := KeySet.size_erase hserving
      rw [modify_partition hw, if_pos rfl]
      unfold Sets.servingCount at hextra ⊢
      dsimp only
      omega
    · have hne : ¬(a = sid ∧ pid = pid) := fun hab => hn (hab.1 ▸ ha)
      rw [Roles.set_of_ne ρ hne]
      exact hr a (by simp [ha])

theorem removeExtra_planned (hI : Invariant config Q) (hc : Complete curr ρ₀)
    (h : Planned curr ρ₀ s ρ) (hq : Q s) :
    ∃ s' ρ', removeExtra config ch s pid = some s' ∧ Planned curr ρ₀ s' ρ' ∧ Q s' := by
  unfold removeExtra
  dsimp only
  have hserv : ∀ sid ∈ ch.order [3, pid] (s.partition pid).serving.elems,
      ρ sid pid = .serving := fun sid hsid =>
    ((h.refines.partition pid).serving sid).mp ((ch.perm _ _).mem_iff.mp hsid)
  split
  · exact ⟨s, ρ, rfl, h, hq⟩
  next hcount =>
  have hall : ((ch.order [3, pid] (s.partition pid).serving.elems).all fun sid =>
      (s.getReplica sid pid).isSome) = true := by
    rw [List.all_eq_true]
    intro sid hsid
    have ha := h.allowed sid pid
    rw [hserv sid hsid] at ha
    rw [h.keys.getReplica]
    exact hc.entry sid pid (ha.known (.inl rfl))
  rw [if_pos hall]
  refine leaveFirst_planned hI ?_ _ h hq (Int.le_refl _) fun sid hsid =>
    hserv sid ((List.mem_insertionSort _).mp hsid)
  rw [(List.perm_insertionSort _ _).nodup_iff, (ch.perm _ _).nodup_iff]
  exact (s.partition pid).serving.nodup

/-! ### Rebalancing -/

theorem findDest_some {src : ServerState} {dests : List ServerState} {dest : Nat}
    (h : findDest config ch tag s src dests = some (dest, pid)) :
    (∃ d ∈ dests, d.id = dest) ∧ pid ∈ src.serving ∧ canAddReplica config s dest pid = true := by
  induction dests with
  | nil => cases h
  | cons d dests ih =>
    unfold findDest at h
    split at h
    · cases h
    dsimp only at h
    split at h
    · obtain ⟨⟨d', hd', he⟩, hrest⟩ := ih h
      exact ⟨⟨d', by simp [hd'], he⟩, hrest⟩
    · next p ps hord =>
      cases h
      have hmem : pid ∈ src.serving.elems.filter fun pid => canAddReplica config s d.id pid := by
        rw [← (ch.perm (src.id :: d.id :: tag) _).mem_iff, hord]
        simp
      rw [List.mem_filter] at hmem
      exact ⟨⟨d, by simp, rfl⟩, hmem.1, hmem.2⟩

theorem findMove_some {servers : List ServerState} {dest : Nat}
    (h : findMove config ch tag s servers = some (dest, pid)) :
    (∃ d ∈ servers, d.id = dest) ∧ (∃ src ∈ servers, pid ∈ src.serving) ∧
      canAddReplica config s dest pid = true := by
  induction servers with
  | nil => cases h
  | cons src servers ih =>
    unfold findMove at h
    split at h
    · next move hd =>
      cases h
      obtain ⟨⟨d, hmem, he⟩, hserv, hcan⟩ := findDest_some hd
      exact ⟨⟨d, by simp [List.mem_reverse.mp hmem], he⟩, ⟨src, by simp, hserv⟩, hcan⟩
    · obtain ⟨⟨d, hmem, he⟩, ⟨src', hsrc, hserv⟩, hcan⟩ := ih h
      exact ⟨⟨d, by simp [hmem], he⟩, ⟨src', by simp [hsrc], hserv⟩, hcan⟩

theorem mem_byLoad {x : ServerState} (h : Planned curr ρ₀ s ρ) (hx : x ∈ byLoad ch tag s) :
    ∃ sid, (curr.serv.lookup sid).isSome = true ∧ x = s.server sid := by
  unfold byLoad at hx
  rw [List.mem_insertionSort, List.mem_map] at hx
  obtain ⟨sid, hsid, rfl⟩ := hx
  exact ⟨sid, mem_keys_isSome h.keys hsid, rfl⟩

theorem findMove_add {dest : Nat} (hI : Invariant config Q) (h : Planned curr ρ₀ s ρ)
    (hq : Q s) (hm : findMove config ch tag s (byLoad ch tag s) = some (dest, pid)) :
    canAddReplica config s dest pid = true ∧ ∃ s' ρ', s.addJoining dest pid = some s' ∧
      Planned curr ρ₀ s' ρ' ∧ Q s' ∧ s'.joining = s.joining + 1 := by
  obtain ⟨⟨d, hd, hid⟩, ⟨src, hsrc, hserv⟩, hcan⟩ := findMove_some hm
  obtain ⟨sid, hs, rfl⟩ := mem_byLoad h hd
  obtain ⟨sid', hs', rfl⟩ := mem_byLoad h hsrc
  have hrole := ((h.server hs').2.serving pid).mp hserv
  have hp : (curr.part.lookup pid).isSome = true := by
    have hw : s.writable sid' pid = true := h.writable (by rw [hrole]; nofun)
    rw [h.keys.writable] at hw
    exact (Bool.and_eq_true_iff.mp hw).2
  rw [(h.server hs).1] at hid
  subst hid
  exact ⟨hcan, addJoining_planned hI h hq hs hp hcan⟩

/-- The loop ends: each iteration adds a joining replica, and there is a limit. -/
theorem rebalance_planned {fuel : Nat} (hI : Invariant config Q)
    (hfuel : config.maxJoining - s.joining < fuel) (hpos : 0 < fuel)
    (h : Planned curr ρ₀ s ρ) (hq : Q s) :
    ∃ s' ρ', rebalance config ch fuel s = some s' ∧ Planned curr ρ₀ s' ρ' ∧ Q s' := by
  induction fuel generalizing s ρ with
  | zero => exact absurd hpos (by omega)
  | succ fuel ih =>
    unfold rebalance
    cases hm : findMove config ch [4, fuel] s (byLoad ch [4, fuel] s) with
    | none => exact ⟨s, ρ, rfl, h, hq⟩
    | some move =>
      obtain ⟨hcan, s₁, ρ₁, h₁, hp₁, hq₁, hj⟩ := findMove_add hI h hq hm
      have hlt := (canAddReplica_limits hcan).1
      dsimp only
      rw [h₁]
      exact ih (by omega) (by omega) hp₁ hq₁

/-- **Invariant rule for a plan.** Planning on a complete state neither panics nor loops
forever; every server keeps its role or gets one that is allowed, and what every operation
keeps holds at the end. -/
theorem nextState_invariant (hI : Invariant config Q) (hc : Complete curr ρ₀)
    (h₀ : Refines curr ρ₀) (hq : Q curr) :
    ∃ next ρ, nextState config ch curr = some next ∧ Planned curr ρ₀ next ρ ∧ Q next := by
  have hstart : Removing curr ρ₀ curr ρ₀ := ⟨.start h₀, fun _ _ h => h, fun _ _ h => h⟩
  have hpart : ∀ pid ∈ List.range curr.partitionCount, (curr.part.lookup pid).isSome = true :=
    fun pid hpid => hc.numbered pid (List.mem_range.mp hpid)
  obtain ⟨s₁, ρ₁, e₁, h₁, q₁⟩ : ∃ s' ρ', removeLeaving ch curr = some s' ∧
      Removing curr ρ₀ s' ρ' ∧ Q s' := removeLeaving_planned hI hc hstart hq
  obtain ⟨s₂, ρ₂, e₂, h₂, q₂⟩ : ∃ s' ρ', transitionToServing ch s₁ = some s' ∧
      Serving curr ρ₀ s' ρ' ∧ Q s' :=
    transitionToServing_planned hI hc ⟨h₁.1, h₁.2.1⟩ q₁
  obtain ⟨s₃, ρ₃, e₃, h₃, q₃⟩ : ∃ s' ρ', (List.range curr.partitionCount).foldlM
      (addMissing config ch) s₂ = some s' ∧ Planned curr ρ₀ s' ρ' ∧ Q s' :=
    foldlM_keys (P := fun s ρ => Planned curr ρ₀ s ρ ∧ Q s)
      (fun pid hpid s ρ h => addMissing_planned hI (hpart pid hpid) h.1 h.2) ⟨h₂.1, q₂⟩
  obtain ⟨s₄, ρ₄, e₄, h₄, q₄⟩ : ∃ s' ρ', (List.range curr.partitionCount).foldlM
      (removeExtra config ch) s₃ = some s' ∧ Planned curr ρ₀ s' ρ' ∧ Q s' :=
    foldlM_keys (P := fun s ρ => Planned curr ρ₀ s ρ ∧ Q s)
      (fun pid _ s ρ h => removeExtra_planned hI hc h.1 h.2) ⟨h₃, q₃⟩
  have hlast : ∃ next ρ, (if 1 < s₄.maxImbalance then
      rebalance config ch (rebalanceFuel config s₄) s₄ else some s₄) = some next ∧
      Planned curr ρ₀ next ρ ∧ Q next := by
    split
    · refine rebalance_planned hI ?_ (Nat.succ_pos _) h₄ q₄
      unfold rebalanceFuel
      omega
    · exact ⟨s₄, ρ₄, rfl, h₄, q₄⟩
  obtain ⟨next, ρ, e, h, q⟩ := hlast
  refine ⟨next, ρ, ?_, h, q⟩
  simp only [nextState, Option.bind_eq_bind, e₁, e₂, e₃, e₄, Option.bind_some]
  exact e

theorem invariant_true : Invariant config fun _ => True :=
  ⟨fun _ _ _ => trivial, fun _ _ _ _ => trivial, fun _ _ _ _ => trivial,
    fun _ _ _ _ _ => trivial⟩

/-- **The plan.** Planning on a complete state neither panics nor loops forever, and
every server keeps its role or gets one that is allowed. -/
theorem nextState_planned (hc : Complete curr ρ₀) (h₀ : Refines curr ρ₀) :
    ∃ next ρ, nextState config ch curr = some next ∧ Planned curr ρ₀ next ρ := by
  obtain ⟨next, ρ, e, h, _⟩ := nextState_invariant invariant_true hc h₀ trivial
  exact ⟨next, ρ, e, h⟩

end Passes

end Scout.Partitions
