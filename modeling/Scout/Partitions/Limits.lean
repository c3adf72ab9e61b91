import Scout.Partitions.WellFormed

/-!
What a plan guarantees about the state that it starts from: the result is well-formed
again, new joining replicas stay within the limits and go to servers without a replica,
and the number of serving replicas of a partition does not fall below the replication
factor.

All of it is kept by each operation of a plan, so it holds at the end.
-/

namespace Scout.Partitions

open Lib Control

/-- The server has been added to the partition by the plan. -/
def NewJoiner (curr s : State) (sid pid : Nat) : Prop :=
  sid ∈ (s.partition pid).joining ∧ sid ∉ (curr.partition pid).joining

structure Kept (config : Config) (curr s : State) : Prop where
  partId : ∀ pid y, s.part.lookup pid = some y → y.id = pid
  counted : s.joining = (joiningPairs s).length
  total : ∀ sid pid, NewJoiner curr s sid pid → s.joining ≤ config.maxJoining
  forServer : ∀ sid pid, NewJoiner curr s sid pid →
    (s.server sid).joiningCount ≤ config.maxJoiningForServer
  forPartition : ∀ sid pid, NewJoiner curr s sid pid →
    (s.partition pid).joiningCount ≤ config.maxJoiningForPartition
  serving : ∀ pid, min config.replicationFactor (curr.partition pid).servingCount ≤
    (s.partition pid).servingCount

theorem Kept.start (config : Config) {curr : State} (h : WellFormed curr) :
    Kept config curr curr := by
  refine ⟨h.partId, h.counted, ?_, ?_, ?_, fun pid => min_le_right _ _⟩
  · exact fun _ _ hnew => absurd hnew.1 hnew.2
  · exact fun _ _ hnew => absurd hnew.1 hnew.2
  · exact fun _ _ hnew => absurd hnew.1 hnew.2

theorem count_within {n n' limit : Int} {p q : Prop} [Decidable p] [Decidable q]
    (h : n' + (if p then 1 else 0) = n + if q then 1 else 0) (hadd : q → n < limit)
    (hold : ¬q → n ≤ limit) : n' ≤ limit := by
  by_cases hq : q
  · have hlt := hadd hq
    split_ifs at h <;> omega
  · have hle := hold hq
    split_ifs at h <;> omega

section Modify

variable {config : Config} {curr s s' : State} {ρ : Roles} {sid pid : Nat} {r₁ r₂ : Role}

theorem Sets.Holds.counts {x x' : Sets} {r r' : Nat → Role} {k : Nat} (h : x.Holds r)
    (h' : x'.Holds r') (hne : ∀ j, j ≠ k → r' j = r j) :
    x'.joiningCount + (if r k = .joining then 1 else 0) =
        x.joiningCount + (if r' k = .joining then 1 else 0) ∧
      x'.servingCount + (if r k = .serving then 1 else 0) =
        x.servingCount + if r' k = .serving then 1 else 0 := by
  have hj := length_update (k := k) x.joining.nodup x'.joining.nodup fun j hj =>
    (h'.joining j).trans ((hne j hj).symm ▸ (h.joining j).symm)
  have hs := length_update (k := k) x.serving.nodup x'.serving.nodup fun j hj =>
    (h'.serving j).trans ((hne j hj).symm ▸ (h.serving j).symm)
  have hmem : ∀ y : KeySet Nat, k ∈ y.elems ↔ k ∈ y := fun _ => Iff.rfl
  simp only [hmem, h.joining, h'.joining, h.serving, h'.serving] at hj hs
  unfold Sets.joiningCount Sets.servingCount KeySet.size
  constructor
  · split_ifs at hj ⊢ <;> omega
  · split_ifs at hs ⊢ <;> omega

theorem NewJoiner.of_set {a b : Nat} (h : Refines s ρ) (h' : Refines s' (ρ.set sid pid r₂))
    (hnew : NewJoiner curr s' a b) :
    a = sid ∧ b = pid ∧ r₂ = .joining ∨ ¬(a = sid ∧ b = pid) ∧ NewJoiner curr s a b := by
  obtain ⟨hin, hout⟩ := hnew
  rw [(h'.partition b).joining] at hin
  by_cases hab : a = sid ∧ b = pid
  · rw [hab.1, hab.2, Roles.set_self] at hin
    exact .inl ⟨hab.1, hab.2, hin⟩
  · rw [Roles.set_of_ne ρ hab] at hin
    exact .inr ⟨hab, ((h.partition b).joining a).mpr hin, hout⟩

/-- A change of one role, with the conditions under which a pass makes it. -/
theorem Kept.set (h : Kept config curr s) (href : Refines s ρ)
    (href' : Refines s' (ρ.set sid pid r₂)) (hr : ρ sid pid = r₁)
    (hserver : ∀ a, a ≠ sid → s'.server a = s.server a)
    (hpartition : ∀ b, b ≠ pid → s'.partition b = s.partition b)
    (hid : ∀ b y, s'.part.lookup b = some y → y.id = b)
    (hn : s'.joining + (if r₁ = .joining then 1 else 0) =
      s.joining + if r₂ = .joining then 1 else 0)
    (hadd : r₂ = .joining → canAddReplica config s sid pid = true)
    (hleave : r₁ = .serving → config.replicationFactor < (s.partition pid).servingCount) :
    Kept config curr s' := by
  have hcounts := (href.server sid).counts (href'.server sid) (k := pid) fun j hj =>
    Roles.set_of_ne ρ fun he => hj he.2
  have hcounts' := (href.partition pid).counts (href'.partition pid) (k := sid) fun j hj =>
    Roles.set_of_ne ρ fun he => hj he.1
  rw [hr, Roles.set_self] at hcounts hcounts'
  have hpairs := joiningPairs_length href href'
  rw [hr] at hpairs
  have hlimits := fun hjoin => canAddReplica_limits (hadd hjoin)
  have hold : ∀ a b, NewJoiner curr s' a b → r₂ ≠ .joining → NewJoiner curr s a b := by
    intro a b hnew hne
    rcases hnew.of_set href href' with ⟨_, _, hjoin⟩ | ⟨_, hnew⟩
    · exact absurd hjoin hne
    · exact hnew
  constructor
  · exact hid
  · have hcounted := h.counted
    split_ifs at hpairs hn <;> omega
  · intro a b hnew
    exact count_within hn (fun hjoin => (hlimits hjoin).1)
      fun hne => h.total a b (hold a b hnew hne)
  · intro a b hnew
    by_cases ha : a = sid
    · subst ha
      exact count_within hcounts.1 (fun hjoin => (hlimits hjoin).2.1)
        fun hne => h.forServer a b (hold a b hnew hne)
    · rw [hserver a ha]
      rcases hnew.of_set href href' with ⟨hc, _⟩ | ⟨_, hnew⟩
      · exact absurd hc ha
      · exact h.forServer a b hnew
  · intro a b hnew
    by_cases hb : b = pid
    · subst hb
      exact count_within hcounts'.1 (fun hjoin => (hlimits hjoin).2.2)
        fun hne => h.forPartition a b (hold a b hnew hne)
    · rw [hpartition b hb]
      rcases hnew.of_set href href' with ⟨_, hc, _⟩ | ⟨_, hnew⟩
      · exact absurd hc hb
      · exact h.forPartition a b hnew
  · intro b
    by_cases hb : b = pid
    · subst hb
      have hle := h.serving b
      have hsize := hcounts'.2
      by_cases hserv : r₁ = .serving
      · have hgt := hleave hserv
        split_ifs at hsize <;> omega
      · rw [if_neg hserv] at hsize
        split_ifs at hsize <;> omega
    · rw [hpartition b hb]
      exact h.serving b

theorem Kept.modify {f : Nat → Sets → Sets} {n : Int} (h : Kept config curr s)
    (href : Refines s ρ) (hw : s.writable sid pid = true) (hf : MovesRole f r₁ r₂)
    (hr : ρ sid pid = r₁)
    (hn : n + (if r₁ = .joining then 1 else 0) = s.joining + if r₂ = .joining then 1 else 0)
    (hadd : r₂ = .joining → canAddReplica config s sid pid = true)
    (hleave : r₁ = .serving → config.replicationFactor < (s.partition pid).servingCount) :
    Kept config curr { s.modify sid pid f with joining := n } := by
  refine h.set href ((href.modify hw hf hr).withJoining n) hr ?_ ?_ ?_ hn hadd hleave
  · exact fun a ha => (modify_server hw a).trans (if_neg ha)
  · exact fun b hb => (modify_partition hw b).trans (if_neg hb)
  · intro b y hy
    have hy : (s.modify sid pid f).part.lookup b = some y := hy
    rw [modify_part hw] at hy
    split at hy
    · next hb =>
      obtain ⟨y₀, hy₀, rfl⟩ := Option.map_eq_some_iff.mp hy
      rw [hf.1, h.partId pid y₀ hy₀, hb]
    · exact h.partId b y hy

end Modify

theorem kept_invariant (config : Config) (curr : State) : Invariant config (Kept config curr) := by
  constructor
  · intro s ρ sid pid href hr h
    have hw := href.known sid pid (by rw [hr]; nofun)
    exact h.modify href hw movesRole_drop hr rfl nofun nofun
  · intro s ρ sid pid s' href hr hs h
    have hw := href.known sid pid (by rw [hr]; nofun)
    unfold State.transitionJoiningToServing at hs
    rw [if_pos hw] at hs
    cases hs
    refine h.modify href hw movesRole_promote hr ?_ nofun nofun
    show s.joining - 1 + 1 = s.joining + 0
    omega
  · intro s ρ sid pid s' href hcan hs h
    have hw := addJoining_writable hs
    unfold State.addJoining at hs
    rw [if_pos hw] at hs
    cases hs
    refine h.modify href hw movesRole_addJoining (href.absent_of_canAdd hcan).1 ?_
      (fun _ => hcan) nofun
    show s.joining + 1 + 0 = s.joining + 1
    omega
  · intro s ρ sid pid s' href hr hlt hs h
    have hw := href.known sid pid (by rw [hr]; nofun)
    unfold State.transitionServingToLeaving at hs
    rw [if_pos hw] at hs
    cases hs
    exact h.modify href hw movesRole_demote hr rfl nofun fun _ => hlt

/-- What a plan guarantees, in terms of the two states. -/
structure Safe (config : Config) (curr next : State) : Prop where
  mirrored : Mirrored next
  keys : SameKeys curr next
  entry : ∀ sid pid, HasRole next sid pid →
    (next.getReplica sid pid).isSome = true ∨ NewJoiner curr next sid pid
  fresh : ∀ sid pid, NewJoiner curr next sid pid →
    next.getReplica sid pid = none ∧ curr.hasReplica sid pid = false
  total : ∀ sid pid, NewJoiner curr next sid pid → next.joining ≤ config.maxJoining
  forServer : ∀ sid pid, NewJoiner curr next sid pid →
    (next.server sid).joiningCount ≤ config.maxJoiningForServer
  forPartition : ∀ sid pid, NewJoiner curr next sid pid →
    (next.partition pid).joiningCount ≤ config.maxJoiningForPartition
  serving : ∀ pid, min config.replicationFactor (curr.partition pid).servingCount ≤
    (next.partition pid).servingCount

theorem SameKeys.partitionCount {s s' : State} (h : SameKeys s s') :
    s'.partitionCount = s.partitionCount := by
  have hperm : s'.part.keys.Perm s.part.keys := by
    refine (List.perm_ext_iff_of_nodup s'.part.keys_nodup s.part.keys_nodup).mpr fun pid => ?_
    have hmem : ∀ t : State, pid ∈ t.part.keys ↔ (t.part.lookup pid).isSome = true :=
      fun t => AList.mem_keys.symm.trans AList.lookup_isSome.symm
    rw [hmem, hmem, h.part]
  have hlen : ∀ t : State, t.part.keys.length = t.partitionCount := fun t => List.length_map _
  rw [← hlen s', ← hlen s]
  exact hperm.length_eq

theorem hasReplica_of_absent {s : State} {sid pid : Nat} (hr : ¬HasRole s sid pid)
    (hn : s.getReplica sid pid = none) : s.hasReplica sid pid = false := by
  unfold HasRole at hr
  unfold State.hasReplica
  rw [hn]
  simp only [not_or] at hr
  simp [hr]

/-- **A plan is safe.** -/
theorem nextState_keeps (config : Config) (ch : Choices) {curr : State} (h : WellFormed curr) :
    ∃ next, nextState config ch curr = some next ∧ Safe config curr next := by
  have h₀ := h.toMirrored.refines
  obtain ⟨next, ρ, hnext, hplan, hkept⟩ := nextState_invariant (kept_invariant config curr)
    h.complete h₀ (Kept.start config h)
  refine ⟨next, hnext, ?_⟩
  have href := hplan.refines
  have hnumbered : ∀ pid, (next.part.lookup pid).isSome = true ↔ pid < next.partitionCount := by
    intro pid
    rw [hplan.keys.part, hplan.keys.partitionCount]
    exact h.numbered pid
  -- a new joiner gets a role that only a server without one may get
  have hfresh : ∀ sid pid, NewJoiner curr next sid pid →
      rolesOf curr sid pid = .absent ∧ curr.getReplica sid pid = none := by
    rintro sid pid ⟨hin, hout⟩
    rw [(href.partition pid).joining] at hin
    rw [(h₀.partition pid).joining] at hout
    have ha := hplan.allowed sid pid
    rw [hin] at ha
    rcases ha.to_joining with hc | hnew
    · exact absurd hc hout
    · exact hnew
  constructor
  · exact href.mirrored hkept.partId hnumbered hkept.counted
  · exact hplan.keys
  · intro sid pid hrole
    rw [hplan.keys.getReplica]
    by_cases hold : rolesOf curr sid pid = .absent
    · right
      rw [href.hasRole] at hrole
      have ha := hplan.allowed sid pid
      rw [hold] at ha
      have hjoin := ha.from_absent.resolve_left hrole
      rw [NewJoiner, (href.partition pid).joining, (h₀.partition pid).joining, hold]
      exact ⟨hjoin, nofun⟩
    · exact .inl (h.entry sid pid (rolesOf_absent.mp hold))
  · intro sid pid hnew
    obtain ⟨habs, hnone⟩ := hfresh sid pid hnew
    rw [hplan.keys.getReplica]
    exact ⟨hnone, hasReplica_of_absent (fun hc => rolesOf_absent.mpr hc habs) hnone⟩
  · exact hkept.total
  · exact hkept.forServer
  · exact hkept.forPartition
  · exact hkept.serving

end Scout.Partitions
