import Scout.Partitions.Executable
import Scout.Control.Rejection
import Mathlib.Data.Int.CardIntervalMod

/-!
The initial assignments. Replicas are dealt to the servers like cards: one index goes
round the servers, across all partitions, and skips servers that have the partition.

The cards are numbered in the order in which they are dealt. With `m` cards for each
partition, card `t` belongs to partition `t / m` and goes to the server at position
`(t + 1) % n`; that gives the balance.
-/

namespace Scout.Partitions

open Lib Control

/-! ## The source -/

/-- The next server without a replica of the partition, among the next `k`. -/
def nextServer (serverIds : List Nat) (s : State) (pid : Nat) :
    Nat → Nat → Option (Nat × Option Nat)
  | 0, idx => some (idx, none)
  | k + 1, idx => do
    let idx := (idx + 1) % serverIds.length
    let sid ← serverIds[idx]?
    if s.hasReplica sid pid then nextServer serverIds s pid k idx else some (idx, some sid)

def dealPartition (serverIds : List Nat) (pid : Nat) : Nat → State × Nat → Option (State × Nat)
  | 0, x => some x
  | k + 1, x => do
    match ← nextServer serverIds x.1 pid serverIds.length x.2 with
    | (idx, none) => some (x.1, idx)
    | (idx, some sid) =>
      let s ← x.1.addJoining sid pid
      dealPartition serverIds pid k (s, idx)

def dealt (serverIds : List Nat) (partitionCount replicationFactor : Nat) : Option State := do
  let s := serverIds.foldl State.addServer State.new
  let s := (List.range partitionCount).foldl State.addPartition s
  let x ← (List.range partitionCount).foldlM
    (fun x pid => dealPartition serverIds pid replicationFactor x) (s, 0)
  return x.1

def dealtReplicas (ch : Choices) (s : State) : List InitAdd :=
  (ch.order [0] s.part.keys).flatMap fun pid =>
    (ch.order [1, pid] (s.partition pid).joining.elems).map fun sid => ⟨pid, sid, true⟩

/-- The command that is sent; the last field is converted to 32 bits. -/
def initAssignments (ch : Choices) (serverIds : List Nat) (partitionCount replicationFactor : Nat) :
    Option InitAssignments := do
  let s ← dealt serverIds partitionCount replicationFactor
  return ⟨dealtReplicas ch s, (s.maxImbalance % 2 ^ 32).toNat⟩

/-! ## The cards -/

section Cards

variable (serverIds : List Nat) (m : Nat)

/-- The partition and the server of card `t`. -/
def card (t : Nat) : Nat × Nat := (t / m, serverIds.getD ((t + 1) % serverIds.length) 0)

/-- The first `T` cards. -/
def cards (T : Nat) : List (Nat × Nat) := (List.range T).map (card serverIds m)

local instance pair_lawfulBEq : LawfulBEq (Nat × Nat) := inferInstance

def dealtRoles (T : Nat) : Roles :=
  fun sid pid => if (pid, sid) ∈ cards serverIds m T then .joining else .absent

end Cards

section

variable {serverIds : List Nat} {m : Nat}

theorem mem_cards {T : Nat} {x : Nat × Nat} :
    x ∈ cards serverIds m T ↔ ∃ t < T, card serverIds m t = x := by
  simp [cards]

theorem cards_succ (T : Nat) :
    cards serverIds m (T + 1) = cards serverIds m T ++ [card serverIds m T] := by
  unfold cards
  rw [List.range_succ, List.map_append]
  rfl

theorem card_server_mem (hn : 0 < serverIds.length) (t : Nat) :
    (card serverIds m t).2 ∈ serverIds := by
  have hlt := Nat.mod_lt (t + 1) hn
  unfold card
  rw [List.getD_eq_getElem _ _ hlt]
  exact List.getElem_mem hlt

theorem getD_inj (hnd : serverIds.Nodup) {i j : Nat} (hi : i < serverIds.length)
    (hj : j < serverIds.length) (h : serverIds.getD i 0 = serverIds.getD j 0) : i = j := by
  rw [List.getD_eq_getElem _ _ hi, List.getD_eq_getElem _ _ hj] at h
  exact (hnd.getElem_inj_iff).mp h

/-- No card is dealt twice: a partition has at most as many as there are servers. -/
theorem card_inj (hn : 0 < serverIds.length) (hnd : serverIds.Nodup) (hm : 0 < m)
    (hle : m ≤ serverIds.length) {t t' : Nat} (h : card serverIds m t = card serverIds m t') :
    t = t' := by
  obtain ⟨hpid, hsid⟩ := Prod.mk.inj h
  have hpos := getD_inj hnd (Nat.mod_lt _ hn) (Nat.mod_lt _ hn) hsid
  have hmod : t ≡ t' [MOD serverIds.length] := Nat.ModEq.add_right_cancel' 1 hpos
  refine hmod.eq_of_abs_lt ?_
  have h₁ := Nat.div_add_mod t m
  have h₂ := Nat.div_add_mod t' m
  have hlt₁ := Nat.mod_lt t hm
  have hlt₂ := Nat.mod_lt t' hm
  rw [← hpid] at h₂
  rw [abs_lt]
  omega

/-! ## Dealing -/

/-- The state after the first `T` cards. -/
structure Dealt (serverIds : List Nat) (count m T : Nat) (s : State) : Prop where
  refines : Refines s (dealtRoles serverIds m T)
  server : ∀ sid, (s.serv.lookup sid).isSome = true ↔ sid ∈ serverIds
  partition : ∀ pid, (s.part.lookup pid).isSome = true ↔ pid < count
  noEntry : ∀ sid pid, s.getReplica sid pid = none

theorem built_partitions {sids : List Nat} {s : State} {ρ : Roles} (h : Built sids [] [] s ρ)
    (count : Nat) :
    Built sids (List.range count) [] ((List.range count).foldl State.addPartition s) ρ := by
  induction count with
  | zero => exact h
  | succ count ih =>
    rw [List.range_succ, List.foldl_append]
    exact ih.addPartition (by simp)

variable {count T : Nat} {s : State}

theorem dealt_start : Dealt serverIds count m 0
    ((List.range count).foldl State.addPartition (serverIds.foldl State.addServer State.new)) := by
  have hbuilt := built_partitions (built_servers serverIds) count
  have hroles : dealtRoles serverIds m 0 = fun _ _ => .absent := by
    funext sid pid
    exact if_neg (by simp [cards])
  refine ⟨hroles ▸ hbuilt.refines, ?_, ?_, ?_⟩
  · simpa using hbuilt.server
  · simpa using hbuilt.partition
  · intro sid pid
    cases hr : State.getReplica _ sid pid with
    | none => rfl
    | some r =>
      obtain ⟨x, hx, _⟩ := hbuilt.only sid pid (.inr (by rw [hr]; rfl))
      cases hx

theorem Dealt.hasReplica (h : Dealt serverIds count m T s) (sid pid : Nat) :
    s.hasReplica sid pid = true ↔ (pid, sid) ∈ cards serverIds m T := by
  have hholds := h.refines.partition pid
  unfold State.hasReplica
  simp only [Bool.or_eq_true, decide_eq_true_eq, h.noEntry, hholds.joining sid,
    hholds.serving sid, hholds.leaving sid]
  unfold dealtRoles
  split <;> simp [*]

theorem dealtRoles_succ (T : Nat) : dealtRoles serverIds m (T + 1) =
    (dealtRoles serverIds m T).set (card serverIds m T).2 (card serverIds m T).1 .joining := by
  funext sid pid
  have hmem : (pid, sid) ∈ cards serverIds m (T + 1) ↔ (pid, sid) ∈ cards serverIds m T ∨
      sid = (card serverIds m T).2 ∧ pid = (card serverIds m T).1 := by
    rw [cards_succ, List.mem_append, List.mem_singleton, Prod.ext_iff, and_comm]
  unfold dealtRoles Roles.set
  by_cases hc : sid = (card serverIds m T).2 ∧ pid = (card serverIds m T).1
  · rw [if_pos (hmem.mpr (.inr hc)), if_pos hc]
  · rw [if_neg hc]
    exact if_congr (hmem.trans (or_iff_left hc)) rfl rfl

theorem Dealt.add (h : Dealt serverIds count m T s) (hpid : (card serverIds m T).1 < count)
    (hsid : (card serverIds m T).2 ∈ serverIds) (hno : card serverIds m T ∉ cards serverIds m T) :
    ∃ s', s.addJoining (card serverIds m T).2 (card serverIds m T).1 = some s' ∧
      Dealt serverIds count m (T + 1) s' := by
  have hw : s.writable (card serverIds m T).2 (card serverIds m T).1 = true := by
    unfold State.writable
    rw [(h.server _).mpr hsid, (h.partition _).mpr hpid]
    rfl
  have hkeys := (modify_sameKeys hw
    (f := fun k x => { x with joining := x.joining.insert k })).withJoining (s.joining + 1)
  have habsent : dealtRoles serverIds m T (card serverIds m T).2 (card serverIds m T).1 = .absent :=
    if_neg hno
  refine ⟨_, if_pos hw, ?_, ?_, ?_, ?_⟩
  · rw [dealtRoles_succ]
    exact (h.refines.modify hw movesRole_addJoining habsent).withJoining _
  · intro sid
    exact (hkeys.serv sid).symm ▸ h.server sid
  · intro pid
    exact (hkeys.part pid).symm ▸ h.partition pid
  · intro sid pid
    exact (hkeys.getReplica sid pid).trans (h.noEntry sid pid)

/-- The search ends at the first server if that has no replica. -/
theorem nextServer_found {pid idx sid : Nat} (hn : 0 < serverIds.length)
    (hget : serverIds[(idx + 1) % serverIds.length]? = some sid)
    (hno : s.hasReplica sid pid = false) : nextServer serverIds s pid serverIds.length idx =
      some ((idx + 1) % serverIds.length, some sid) := by
  obtain ⟨k, hk⟩ := Nat.exists_eq_succ_of_ne_zero (Nat.ne_of_gt hn)
  have hstep : nextServer serverIds s pid (k + 1) idx =
      some ((idx + 1) % serverIds.length, some sid) := by
    unfold nextServer
    simp [hget, hno]
  rw [← hstep]
  exact congrArg (fun j => nextServer serverIds s pid j idx) hk

/-- If all servers have a replica, the index goes round. -/
theorem nextServer_none {pid : Nat} (hn : 0 < serverIds.length)
    (hall : ∀ sid ∈ serverIds, s.hasReplica sid pid = true) (k idx : Nat) :
    nextServer serverIds s pid k (idx % serverIds.length) =
      some ((idx + k) % serverIds.length, none) := by
  induction k generalizing idx with
  | zero => rfl
  | succ k ih =>
    have hlt := Nat.mod_lt (idx + 1) hn
    have hget : serverIds[(idx + 1) % serverIds.length]? = some _ := List.getElem?_eq_getElem hlt
    have hrep := hall _ (List.getElem_mem hlt)
    unfold nextServer
    rw [Nat.mod_add_mod]
    simp only [hget, Option.bind_eq_bind, Option.bind_some, hrep, if_true]
    rw [ih (idx + 1)]
    congr 3
    omega

/-! ### One partition -/

theorem card_partition {pid i : Nat} (hi : i < m) : (card serverIds m (pid * m + i)).1 = pid := by
  show (pid * m + i) / m = pid
  rw [Nat.mul_comm, Nat.mul_add_div (Nat.zero_lt_of_lt hi), Nat.div_eq_of_lt hi, Nat.add_zero]

theorem mem_full_partition (hn : 0 < serverIds.length) (pid : Nat) {sid : Nat}
    (hsid : sid ∈ serverIds) : (pid, sid) ∈ cards serverIds serverIds.length
      (pid * serverIds.length + serverIds.length) := by
  obtain ⟨j, hj, rfl⟩ := List.getElem_of_mem hsid
  have hlt := Nat.mod_lt (j + serverIds.length - 1) hn
  refine mem_cards.mpr ⟨pid * serverIds.length + (j + serverIds.length - 1) % serverIds.length,
    by omega, Prod.ext (card_partition hlt) ?_⟩
  have hpos : (pid * serverIds.length + (j + serverIds.length - 1) % serverIds.length + 1) %
      serverIds.length = j := by
    have hsum : pid * serverIds.length + (j + serverIds.length - 1) % serverIds.length + 1 =
        (j + serverIds.length - 1) % serverIds.length + 1 + serverIds.length * pid := by
      rw [Nat.mul_comm]
      omega
    have hsucc : j + serverIds.length - 1 + 1 = j + serverIds.length := by omega
    rw [hsum, Nat.add_mul_mod_self_left, Nat.mod_add_mod, hsucc, Nat.add_mod_right,
      Nat.mod_eq_of_lt hj]
  show serverIds.getD _ 0 = _
  rw [hpos, List.getD_eq_getElem _ _ hj]

section Deal

variable {r : Nat} (hn : 0 < serverIds.length) (hnd : serverIds.Nodup)
  (hm : m = min r serverIds.length)

include hn hnd hm

theorem dealPartition_dealt {pid : Nat} (hpid : pid < count) (k : Nat) {i : Nat} (hi : i ≤ m)
    (hk : i + k = r) (h : Dealt serverIds count m (pid * m + i) s) :
    ∃ s', dealPartition serverIds pid k (s, (pid * m + i) % serverIds.length) =
        some (s', (pid + 1) * m % serverIds.length) ∧
      Dealt serverIds count m ((pid + 1) * m) s' := by
  induction k generalizing i s with
  | zero =>
    have him : i = m := by omega
    rw [Nat.succ_mul, ← him]
    rw [him] at h ⊢
    exact ⟨s, rfl, h⟩
  | succ k ih =>
    unfold dealPartition
    by_cases hlt : i < m
    · -- the next card goes to the next server
      have hcard : (card serverIds m (pid * m + i)).1 = pid := card_partition hlt
      have hmem := card_server_mem (m := m) hn (pid * m + i)
      have hnew : card serverIds m (pid * m + i) ∉ cards serverIds m (pid * m + i) := by
        intro hold
        obtain ⟨t, ht, he⟩ := mem_cards.mp hold
        have heq := card_inj hn hnd (by omega) (by omega) he
        omega
      obtain ⟨s', hs', hd⟩ := h.add (by rw [hcard]; exact hpid) hmem hnew
      have hget : serverIds[((pid * m + i) % serverIds.length + 1) % serverIds.length]? =
          some (card serverIds m (pid * m + i)).2 := by
        have hpos := Nat.mod_lt (pid * m + i + 1) hn
        rw [Nat.mod_add_mod, List.getElem?_eq_getElem hpos]
        exact congrArg some (List.getD_eq_getElem _ _ hpos).symm
      have hno : s.hasReplica (card serverIds m (pid * m + i)).2 pid = false := by
        rw [← Bool.not_eq_true, h.hasReplica]
        intro hold
        exact hnew ((Prod.ext hcard rfl : card serverIds m (pid * m + i) = (pid, _)) ▸ hold)
      rw [hcard] at hs'
      rw [nextServer_found hn hget hno]
      simp only [Option.bind_eq_bind, Option.bind_some, hs']
      rw [Nat.mod_add_mod]
      exact ih (i := i + 1) hlt (by omega) hd
    · -- all servers have the partition
      have him : i = m := by omega
      have hmn : m = serverIds.length := by omega
      have hall : ∀ sid ∈ serverIds, s.hasReplica sid pid = true := by
        intro sid hsid
        rw [h.hasReplica, him, hmn]
        exact mem_full_partition hn pid hsid
      rw [nextServer_none hn hall]
      refine ⟨s, ?_, ?_⟩
      · rw [Nat.add_mod_right, him, Nat.succ_mul]
        rfl
      · rw [Nat.succ_mul, ← him]
        rw [him] at h ⊢
        exact h

theorem dealt_dealt : ∃ s, dealt serverIds count r = some s ∧
    Dealt serverIds count m (count * m) s := by
  have hloop : ∀ j ≤ count, ∃ s', (List.range j).foldlM
      (fun x pid => dealPartition serverIds pid r x)
      ((List.range count).foldl State.addPartition (serverIds.foldl State.addServer State.new), 0) =
        some (s', j * m % serverIds.length) ∧ Dealt serverIds count m (j * m) s' := by
    intro j
    induction j with
    | zero =>
      intro _
      rw [Nat.zero_mul, Nat.zero_mod]
      exact ⟨_, rfl, dealt_start⟩
    | succ j ih =>
      intro hj
      obtain ⟨s₁, hrun, h₁⟩ := ih (by omega)
      obtain ⟨s₂, hstep, h₂⟩ := dealPartition_dealt hn hnd hm (show j < count by omega)
        r (Nat.zero_le m) (Nat.zero_add r) h₁
      refine ⟨s₂, ?_, h₂⟩
      rw [List.range_succ, List.foldlM_append, hrun]
      simpa using hstep
  obtain ⟨s', hrun, h'⟩ := hloop count (Nat.le_refl _)
  refine ⟨s', ?_, h'⟩
  unfold dealt
  simp only [hrun, Option.bind_eq_bind, Option.bind_some]
  rfl

end Deal

/-! ## The command -/

theorem dealtReplicas_pairs (ch : Choices) (s : State) : (dealtReplicas ch s).map InitAdd.pair =
    (ch.order [0] s.part.keys).flatMap fun pid =>
      (ch.order [1, pid] (s.partition pid).joining.elems).map fun sid => (pid, sid) := by
  unfold dealtReplicas
  rw [List.map_flatMap]
  simp only [List.map_map]
  rfl

theorem Dealt.pairs_perm (h : Dealt serverIds count m T s) (hinj : (cards serverIds m T).Nodup)
    (ch : Choices) : ((dealtReplicas ch s).map InitAdd.pair).Perm (cards serverIds m T) := by
  rw [dealtReplicas_pairs]
  refine (List.perm_ext_iff_of_nodup ?_ hinj).mpr ?_
  · rw [List.nodup_flatMap]
    constructor
    · intro pid _
      have hnodup := (ch.perm [1, pid] _).nodup_iff.mpr (s.partition pid).joining.nodup
      exact hnodup.map fun a b hab => (Prod.mk.inj hab).2
    · have hkeys := (ch.perm [0] s.part.keys).nodup_iff.mpr s.part.keys_nodup
      refine hkeys.imp fun hne => ?_
      intro x hx hx'
      obtain ⟨_, _, rfl⟩ := List.mem_map.mp hx
      obtain ⟨_, _, he⟩ := List.mem_map.mp hx'
      exact hne (Prod.mk.inj he).1.symm
  · rintro ⟨pid, sid⟩
    have hjoin : ∀ sid pid, sid ∈ (s.partition pid).joining.elems ↔
        (pid, sid) ∈ cards serverIds m T := by
      intro sid pid
      refine ((h.refines.partition pid).joining sid).trans ?_
      unfold dealtRoles
      split <;> simp [*]
    simp only [List.mem_flatMap, List.mem_map, (ch.perm _ _).mem_iff]
    constructor
    · rintro ⟨_, _, _, hmem, he⟩
      obtain ⟨rfl, rfl⟩ := Prod.mk.inj he
      exact (hjoin _ _).mp hmem
    · intro hmem
      refine ⟨pid, ?_, sid, (hjoin sid pid).mpr hmem, rfl⟩
      have hrole : dealtRoles serverIds m T sid pid ≠ .absent := by
        unfold dealtRoles
        rw [if_pos hmem]
        nofun
      have hw := h.refines.known sid pid hrole
      unfold State.writable at hw
      rw [Bool.and_eq_true] at hw
      exact AList.mem_keys.mp (AList.lookup_isSome.mp hw.2)

end

def serversOf (cmd : InitAssignments) (pid : Nat) : List Nat :=
  (cmd.add.filter fun x => x.partitionId = pid).map InitAdd.serverId

def replicaCount (cmd : InitAssignments) (sid : Nat) : Nat :=
  cmd.add.countP fun x => x.serverId = sid

section Command

variable {serverIds : List Nat} {m count : Nat} {cmd : InitAssignments}
  (hn : 0 < serverIds.length) (hnd : serverIds.Nodup) (hm : 0 < m) (hle : m ≤ serverIds.length)
  (hcmd : (cmd.add.map InitAdd.pair).Perm (cards serverIds m (count * m)))

theorem mem_serversOf {pid sid : Nat} :
    sid ∈ serversOf cmd pid ↔ (pid, sid) ∈ cmd.add.map InitAdd.pair := by
  unfold serversOf
  simp only [List.mem_map, List.mem_filter, decide_eq_true_eq]
  constructor
  · rintro ⟨x, ⟨hx, rfl⟩, rfl⟩
    exact ⟨x, hx, rfl⟩
  · rintro ⟨x, hx, he⟩
    obtain ⟨rfl, rfl⟩ := Prod.mk.inj he
    exact ⟨x, ⟨hx, rfl⟩, rfl⟩

include hn hnd hm hle

theorem cards_nodup (T : Nat) : (cards serverIds m T).Nodup :=
  List.nodup_range.map fun _ _ h => card_inj hn hnd hm hle h

include hcmd

theorem serversOf_nodup (pid : Nat) : (serversOf cmd pid).Nodup := by
  have hpairs : (cmd.add.map InitAdd.pair).Nodup :=
    hcmd.nodup_iff.mpr (cards_nodup hn hnd hm hle _)
  have hsub : ((cmd.add.filter fun x => x.partitionId = pid).map InitAdd.pair).Nodup :=
    hpairs.sublist (List.filter_sublist.map _)
  have heq : (cmd.add.filter fun x => x.partitionId = pid).map InitAdd.pair =
      (serversOf cmd pid).map fun sid => (pid, sid) := by
    unfold serversOf
    rw [List.map_map]
    refine List.map_congr_left fun x hx => ?_
    have hpid : x.partitionId = pid := by simpa using (List.mem_filter.mp hx).2
    exact Prod.ext hpid rfl
  rw [heq] at hsub
  exact hsub.of_map

theorem serversOf_length {pid : Nat} (hpid : pid < count) : (serversOf cmd pid).length = m := by
  have hcards : ((List.range m).map fun i => (card serverIds m (pid * m + i)).2).Nodup := by
    refine List.Nodup.map_on (fun i hi j hj he => ?_) List.nodup_range
    have hi' := List.mem_range.mp hi
    have hj' := List.mem_range.mp hj
    have heq : card serverIds m (pid * m + i) = card serverIds m (pid * m + j) :=
      Prod.ext ((card_partition hi').trans (card_partition hj').symm) he
    have hinj := card_inj hn hnd hm hle heq
    omega
  have hperm : (serversOf cmd pid).Perm
      ((List.range m).map fun i => (card serverIds m (pid * m + i)).2) := by
    refine (List.perm_ext_iff_of_nodup (serversOf_nodup hn hnd hm hle hcmd pid) hcards).mpr ?_
    intro sid
    rw [mem_serversOf, hcmd.mem_iff, mem_cards, List.mem_map]
    constructor
    · rintro ⟨t, ht, he⟩
      have hdiv : t / m = pid := congrArg Prod.fst he
      have ht' := Nat.div_add_mod t m
      refine ⟨t % m, List.mem_range.mpr (Nat.mod_lt t hm), ?_⟩
      rw [← hdiv, Nat.mul_comm, ht', he]
    · rintro ⟨i, hi, rfl⟩
      have hi' := List.mem_range.mp hi
      refine ⟨pid * m + i, ?_, Prod.ext (card_partition hi') rfl⟩
      have hmul : (pid + 1) * m ≤ count * m := Nat.mul_le_mul_right m hpid
      rw [Nat.succ_mul] at hmul
      omega
  rw [hperm.length_eq, List.length_map, List.length_range]

omit hm hle in
theorem replicaCount_eq {j : Nat} (hj : j < serverIds.length) :
    replicaCount cmd serverIds[j] = count * m / serverIds.length +
      if (j + serverIds.length - 1) % serverIds.length < count * m % serverIds.length
      then 1 else 0 := by
  have hcount : ∀ (p : Nat → Prop) [DecidablePred p] (T : Nat),
      (List.range T).countP (fun t => p t) = T.count p := by
    intro p _ T
    induction T with
    | zero => rfl
    | succ T ih => simp [List.range_succ, List.countP_append, ih, Nat.count_succ]
  have hpos : ∀ t, (card serverIds m t).2 = serverIds[j] ↔
      t ≡ j + serverIds.length - 1 [MOD serverIds.length] := by
    intro t
    have hlt := Nat.mod_lt (t + 1) hn
    have hsucc : j + serverIds.length - 1 + 1 = j + serverIds.length := by omega
    show serverIds.getD _ 0 = _ ↔ _
    rw [List.getD_eq_getElem _ _ hlt, hnd.getElem_inj_iff]
    constructor
    · intro he
      refine Nat.ModEq.add_right_cancel' 1 ?_
      show (t + 1) % _ = _ % _
      rw [he, hsucc, Nat.add_mod_right, Nat.mod_eq_of_lt hj]
    · intro he
      have he' : (t + 1) % serverIds.length = (j + serverIds.length - 1 + 1) % serverIds.length :=
        he.add_right 1
      rw [he', hsucc, Nat.add_mod_right, Nat.mod_eq_of_lt hj]
  have hpairs : replicaCount cmd serverIds[j] =
      (cmd.add.map InitAdd.pair).countP fun x => x.2 = serverIds[j] := by
    rw [List.countP_map]
    rfl
  rw [hpairs, hcmd.countP_eq, cards, List.countP_map, ← Nat.count_modEq_card _ hn, ← hcount]
  refine List.countP_congr fun t _ => ?_
  simpa using hpos t

end Command

/-! ## The command at the state machine -/

theorem apply_initAssignments_iff {f : Fsm} {p : Control.Partitions} {cmd : InitAssignments}
    (hf : Sound f) (hp : f.partitions = some p) (hnew : p.hasAssignments = false)
    (hok : InitOk f cmd) (hlt : ∀ x ∈ cmd.add, x.partitionId < f.partitionCount) (i : Nat)
    (t : Time) :
    (∃ f', apply f ⟨i, t, some ⟨0, some (.initAssignments cmd)⟩⟩ = some (f', .ok (.updated 1))) ↔
      ∀ pid < f.partitionCount, nilAt p.items pid = false := by
  have hitems := hf.items p hp
  constructor
  · rintro ⟨f', h⟩ pid hpid
    obtain ⟨_, f₁, h₁, _⟩ := apply_accepted.mp h
    obtain ⟨p', items, hp', _, _, hloop, _⟩ := applyInitAssignments_ok h₁
    rw [hp] at hp'
    cases hp'
    obtain ⟨x, hx, rfl⟩ := hok.cover pid hpid
    exact initLoop_made hitems hloop x hx
  · intro hmade
    obtain ⟨items, hloop⟩ := initLoop_progress (t := t) hitems
      (fun x hx => hmade _ (hlt x hx)) hlt
    have happly : applyPayload f t (.initAssignments cmd) =
        .ok ({ f with partitions := some ⟨1, 1, items, cmd.maxImbalance⟩ }, .updated 1) := by
      refine bind_eq_ok.mpr ⟨p, deref_eq_ok.mpr hp, rejectIf_bind.mpr ⟨by simp [hnew], ?_⟩⟩
      refine bind_eq_ok.mpr ⟨(), validateInitAssignments_of_ok hok hlt, ?_⟩
      exact bind_eq_ok.mpr ⟨items, hloop, rfl⟩
    exact ⟨_, apply_accepted.mpr ⟨by simp, _, happly, rfl⟩⟩

/-- **The initial assignments are complete and balanced**, for any servers, any number of
partitions and any replication factor. A state machine that has been bootstrapped, has no
assignments and knows the servers accepts them exactly if no partition has a nil map of
replicas. -/
theorem initAssignments_accepted_iff {serverIds : List Nat} (hne : serverIds ≠ [])
    (hnd : serverIds.Nodup) (count : Nat) {r : Nat} (hr : 1 ≤ r) (ch : Choices) :
    ∃ cmd, initAssignments ch serverIds count r = some cmd ∧
      (∀ pid < count, (serversOf cmd pid).Nodup ∧
        (serversOf cmd pid).length = min r serverIds.length ∧
        ∀ sid ∈ serversOf cmd pid, sid ∈ serverIds) ∧ (∀ sid ∈ serverIds, ∀ sid' ∈ serverIds,
        replicaCount cmd sid ≤ replicaCount cmd sid' + 1) ∧
      ∀ (as : List Step) (f : Fsm) (p : Control.Partitions) (i : Nat) (t : Time),
        runSteps step newFsm as = some f → f.partitions = some p → p.hasAssignments = false →
        f.partitionCount = count → (∀ sid ∈ serverIds, DataServer f sid) →
        ((∃ f', apply f ⟨i, t, some ⟨0, some (.initAssignments cmd)⟩⟩ =
            some (f', .ok (.updated 1))) ↔ ∀ pid < count, nilAt p.items pid = false) := by
  have hn := List.length_pos_iff.mpr hne
  have hm : 0 < min r serverIds.length := by omega
  have hle : min r serverIds.length ≤ serverIds.length := Nat.min_le_right _ _
  obtain ⟨s, hs, hd⟩ : ∃ s, dealt serverIds count r = some s ∧ Dealt serverIds count
      (min r serverIds.length) (count * min r serverIds.length) s := dealt_dealt hn hnd rfl
  have hcmd := hd.pairs_perm (cards_nodup hn hnd hm hle _) ch
  refine ⟨⟨dealtReplicas ch s, (s.maxImbalance % 2 ^ 32).toNat⟩, ?_, ?_, ?_, ?_⟩
  · unfold initAssignments
    rw [hs]
    rfl
  · intro pid hpid
    refine ⟨serversOf_nodup hn hnd hm hle hcmd pid, serversOf_length hn hnd hm hle hcmd hpid, ?_⟩
    intro sid hsid
    obtain ⟨t, _, he⟩ := mem_cards.mp (hcmd.mem_iff.mp (mem_serversOf.mp hsid))
    have hmem := card_server_mem (m := min r serverIds.length) hn t
    rw [he] at hmem
    exact hmem
  · intro sid hsid sid' hsid'
    obtain ⟨j, hj, rfl⟩ := List.getElem_of_mem hsid
    obtain ⟨j', hj', rfl⟩ := List.getElem_of_mem hsid'
    rw [replicaCount_eq hn hnd hcmd hj, replicaCount_eq hn hnd hcmd hj']
    split <;> split <;> omega
  · rintro as f p i t hrun hp hnew rfl hknown
    have hmem : ∀ x ∈ dealtReplicas ch s, ∃ j < f.partitionCount * min r serverIds.length,
        card serverIds (min r serverIds.length) j = x.pair := by
      intro x hx
      exact mem_cards.mp (hcmd.mem_iff.mp (List.mem_map_of_mem hx))
    refine apply_initAssignments_iff (sound_run sound_new hrun) hp hnew ⟨?_, ?_, ?_⟩ ?_ i t
    · intro x hx
      obtain ⟨j, _, he⟩ := hmem x hx
      have hserver := card_server_mem (m := min r serverIds.length) hn j
      rw [he] at hserver
      exact hknown _ hserver
    · exact hcmd.nodup_iff.mpr (cards_nodup hn hnd hm hle _)
    · intro q hq
      have hlen : (serversOf ⟨dealtReplicas ch s, 0⟩ q).length = min r serverIds.length :=
        serversOf_length hn hnd hm hle hcmd hq
      obtain ⟨sid, hsid⟩ := List.exists_mem_of_length_pos (hlen ▸ hm)
      obtain ⟨x, hx, he⟩ := List.mem_map.mp (mem_serversOf.mp hsid)
      exact ⟨x, hx, congrArg Prod.fst he⟩
    · intro x hx
      obtain ⟨j, hj, he⟩ := hmem x hx
      have hdiv : j / min r serverIds.length = x.partitionId := congrArg Prod.fst he
      rw [← hdiv]
      exact Nat.div_lt_of_lt_mul (Nat.mul_comm _ _ ▸ hj)

/-- Two servers get one partition, right after the bootstrap. -/
theorem initAssignments_accepted_iff_two : ∃ cmd f f',
    initAssignments inOrder [2, 3] 1 2 = some cmd ∧ runSteps step newFsm twoDataServers = some f ∧
    apply f ⟨4, 0, some ⟨0, some (.initAssignments cmd)⟩⟩ = some (f', .ok (.updated 1)) := by
  obtain ⟨cmd, hcmd, _, _, hiff⟩ := initAssignments_accepted_iff
    (show ([2, 3] : List Nat) ≠ [] by decide) (by decide) 1 (r := 2) (by decide) inOrder
  obtain ⟨f, p, hrun, hp, hnew, hcount, h₂, h₃, hmade⟩ : ∃ f p,
      runSteps step newFsm twoDataServers = some f ∧ f.partitions = some p ∧
      p.hasAssignments = false ∧ f.partitionCount = 1 ∧ DataServer f 2 ∧ DataServer f 3 ∧
      nilAt p.items 0 = false :=
    ⟨_, _, rfl, rfl, rfl, rfl, ⟨_, _, rfl, rfl, rfl⟩, ⟨_, _, rfl, rfl, rfl⟩, rfl⟩
  have hknown : ∀ sid ∈ [2, 3], DataServer f sid := by
    intro sid hsid
    rcases List.mem_pair.mp hsid with rfl | rfl
    · exact h₂
    · exact h₃
  have hall : ∀ pid < 1, nilAt p.items pid = false := by
    intro pid hpid
    rw [Nat.lt_one_iff.mp hpid]
    exact hmade
  obtain ⟨f', hf'⟩ := (hiff twoDataServers f p 4 0 hrun hp hnew hcount hknown).mpr hall
  exact ⟨cmd, f, f', hcmd, hrun, hf'⟩

/-- The same command after a snapshot has been restored: a partition without replicas is
decoded with a nil map. -/
theorem initAssignments_panics : ∃ cmd f f₁ f₂, initAssignments inOrder [2, 3] 1 2 = some cmd ∧
    runSteps step newFsm twoDataServers = some f ∧
    apply f ⟨4, 0, some ⟨0, some (.initAssignments cmd)⟩⟩ = some (f₁, .ok (.updated 1)) ∧
    runSteps step newFsm (twoDataServers ++ [.restore]) = some f₂ ∧
    (f₂.partitions.map Control.Partitions.hasAssignments) = some false ∧
    DataServer f₂ 2 ∧ DataServer f₂ 3 ∧
    apply f₂ ⟨4, 0, some ⟨0, some (.initAssignments cmd)⟩⟩ = none :=
  ⟨_, _, _, _, rfl, rfl, rfl, rfl, rfl, ⟨_, _, rfl, rfl, rfl⟩, ⟨_, _, rfl, rfl, rfl⟩, rfl⟩

end Scout.Partitions
