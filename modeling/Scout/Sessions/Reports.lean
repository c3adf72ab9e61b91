import Scout.Sessions.Tracker

/-!
What the tracker makes of the status reports of replicas, whatever the order in which
they arrive: the leader and the committed index of a partition, and the status that
comes back to the state machine.
-/

namespace Scout.Sessions

open Lib Control

/-- Reports that arrive in one message, with the time at which it is handled. -/
abbrev Message := Time × List (Nat × DataServerStatus)

def recordMessage (t : StatusTracker) (m : Message) : Option StatusTracker :=
  (recordReplicaStatus t m.1 m.2).map Prod.fst

def recordMessages (t : StatusTracker) (ms : List Message) : Option StatusTracker :=
  ms.foldlM recordMessage t

def reports (ms : List Message) : List (Nat × DataServerStatus) := ms.flatMap Prod.snd

def reportsFor (pid : Nat) (us : List (Nat × DataServerStatus)) : List DataServerStatus :=
  us.filterMap fun u => if u.1 = pid then some u.2 else none

/-! ## One partition -/

def PartitionStatus.knows (p : PartitionStatus) (r : DataServerStatus) : Bool :=
  (p.replicas.lookup r.name).isSome

/-- No report claims the leadership in a later term. -/
def NoNewLeader (term : Nat) (rs : List DataServerStatus) : Prop :=
  ∀ r ∈ rs, r.isLeader = true → r.leaderTerm ≤ term
  deriving Decidable

/-- The leader is the one with the highest term, if that is a later one. -/
structure Leads (p₀ : PartitionStatus) (rs : List DataServerStatus) (p : PartitionStatus) :
    Prop where
  kept : NoNewLeader p₀.leaderTerm rs → p.leader = p₀.leader ∧ p.leaderTerm = p₀.leaderTerm
  changed : ¬NoNewLeader p₀.leaderTerm rs → ∃ r ∈ rs, r.isLeader = true ∧
    NoNewLeader r.leaderTerm rs ∧ p.leader = r.name ∧ p.leaderTerm = r.leaderTerm
  commited : p.commitedIndex = (rs.map DataServerStatus.commitedIndex).foldl max p₀.commitedIndex

/-- The status of a partition after reports about replicas that it knows. -/
structure Recorded (p₀ : PartitionStatus) (rs : List DataServerStatus) (p : PartitionStatus) :
    Prop where
  keys : ∀ name, (p.replicas.lookup name).isSome = (p₀.replicas.lookup name).isSome
  leads : Leads p₀ rs p
  appliedByLeader : NoNewLeader p₀.leaderTerm rs → p.leaderAppliedIndex = p₀.leaderAppliedIndex
  unreported : ∀ name, (∀ r ∈ rs, r.name ≠ name) → p.replicas.lookup name = p₀.replicas.lookup name
  applied : ∀ name, (∀ r ∈ rs, r.name = name → r.appliedIndex = 0) →
    (p.replicas.lookup name).map ReplicaStatus.appliedIndex =
      (p₀.replicas.lookup name).map ReplicaStatus.appliedIndex
  dirty : p.dirty = (p₀.dirty || !rs.isEmpty)

theorem Leads.start (p : PartitionStatus) : Leads p [] p := by
  refine ⟨fun _ => ⟨rfl, rfl⟩, fun h => ?_, rfl⟩
  exact absurd (fun _ hr => absurd hr List.not_mem_nil) h

theorem Recorded.start (p : PartitionStatus) : Recorded p [] p := by
  refine ⟨fun _ => rfl, .start p, fun _ => rfl, fun _ _ => rfl, fun _ _ => rfl, ?_⟩
  simp

theorem noNewLeader_snoc {term : Nat} {rs : List DataServerStatus} {r : DataServerStatus} :
    NoNewLeader term (rs ++ [r]) ↔
      NoNewLeader term rs ∧ (r.isLeader = true → r.leaderTerm ≤ term) := by
  unfold NoNewLeader
  rw [List.forall_mem_append, List.forall_mem_singleton]

theorem Leads.term_le {p₀ p : PartitionStatus} {rs : List DataServerStatus} (h : Leads p₀ rs p) :
    p₀.leaderTerm ≤ p.leaderTerm ∧ NoNewLeader p.leaderTerm rs := by
  by_cases hn : NoNewLeader p₀.leaderTerm rs
  · rw [(h.kept hn).2]
    exact ⟨Nat.le_refl _, hn⟩
  · obtain ⟨r, hr, hl, hmax, _, ht⟩ := h.changed hn
    rw [ht]
    refine ⟨?_, hmax⟩
    by_contra hlt
    refine hn fun r' hr' hl' => ?_
    have hle := hmax r' hr' hl'
    omega

/-! ### One report -/

section Record

variable {p₀ p : PartitionStatus} {rs : List DataServerStatus} {r : DataServerStatus}
  {old : ReplicaStatus} (now : Time)

theorem record_eq (hk : p.replicas.lookup r.name = some old) :
    (p.record now r).1.replicas = p.replicas.insert r.name (old.record now r) ∧
    (p.record now r).1.commitedIndex = max p.commitedIndex r.commitedIndex ∧
    (p.record now r).1.dirty = true ∧
    (r.isLeader = true ∧ p.leaderTerm < r.leaderTerm ∧ (p.record now r).1.leader = r.name ∧
        (p.record now r).1.leaderTerm = r.leaderTerm ∨
      ¬(r.isLeader = true ∧ p.leaderTerm < r.leaderTerm) ∧
        (p.record now r).1.leader = p.leader ∧ (p.record now r).1.leaderTerm = p.leaderTerm ∧
        (p.record now r).1.leaderAppliedIndex = p.leaderAppliedIndex) := by
  unfold PartitionStatus.record
  rw [hk]
  dsimp only
  split
  · next hc =>
    rw [Bool.and_eq_true, decide_eq_true_eq] at hc
    exact ⟨rfl, rfl, rfl, .inl ⟨hc.1, hc.2, rfl, rfl⟩⟩
  · next hc =>
    rw [Bool.and_eq_true, decide_eq_true_eq] at hc
    exact ⟨rfl, rfl, rfl, .inr ⟨hc, rfl, rfl, rfl⟩⟩

theorem record_unknown (hk : p.knows r = false) : (p.record now r).1 = p := by
  unfold PartitionStatus.knows at hk
  rw [Option.isSome_eq_false_iff, Option.isNone_iff_eq_none] at hk
  unfold PartitionStatus.record
  rw [hk]

theorem Leads.record (h : Leads p₀ rs p) (hk : p.replicas.lookup r.name = some old) :
    Leads p₀ (rs ++ [r]) (p.record now r).1 := by
  obtain ⟨_, hcommited, _, hleader⟩ := record_eq now hk
  obtain ⟨hle, hmax⟩ := h.term_le
  constructor
  · intro hn
    obtain ⟨hn, hr⟩ := noNewLeader_snoc.mp hn
    obtain ⟨hkl, hkt⟩ := h.kept hn
    rcases hleader with ⟨hl, hlt, _⟩ | ⟨_, hl, ht, _⟩
    · have hle := hr hl
      omega
    · exact ⟨hl.trans hkl, ht.trans hkt⟩
  · intro hn
    rcases hleader with ⟨hl, hlt, hname, hterm⟩ | ⟨hno, hl, ht, _⟩
    · -- the report is above all claims so far
      refine ⟨r, by simp, hl, noNewLeader_snoc.mpr ⟨fun r' hr' hl' => ?_, fun _ => Nat.le_refl _⟩,
        hname, hterm⟩
      have hle := hmax r' hr' hl'
      omega
    · have hr : r.isLeader = true → r.leaderTerm ≤ p.leaderTerm := by
        intro hr
        by_contra hlt
        exact hno ⟨hr, by omega⟩
      have hn₀ : ¬NoNewLeader p₀.leaderTerm rs := by
        intro hn₀
        refine hn (noNewLeader_snoc.mpr ⟨hn₀, fun hrl => ?_⟩)
        rw [← (h.kept hn₀).2]
        exact hr hrl
      obtain ⟨r', hr', hl', hmax', hname, hterm⟩ := h.changed hn₀
      refine ⟨r', by simp [hr'], hl', noNewLeader_snoc.mpr ⟨hmax', ?_⟩, hl.trans hname,
        ht.trans hterm⟩
      rw [← hterm]
      exact hr
  · rw [hcommited, h.commited, List.map_append, List.foldl_append]
    rfl

theorem Recorded.record (h : Recorded p₀ rs p) (hk : p₀.knows r = true) :
    Recorded p₀ (rs ++ [r]) (p.record now r).1 := by
  unfold PartitionStatus.knows at hk
  rw [← h.keys] at hk
  obtain ⟨old, hold⟩ := Option.isSome_iff_exists.mp hk
  obtain ⟨hreplicas, _, hdirty, hleader⟩ := record_eq now hold
  refine ⟨fun name => ?_, h.leads.record now hold, fun hn => ?_, fun name hno => ?_,
    fun name hno => ?_, ?_⟩
  · rw [hreplicas, ← h.keys]
    exact isSome_lookup_insert hk _ name
  · obtain ⟨hn, hr⟩ := noNewLeader_snoc.mp hn
    rcases hleader with ⟨hl, hlt, _⟩ | ⟨_, _, _, happ⟩
    · have hle := hr hl
      have hterm := (h.leads.kept hn).2
      omega
    · exact happ.trans (h.appliedByLeader hn)
  · have hne : name ≠ r.name := fun he => hno r (by simp) he.symm
    rw [hreplicas, AList.lookup_insert_ne hne]
    exact h.unreported name fun r' hr' => hno r' (by simp [hr'])
  · have hrest := h.applied name fun r' hr' => hno r' (by simp [hr'])
    rw [hreplicas]
    by_cases hname : name = r.name
    · have hzero := hno r (by simp) hname.symm
      subst hname
      rw [AList.lookup_insert, ← hrest, hold]
      simp [ReplicaStatus.record, hzero]
    · rw [AList.lookup_insert_ne hname]
      exact hrest
  · rw [hdirty]
    simp

end Record

/-! ## All partitions -/

def recordOne (t : StatusTracker) (x : Time × Nat × DataServerStatus) : Option StatusTracker :=
  (t.partitions.lookup x.2.1).map fun p =>
    { t with partitions := t.partitions.insert x.2.1 (p.record x.1 x.2.2).1 }

def timed (ms : List Message) : List (Time × Nat × DataServerStatus) :=
  ms.flatMap fun m => m.2.map fun u => (m.1, u)

theorem timed_map (ms : List Message) : (timed ms).map Prod.snd = reports ms := by
  unfold timed reports
  rw [List.map_flatMap]
  simp [Function.comp_def]

theorem recordReplicaStatus_eq (now : Time) (us : List (Nat × DataServerStatus))
    (t : StatusTracker) (changed : Bool) :
    (us.foldlM (recordPartition now) (t, changed)).map Prod.fst =
      (us.map fun u => (now, u)).foldlM recordOne t := by
  induction us generalizing t changed with
  | nil => rfl
  | cons u us ih =>
    rw [List.map_cons, List.foldlM_cons, List.foldlM_cons]
    unfold recordPartition recordOne
    cases hp : t.partitions.lookup u.1 with
    | none => rfl
    | some p => exact ih _ _

theorem recordMessages_eq (ms : List Message) (t : StatusTracker) :
    recordMessages t ms = (timed ms).foldlM recordOne t := by
  induction ms generalizing t with
  | nil => rfl
  | cons m ms ih =>
    have hcons : timed (m :: ms) = (m.2.map fun u => (m.1, u)) ++ timed ms := List.flatMap_cons
    rw [hcons, List.foldlM_append, ← recordReplicaStatus_eq m.1 m.2 t false]
    unfold recordMessages
    rw [List.foldlM_cons]
    exact Option.bind_congr fun t' _ => ih t'

structure TrackerRecorded (t : StatusTracker) (us : List (Nat × DataServerStatus))
    (t' : StatusTracker) : Prop where
  servers : t'.servers = t.servers
  keys : ∀ pid, (t'.partitions.lookup pid).isSome = (t.partitions.lookup pid).isSome
  partitions : ∀ pid p₀ p, t.partitions.lookup pid = some p₀ → t'.partitions.lookup pid = some p →
    Recorded p₀ ((reportsFor pid us).filter p₀.knows) p

theorem TrackerRecorded.start (t : StatusTracker) : TrackerRecorded t [] t := by
  refine ⟨rfl, fun _ => rfl, fun pid p₀ p h h' => ?_⟩
  rw [h] at h'
  cases h'
  exact .start p₀

theorem reportsFor_append (q : Nat) (us : List (Nat × DataServerStatus))
    (u : Nat × DataServerStatus) :
    reportsFor q (us ++ [u]) = reportsFor q us ++ if u.1 = q then [u.2] else [] := by
  unfold reportsFor
  rw [List.filterMap_append]
  by_cases hq : u.1 = q <;> simp [hq]

theorem TrackerRecorded.record {t t' t'' : StatusTracker} {us : List (Nat × DataServerStatus)}
    {x : Time × Nat × DataServerStatus} (h : TrackerRecorded t us t')
    (hx : recordOne t' x = some t'') : TrackerRecorded t (us ++ [x.2]) t'' := by
  obtain ⟨now, pid, r⟩ := x
  obtain ⟨p, hp, rfl⟩ := Option.map_eq_some_iff.mp hx
  refine ⟨h.servers, fun q => ?_, fun q p₀ p' h₀ h' => ?_⟩
  · rw [← h.keys]
    exact isSome_lookup_insert (Option.isSome_of_eq_some hp) _ q
  · rw [reportsFor_append]
    rcases lookup_insert_eq_some.mp h' with ⟨rfl, rfl⟩ | ⟨hq, h'⟩
    · have hrec := h.partitions q p₀ p h₀ hp
      rw [if_pos rfl, List.filter_append]
      cases hk : p₀.knows r with
      | false =>
        have hpk : p.knows r = false := by
          unfold PartitionStatus.knows at hk ⊢
          rw [hrec.keys, hk]
        rw [record_unknown now hpk]
        simpa [hk] using hrec
      | true => simpa [hk] using hrec.record now hk
    · rw [if_neg (Ne.symm hq), List.append_nil]
      exact h.partitions q p₀ p' h₀ h'

theorem recordMessages_recorded {t t' : StatusTracker} {ms : List Message}
    (h : recordMessages t ms = some t') : TrackerRecorded t (reports ms) t' := by
  have loop : ∀ (xs : List (Time × Nat × DataServerStatus)) (us : List (Nat × DataServerStatus))
      (t₁ : StatusTracker), TrackerRecorded t us t₁ → xs.foldlM recordOne t₁ = some t' →
      TrackerRecorded t (us ++ xs.map Prod.snd) t' := by
    intro xs
    induction xs with
    | nil =>
      intro us t₁ hrec hrun
      cases hrun
      simpa using hrec
    | cons x xs ih =>
      intro us t₁ hrec hrun
      rw [List.foldlM_cons] at hrun
      obtain ⟨t₂, h₂, hrun⟩ := Option.bind_eq_some_iff.mp hrun
      have hall := ih (us ++ [x.2]) t₂ (hrec.record h₂) hrun
      simpa using hall
  rw [recordMessages_eq] at h
  have hall := loop (timed ms) [] t (.start t) h
  rwa [timed_map] at hall

theorem recordMessages_ok {t : StatusTracker} {ms : List Message}
    (h : ∀ u ∈ reports ms, (t.partitions.lookup u.1).isSome = true) :
    ∃ t', recordMessages t ms = some t' := by
  have hloop := foldlM_builds (m := Option) (f := recordOne)
    (fun _ t' => ∀ pid, (t'.partitions.lookup pid).isSome = (t.partitions.lookup pid).isSome)
    (timed ms) (s := t) (fun _ => rfl) ?_
  · obtain ⟨t', ht', _⟩ := hloop
    exact ⟨t', by rw [recordMessages_eq]; exact ht'⟩
  · intro pre x post t' hxs hkeys
    have hmem : x.2 ∈ reports ms := by
      rw [← timed_map, hxs]
      simp
    have hsome := h x.2 hmem
    rw [← hkeys] at hsome
    obtain ⟨p, hp⟩ := Option.isSome_iff_exists.mp hsome
    refine ⟨_, congrArg (Option.map _) hp, fun pid => ?_⟩
    rw [← hkeys]
    exact isSome_lookup_insert hsome _ pid

/-! ## The order of the reports -/

/-- What Raft guarantees: one leader for each term of a partition. -/
def OneLeader (us : List (Nat × DataServerStatus)) : Prop :=
  ∀ u ∈ us, ∀ v ∈ us, u.1 = v.1 → u.2.isLeader = true → v.2.isLeader = true →
    u.2.leaderTerm = v.2.leaderTerm → u.2.name = v.2.name

def KnownReplicas (t : StatusTracker) (us : List (Nat × DataServerStatus)) : Prop :=
  ∀ u ∈ us, ∃ p, t.partitions.lookup u.1 = some p ∧ p.knows u.2 = true

def SameLeadership (p p' : PartitionStatus) : Prop :=
  p.leader = p'.leader ∧ p.leaderTerm = p'.leaderTerm ∧ p.commitedIndex = p'.commitedIndex

theorem mem_reportsFor {pid : Nat} {us : List (Nat × DataServerStatus)} {r : DataServerStatus} :
    r ∈ reportsFor pid us ↔ (pid, r) ∈ us := by
  unfold reportsFor
  rw [List.mem_filterMap]
  constructor
  · rintro ⟨⟨q, r'⟩, hu, he⟩
    split at he
    · next hq =>
      cases he
      subst hq
      exact hu
    · cases he
  · intro hu
    exact ⟨(pid, r), hu, if_pos rfl⟩

theorem noNewLeader_perm {term : Nat} {rs rs' : List DataServerStatus} (h : rs.Perm rs') :
    NoNewLeader term rs ↔ NoNewLeader term rs' := by
  unfold NoNewLeader
  simp only [h.mem_iff]

/-- The reports determine the leader, not their order. -/
theorem Leads.unique {p₀ p p' : PartitionStatus} {rs rs' : List DataServerStatus}
    (h : Leads p₀ rs p) (h' : Leads p₀ rs' p') (hperm : rs.Perm rs')
    (hone : ∀ r ∈ rs, ∀ r' ∈ rs, r.isLeader = true → r'.isLeader = true →
      r.leaderTerm = r'.leaderTerm → r.name = r'.name) : SameLeadership p p' := by
  have hcommited : p.commitedIndex = p'.commitedIndex := by
    rw [h.commited, h'.commited]
    exact (hperm.map _).foldl_eq' (fun x _ y _ z => by omega) _
  by_cases hn : NoNewLeader p₀.leaderTerm rs
  · obtain ⟨hl, ht⟩ := h.kept hn
    obtain ⟨hl', ht'⟩ := h'.kept ((noNewLeader_perm hperm).mp hn)
    exact ⟨hl.trans hl'.symm, ht.trans ht'.symm, hcommited⟩
  · obtain ⟨r, hr, hlr, hmax, hname, hterm⟩ := h.changed hn
    obtain ⟨r', hr', hlr', hmax', hname', hterm'⟩ :=
      h'.changed fun hn' => hn ((noNewLeader_perm hperm).mpr hn')
    have hr'' := hperm.mem_iff.mpr hr'
    have hle := hmax r' hr'' hlr'
    have hle' := hmax' r (hperm.mem_iff.mp hr) hlr
    have heq : r.leaderTerm = r'.leaderTerm := by omega
    refine ⟨?_, by rw [hterm, hterm', heq], hcommited⟩
    rw [hname, hname']
    exact hone r hr r' hr'' hlr hlr' heq

/-- **The order of the reports does not matter.** With one leader for each term, the same
reports in any order and any messages leave each partition with the same leader, term and
committed index: the replica that claims the highest term above the first one, and the
highest index. -/
theorem leader_order_independent {t : StatusTracker} {ms ms' : List Message}
    (hperm : (reports ms).Perm (reports ms')) (hknown : KnownReplicas t (reports ms))
    (hone : OneLeader (reports ms)) :
    ∃ t₁ t₂, recordMessages t ms = some t₁ ∧ recordMessages t ms' = some t₂ ∧
      ∀ pid p₀, t.partitions.lookup pid = some p₀ → ∃ p₁ p₂,
        t₁.partitions.lookup pid = some p₁ ∧ t₂.partitions.lookup pid = some p₂ ∧
        SameLeadership p₁ p₂ ∧ Leads p₀ (reportsFor pid (reports ms)) p₁ := by
  have hhas : ∀ u ∈ reports ms, (t.partitions.lookup u.1).isSome = true := by
    intro u hu
    obtain ⟨p, hp, _⟩ := hknown u hu
    rw [hp]
    rfl
  obtain ⟨t₁, h₁⟩ := recordMessages_ok hhas
  obtain ⟨t₂, h₂⟩ := recordMessages_ok fun u hu => hhas u (hperm.mem_iff.mpr hu)
  have hrec₁ := recordMessages_recorded h₁
  have hrec₂ := recordMessages_recorded h₂
  refine ⟨t₁, t₂, h₁, h₂, fun pid p₀ h₀ => ?_⟩
  have hp₁ : (t₁.partitions.lookup pid).isSome = true := by rw [hrec₁.keys, h₀]; rfl
  have hp₂ : (t₂.partitions.lookup pid).isSome = true := by rw [hrec₂.keys, h₀]; rfl
  obtain ⟨p₁, hp₁⟩ := Option.isSome_iff_exists.mp hp₁
  obtain ⟨p₂, hp₂⟩ := Option.isSome_iff_exists.mp hp₂
  have hpid : (reportsFor pid (reports ms)).Perm (reportsFor pid (reports ms')) :=
    hperm.filterMap _
  have hall : ∀ r ∈ reportsFor pid (reports ms), p₀.knows r = true := by
    intro r hr
    obtain ⟨p, hp, hk⟩ := hknown (pid, r) (mem_reportsFor.mp hr)
    rw [h₀] at hp
    cases hp
    exact hk
  have hlead₁ := (hrec₁.partitions pid p₀ p₁ h₀ hp₁).leads
  have hlead₂ := (hrec₂.partitions pid p₀ p₂ h₀ hp₂).leads
  rw [List.filter_eq_self.mpr hall] at hlead₁
  rw [List.filter_eq_self.mpr fun r hr => hall r (hpid.mem_iff.mpr hr)] at hlead₂
  refine ⟨p₁, p₂, hp₁, hp₂, hlead₁.unique hlead₂ hpid ?_, hlead₁⟩
  intro r hr r' hr' hl hl' ht
  exact hone (pid, r) (mem_reportsFor.mp hr) (pid, r') (mem_reportsFor.mp hr') rfl hl hl' ht

def knowsTwo : PartitionStatus :=
  ⟨0, ((∅ : AList fun _ : String => ReplicaStatus).insert "a" ⟨none, 0, true⟩).insert "b"
    ⟨none, 0, true⟩, "a", 1, 0, 4, false⟩

def trackTwo : StatusTracker := ⟨∅, (∅ : AList fun _ : Nat => PartitionStatus).insert 0 knowsTwo⟩

def fromOldLeader : Nat × DataServerStatus := (0, ⟨"a", true, 2, 6, 5, true⟩)

def fromNewLeader : Nat × DataServerStatus := (0, ⟨"b", true, 3, 5, 5, true⟩)

/-- The report of the old leader arrives before or after that of the new one. -/
theorem leader_order_independent_late : ∃ t₁ t₂ p₁ p₂,
    recordMessages trackTwo [(10, [fromOldLeader]), (11, [fromNewLeader])] = some t₁ ∧
    recordMessages trackTwo [(10, [fromNewLeader, fromOldLeader])] = some t₂ ∧
    t₁.partitions.lookup 0 = some p₁ ∧ t₂.partitions.lookup 0 = some p₂ ∧ SameLeadership p₁ p₂ := by
  have hperm : (reports [(10, [fromOldLeader]), (11, [fromNewLeader])]).Perm
      (reports [(10, [fromNewLeader, fromOldLeader])]) := by decide
  have hknown : KnownReplicas trackTwo
      (reports [(10, [fromOldLeader]), (11, [fromNewLeader])]) := by
    intro u hu
    have hpid : u.1 = 0 ∧ knowsTwo.knows u.2 = true := by
      revert u
      decide
    rw [hpid.1]
    exact ⟨knowsTwo, rfl, hpid.2⟩
  have hone : OneLeader (reports [(10, [fromOldLeader]), (11, [fromNewLeader])]) := by
    unfold OneLeader
    decide
  obtain ⟨t₁, t₂, h₁, h₂, hall⟩ := leader_order_independent hperm hknown hone
  obtain ⟨p₁, p₂, hp₁, hp₂, hsame, _⟩ := hall 0 knowsTwo rfl
  exact ⟨t₁, t₂, p₁, p₂, h₁, h₂, hp₁, hp₂, hsame⟩

end Scout.Sessions
