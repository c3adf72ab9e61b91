import Scout.Sessions.Ready

/-!
When the assigner removes a leaving replica. The Ready flag of a replica means that
it serves, that it may serve, or that its server has dropped its data, depending on
the instance that set it. A leaving replica is removed when the flag is set; the
state machine keeps the flag when the replica starts to leave, so a report of the
time when it served is enough. Once the flag is cleared, only the server's own cleanup
sets it again, as long as nothing from before is read or delivered.
-/

namespace Scout.Sessions

open Lib Control

/-! ## Rounds of the assigner -/

/-- What holds of every published state, and of the commands under way. -/
structure Planning (s : System) : Prop where
  current : s.views.head? = some s.fsm
  sound : ∀ f ∈ s.views, Sound f
  known : ∀ f ∈ s.views, Partitions.AllKnown f
  spread : ∀ f ∈ s.views, SpreadAll f
  adds : ∀ cmd, .updateAssignments cmd ∈ s.submitted → (cmd.add.map Add.pair).Nodup

theorem Planning.mem {s : System} (h : Planning s) : s.fsm ∈ s.views :=
  List.mem_of_mem_head? h.current

section Round

variable {s : System} {servers partitions : Nat} {config : Partitions.Config}
  {ch : Partitions.Choices} {cmd : UpdateAssignments}

/-- A round adds no replica twice, and removes replicas that are ready in the state it
has read. -/
theorem Planning.round (h : Planning s)
    (hr : s.updateAssignments servers partitions config ch = some cmd) :
    (cmd.add.map Add.pair).Nodup ∧ ∀ x ∈ cmd.remove, ∃ p,
      s.partitionsAt partitions = some p ∧ ReadyAt p.items x.partitionId x.replica := by
  obtain ⟨svs, hsvs, hr⟩ := Option.bind_eq_some_iff.mp hr
  obtain ⟨p, hp, hr⟩ := Option.bind_eq_some_iff.mp hr
  obtain ⟨curr, hcurr, hr⟩ := Option.bind_eq_some_iff.mp hr
  obtain ⟨next, hnext, hr⟩ := Option.bind_eq_some_iff.mp hr
  obtain ⟨f, hf, hfp⟩ := partitionsAt_eq_some hp
  -- the servers and the partitions may come from different states
  have hon := Partitions.makeState_on hcurr
  obtain ⟨curr', ρ₀, hmake, v⟩ := Partitions.makeState_view
    (f := { f with servers := some svs }) rfl (h.spread f hf p hfp)
    (fun q part hq name r hget => (Partitions.mem_dataServers rfl).mp (hon q part hq name r hget))
    (h.known f hf p hfp)
  obtain rfl : curr = curr' := Option.some.inj (hcurr.symm.trans hmake)
  have hcomplete := v.complete ((h.sound f hf).items p hfp)
  obtain ⟨next', ρ, hplan, hplanned⟩ : ∃ next' ρ, Partitions.nextState config ch curr = some next' ∧
      Partitions.Planned curr ρ₀ next' ρ := Partitions.nextState_planned hcomplete v.refines
  obtain rfl : next = next' := Option.some.inj (hnext.symm.trans hplan)
  obtain ⟨cmd', pids, hmake, hissued, _⟩ := Partitions.makeUpdateAssignments_issued ch
    p.assignmentsVersion hcomplete v.refines hplanned
  obtain rfl : cmd = cmd' := Option.some.inj (hr.symm.trans hmake)
  refine ⟨hissued.nodup, fun x hx => ?_⟩
  obtain ⟨_, sid, hname, hleaving, hgone⟩ := (hissued.remove x).mp hx
  obtain ⟨part, r, hg, hget, rfl, _⟩ := v.replica (by rw [hleaving]; nofun)
  have hallowed := hplanned.allowed r.serverId x.partitionId
  rw [hleaving] at hallowed
  obtain ⟨y, hy, hready⟩ := hallowed.leaves hgone
  rw [v.entry hg hget] at hy
  cases hy
  exact ⟨p, hp, r, replicaAt_eq_some.mpr ⟨part, hg, hname ▸ hget⟩, hready⟩

end Round

theorem planning_initial : Planning initial := by
  refine ⟨rfl, fun f hf => ?_, fun f hf => ?_, fun f hf => ?_, nofun⟩
  all_goals cases List.mem_singleton.mp hf
  · exact sound_new
  · nofun
  · nofun

variable {s : System}

theorem Planning.advance (h : Planning s) {a : Step} {f : Fsm} {rest : List Payload}
    (hrest : rest ⊆ s.submitted) (ha : ∀ payload, a.payload = some payload → payload ∈ s.submitted)
    (hf : Control.step s.fsm a = some f) :
    Planning { s with submitted := rest, fsm := f, views := f :: s.views } := by
  have hs := h.sound _ h.mem
  have hplaces : ∀ cmd, a.payload = some (.updateAssignments cmd) →
      PayloadPlaces s.fsm (some (.updateAssignments cmd)) :=
    fun cmd hcmd p _ _ => h.adds cmd (ha _ hcmd)
  refine ⟨rfl, fun g hg => ?_, fun g hg => ?_, fun g hg => ?_,
    fun cmd hcmd => h.adds cmd (hrest hcmd)⟩
  all_goals rcases List.mem_cons.mp hg with rfl | hg
  · exact hs.step hf
  · exact h.sound g hg
  · exact (h.known _ h.mem).step hs hf
  · exact h.known g hg
  · exact (h.spread _ h.mem).step hs hplaces hf
  · exact h.spread g hg

variable {s' : System} {e : Event}

theorem Planning.step (h : Planning s) (hstep : Proceeds s e s') : Planning s' := by
  cases hstep with
  | idle => exact h
  | submit payload _ ha =>
    refine ⟨h.current, h.sound, h.known, h.spread, fun cmd hcmd => ?_⟩
    rcases List.mem_append.mp hcmd with hcmd | hcmd
    · exact h.adds cmd hcmd
    · exact absurd (List.mem_singleton.mp hcmd).symm (ha cmd)
  | advance a f rest hrest ha hf => exact h.advance hrest ha hf
  | track | deliver | cleanup | report => exact ⟨h.current, h.sound, h.known, h.spread, h.adds⟩
  | write o t =>
    refine ⟨h.current, h.sound, h.known, h.spread, fun cmd hcmd => ?_⟩
    rcases List.mem_append.mp hcmd with hcmd | hcmd
    · exact h.adds cmd hcmd
    · rw [Option.mem_toList, Option.map_eq_some_iff] at hcmd
      obtain ⟨_, _, he⟩ := hcmd
      cases he
  | assign servers partitions config ch cmd hcmd =>
    refine ⟨h.current, h.sound, h.known, h.spread, fun cmd' hcmd' => ?_⟩
    rcases List.mem_append.mp hcmd' with hcmd' | hcmd'
    · exact h.adds cmd' hcmd'
    · cases List.mem_singleton.mp hcmd'
      exact (h.round hcmd).1
  | host pid name o =>
    cases o <;> exact ⟨h.current, h.sound, h.known, h.spread, h.adds⟩

/-! ## Where a report comes from -/

/-- An instance that leaves was told so, and one that is ready has cleaned up. -/
def Vouched (s : System) (pid : Nat) (name : String) (x : Instance) : Prop :=
  (x.isLeaving = true → s.LeavingAt pid name) ∧ (x = .leaving true → (pid, name) ∈ s.cleaned)

variable {name : String} {x : Instance}

theorem Vouched.mono {pid : Nat} (h : Vouched s pid name x) (hviews : s.views ⊆ s'.views)
    (hcleaned : s.cleaned ⊆ s'.cleaned) : Vouched s' pid name x :=
  ⟨fun hl => (h.1 hl).mono hviews, fun hx => hcleaned (h.2 hx)⟩

/-- A report says what its instance is, and all that is recorded was reported. -/
structure Sources (s : System) : Prop where
  instances : ∀ pid name x, s.instances.lookup (pid, name) = some x → Vouched s pid name x
  sent : ∀ x ∈ s.sent, Vouched s x.pid x.status.name x.source
  ready : ∀ x ∈ s.sent, x.source.isLeaving = true → x.status.ready = true →
    x.source = .leaving true
  recorded : s.recorded ⊆ s.sent

theorem sources_initial : Sources initial := ⟨nofun, nofun, nofun, nofun⟩

theorem getStatus_name (x : Instance) (name : String) (isLeader : Bool)
    (leaderTerm commitedIndex appliedIndex : Nat) :
    (x.getStatus name isLeader leaderTerm commitedIndex appliedIndex).name = name := by
  cases x <;> rfl

theorem getStatus_leaving {isLeader : Bool} {leaderTerm commitedIndex appliedIndex : Nat}
    (hl : x.isLeaving = true)
    (hr : (x.getStatus name isLeader leaderTerm commitedIndex appliedIndex).ready = true) :
    x = .leaving true := by
  cases x with
  | joining b => cases hl
  | serving => cases hl
  | leaving b =>
    cases hr
    rfl

theorem setInstance_lookup {pid pid' : Nat} {name' : String} {o : Option Instance}
    (h : (s.setInstance pid name o).instances.lookup (pid', name') = some x) :
    (pid', name') = (pid, name) ∧ o = some x ∨ s.instances.lookup (pid', name') = some x := by
  cases o with
  | none =>
    have h : (s.instances.erase (pid, name)).lookup (pid', name') = some x := h
    exact .inr (lookup_erase_eq_some.mp h).2
  | some y =>
    have h : (s.instances.insert (pid, name) y).lookup (pid', name') = some x := h
    rcases lookup_insert_eq_some.mp h with ⟨hk, rfl⟩ | ⟨_, hold⟩
    · exact .inl ⟨hk, rfl⟩
    · exact .inr hold

theorem Sources.step (h : Sources s) (hstep : Proceeds s e s') : Sources s' := by
  obtain ⟨hviews, hcleaned, hrecorded, hsent⟩ := hstep.grows
  -- what was vouched for stays so
  have hold : ∀ {pid name x}, Vouched s pid name x → Vouched s' pid name x :=
    fun hv => hv.mono hviews hcleaned
  cases hstep with
  | idle => exact h
  | submit | advance | track | write | assign =>
    exact ⟨fun pid name x hx => hold (h.instances pid name x hx),
      fun x hx => hold (h.sent x hx), h.ready, h.recorded⟩
  | deliver k now x t _ hx =>
    refine ⟨h.instances, h.sent, h.ready, fun y hy => ?_⟩
    rcases List.mem_cons.mp hy with rfl | hy
    · exact List.mem_of_getElem? hx
    · exact h.recorded hy
  | host pid name o ho =>
    refine ⟨fun pid' name' x hx => ?_, fun x hx => hold (h.sent x ?_), fun x hx => h.ready x ?_, ?_⟩
    · rcases setInstance_lookup hx with ⟨hk, hnew⟩ | hsame
      · cases hk
        rcases ho x hnew with hsame | ⟨hne, hl⟩
        · exact hold (h.instances pid name x hsame)
        · exact hold ⟨hl, fun he => absurd he hne⟩
      · exact hold (h.instances pid' name' x hsame)
    all_goals cases o
    · exact hx
    · exact hx
    · exact hx
    · exact hx
    · exact h.recorded
    · exact h.recorded
  | cleanup pid name x hx hl =>
    refine ⟨fun pid' name' y hy => ?_, fun y hy => hold (h.sent y hy), h.ready, h.recorded⟩
    rcases setInstance_lookup hy with ⟨hk, hnew⟩ | hsame
    · cases hk
      cases hnew
      exact ⟨fun _ => ((h.instances pid name x hx).1 hl).mono hviews, fun _ => by simp⟩
    · exact hold (h.instances pid' name' y hsame)
  | report pid name isLeader leaderTerm commitedIndex appliedIndex x hx =>
    refine ⟨h.instances, fun y hy => ?_, fun y hy => ?_, fun y hy => ?_⟩
    · rcases List.mem_append.mp hy with hy | hy
      · exact h.sent y hy
      · cases List.mem_singleton.mp hy
        rw [getStatus_name]
        exact h.instances pid name x hx
    · rcases List.mem_append.mp hy with hy | hy
      · exact h.ready y hy
      · cases List.mem_singleton.mp hy
        exact getStatus_leaving
    · exact List.mem_append_left _ (h.recorded hy)

/-! ## From the cleared flag on -/

/-- A tracker has recorded that an instance that leaves is ready. -/
def System.Vacated (s : System) (pid : Nat) (name : String) : Prop :=
  ∃ y ∈ s.recorded, y.pid = pid ∧ y.status.name = name ∧ y.status.ready = true ∧
    y.source.isLeaving = true

/-- The server knows that the replica leaves, and its flag is cleared: in the state, in the
tracker and in the commands under way. -/
structure Clear (s : System) (pid : Nat) (name : String) : Prop where
  ready : ∀ p, s.fsm.partitions = some p → ¬ ReadyAt p.items pid name
  hosted : ∀ y, s.instances.lookup (pid, name) = some y → y.isLeaving = true
  tracked : ¬ s.Tracked pid name
  submitted : ∀ cmd, .updateStatus cmd ∈ s.submitted → ¬ Reports cmd pid name

/-- What happens from `s₀` on does not go back behind it: a report under way at `s₀` does not
say that an instance of the replica that joins or serves is ready, the states from which
the tracker learns that the replica is ready were published since, and its server gets
no config in which it does not leave. -/
def Since (s₀ : System) (pid : Nat) (name : String) (s : System) : Event → Prop
  | .deliver k _ => k < s₀.sent.length → ∀ y ∈ s.sent[k]?, y.pid = pid → y.status.name = name →
    y.status.ready = true → y.source.isLeaving = true
  | .lead view | .syncPartitions view =>
    ∀ p ∈ s.partitionsAt view, ∀ r ∈ replicaAt p.items pid name, r.ready = true →
      s₀.views.length + view ≤ s.views.length
  | .configure view pid' name' _ => pid' = pid → name' = name →
    ∀ p ∈ s.partitionsAt view, ∀ r ∈ replicaAt p.items pid name, r.state = .leaving
  | _ => True

instance (s₀ s : System) (pid : Nat) (name : String) (e : Event) :
    Decidable (Since s₀ pid name s e) := by
  cases e <;> unfold Since <;> infer_instance

structure Departs (s₀ : System) (pid : Nat) (name : String) (s : System) : Prop where
  current : AllItems (ReadyOnly fun q n => q = pid → n = name → s.Vacated pid name) s.fsm
  views : ∀ view p, s.partitionsAt view = some p → s₀.views.length + view ≤ s.views.length →
    ReadyAt p.items pid name → s.Vacated pid name
  hosted : ∀ y, s.instances.lookup (pid, name) = some y → y.isLeaving = true
  reports : ∀ k y, s₀.sent.length ≤ k → s.sent[k]? = some y → y.pid = pid →
    y.status.name = name → y.source.isLeaving = true
  tracked : s.Tracked pid name → s.Vacated pid name
  submitted : ∀ cmd, .updateStatus cmd ∈ s.submitted → Reports cmd pid name → s.Vacated pid name

section Departs

variable {s₀ : System} {pid : Nat} {V : Prop}

theorem readyOnly_at {f : Fsm} {p : Control.Partitions}
    (h : AllItems (ReadyOnly fun q n => q = pid → n = name → V) f) (hp : f.partitions = some p)
    (hr : ReadyAt p.items pid name) : V := by
  obtain ⟨r, hr, hready⟩ := hr
  obtain ⟨part, hg, hr⟩ := replicaAt_eq_some.mp hr
  exact h p hp pid part hg name r hr hready rfl rfl

theorem Clear.departs (hp : Planning s) (h : Clear s pid name) : Departs s pid name s := by
  refine ⟨?_, fun view p hat hview hr => ?_, h.hosted, fun k y hk hy => ?_,
    fun ht => absurd ht h.tracked, fun cmd hc hr => absurd hr (h.submitted cmd hc)⟩
  · rintro p hfp q part hg n r hr hready rfl rfl
    exact absurd ⟨r, replicaAt_eq_some.mpr ⟨part, hg, hr⟩, hready⟩ (h.ready p hfp)
  · -- the only state published since is the current one
    obtain ⟨f, hf, hfp⟩ := Option.bind_eq_some_iff.mp hat
    have hzero : view = 0 := by omega
    rw [hzero, ← List.head?_eq_getElem?, hp.current] at hf
    cases hf
    exact absurd hr (h.ready p hfp)
  · rw [List.getElem?_eq_none hk] at hy
    cases hy

/-- **Step.** -/
theorem Departs.step (hp : Planning s) (h : Departs s₀ pid name s)
    (hsince : Since s₀ pid name s e) (hstep : Proceeds s e s') : Departs s₀ pid name s' := by
  cases hstep with
  | idle => exact h
  | submit payload hpay =>
    refine { h with submitted := fun cmd hcmd => ?_ }
    rcases List.mem_append.mp hcmd with hcmd | hcmd
    · exact h.submitted cmd hcmd
    · exact absurd (List.mem_singleton.mp hcmd).symm (hpay cmd)
  | advance a f rest hrest ha hf =>
    have hnext : AllItems (ReadyOnly fun q n => q = pid → n = name → s.Vacated pid name) f := by
      refine h.current.step (readyOnly_survives _ _) (hp.sound _ hp.mem) ?_ hf
      rintro cmd hcmd q n hr rfl rfl
      exact h.submitted cmd (ha _ hcmd) hr
    refine { h with
      current := hnext
      views := fun view p hat hview hr => ?_
      submitted := fun cmd hcmd => h.submitted cmd (hrest hcmd) }
    cases view with
    | zero => exact readyOnly_at hnext hat hr
    | succ view => exact h.views view p hat (by simpa [← Nat.add_assoc] using hview) hr
  | track t ht =>
    refine { h with tracked := fun hr => ?_ }
    obtain ⟨t', ⟨⟩, hr⟩ := hr
    rcases ht pid name hr with hr | ⟨view, p, rfl | rfl, hat, r, hr, hready⟩
    · exact h.tracked hr
    · exact h.views view p hat (hsince p hat r hr hready) ⟨r, hr, hready⟩
    · exact h.views view p hat (hsince p hat r hr hready) ⟨r, hr, hready⟩
  | deliver k now x t he hx ht =>
    subst he
    have hmono : s.Vacated pid name →
        System.Vacated { s with recorded := x :: s.recorded, tracker := some t } pid name :=
      fun ⟨y, hy, hrest⟩ => ⟨y, List.mem_cons_of_mem x hy, hrest⟩
    refine { h with
      current := fun p hp q part hq n r hr hready hqp hn =>
        hmono (h.current p hp q part hq n r hr hready hqp hn)
      views := fun view p hat hview hr => hmono (h.views view p hat hview hr)
      tracked := fun hr => ?_
      submitted := fun cmd hc hr => hmono (h.submitted cmd hc hr) }
    obtain ⟨t', ⟨⟩, hr⟩ := hr
    rcases ht pid name hr with hr | ⟨hpid, hname, hready⟩
    · exact hmono (h.tracked hr)
    -- the report is of before, or the instance was leaving already
    · refine ⟨x, List.mem_cons_self, hpid, hname, hready, ?_⟩
      rcases Nat.lt_or_ge k s₀.sent.length with hk | hk
      · exact hsince hk x hx hpid hname hready
      · exact h.reports k x hk hx hpid hname
  | write o t ht ho =>
    refine { h with tracked := fun hr => ?_, submitted := fun cmd hcmd hr => ?_ }
    · obtain ⟨t', ⟨⟩, hr⟩ := hr
      exact h.tracked (ht pid name hr)
    · rcases List.mem_append.mp hcmd with hcmd | hcmd
      · exact h.submitted cmd hcmd hr
      · rw [Option.mem_toList, Option.map_eq_some_iff] at hcmd
        obtain ⟨cmd', ho', he⟩ := hcmd
        cases he
        exact h.tracked (ho cmd ho' pid name hr)
  | assign servers partitions config ch cmd hcmd =>
    refine { h with submitted := fun cmd' hcmd' => ?_ }
    rcases List.mem_append.mp hcmd' with hcmd' | hcmd'
    · exact h.submitted cmd' hcmd'
    · cases List.mem_singleton.mp hcmd'
  | host pid' name' o ho hn =>
    have hhosted : ∀ y, (s.setInstance pid' name' o).instances.lookup (pid, name) = some y →
        y.isLeaving = true := by
      intro y hy
      rcases setInstance_lookup hy with ⟨hk, hnew⟩ | hsame
      · cases hk
        rw [← Bool.not_eq_false]
        intro hl
        rcases hn y hnew hl with ⟨z, hz, hzl⟩ | ⟨view, started, p, r, rfl, hp, hr, hne⟩
        · rw [h.hosted z hz] at hzl
          cases hzl
        · exact hne (hsince rfl rfl p hp r hr)
      · exact h.hosted y hsame
    cases o <;> exact { h with hosted := hhosted }
  | cleanup pid' name' x hx hl =>
    refine { h with hosted := fun y hy => ?_ }
    rcases setInstance_lookup hy with ⟨_, hnew⟩ | hsame
    · cases hnew
      rfl
    · exact h.hosted y hsame
  | report pid' name' isLeader leaderTerm commitedIndex appliedIndex x hx =>
    refine { h with reports := fun k y hk hy hpid hname => ?_ }
    rcases Nat.lt_or_ge k s.sent.length with hlt | hge
    · rw [List.getElem?_append_left hlt] at hy
      exact h.reports k y hk hy hpid hname
    · rw [List.getElem?_append_right hge, List.getElem?_singleton] at hy
      split at hy
      · cases hy
        rw [getStatus_name] at hname
        subst hpid hname
        exact h.hosted x hx
      · cases hy

end Departs

/-! ## Runs -/

theorem run_invariant {es : List Event} (hrun : runSteps step initial es = some s) :
    Planning s ∧ Sources s := by
  refine runSteps_preserves step (fun s => Planning s ∧ Sources s) ?_
    ⟨planning_initial, sources_initial⟩ hrun
  rintro s e s' ⟨hp, hs⟩ hstep
  have hmoves := step_proceeds hstep
  exact ⟨hp.step hmoves, hs.step hmoves⟩

/-- **A replica is removed after its server has cleaned up and said so**, from a point on at
which its flag is cleared, if nothing goes back behind that point. -/
theorem removed_after_cleanup {s₀ s : System} {pre post : List Event} {servers partitions : Nat}
    {config : Partitions.Config} {ch : Partitions.Choices} {cmd : UpdateAssignments} {x : Remove}
    (hpre : runSteps step initial pre = some s₀) (hclear : Clear s₀ x.partitionId x.replica)
    (hpost : runSteps step s₀ post = some s)
    (hsince : StepsMeet step (Since s₀ x.partitionId x.replica) s₀ post)
    (hround : s.updateAssignments servers partitions config ch = some cmd) (hx : x ∈ cmd.remove)
    (hread : s₀.views.length + partitions ≤ s.views.length) :
    (∃ y ∈ s.recorded, y.pid = x.partitionId ∧ y.status.name = x.replica ∧
      y.status.ready = true ∧ y.source = .leaving true) ∧
    (x.partitionId, x.replica) ∈ s.cleaned ∧ s.LeavingAt x.partitionId x.replica := by
  have hp₀ := (run_invariant hpre).1
  obtain ⟨hp, hd⟩ := runSteps_invariant step
    (fun s => Planning s ∧ Departs s₀ x.partitionId x.replica s)
    (fun s e s' h hs hstep => ⟨h.1.step (step_proceeds hstep),
      h.2.step h.1 hs (step_proceeds hstep)⟩) ⟨hp₀, hclear.departs hp₀⟩ hsince hpost
  have hs : Sources s := (run_invariant (runSteps_append step hpre hpost)).2
  obtain ⟨p, hat, hready⟩ := (hp.round hround).2 x hx
  obtain ⟨y, hy, hpid, hname, hyr, hl⟩ := hd.views _ p hat hread hready
  have hsource := hs.ready y (hs.recorded hy) hl hyr
  have hv := hs.sent y (hs.recorded hy)
  rw [hpid, hname] at hv
  exact ⟨⟨y, hy, hpid, hname, hyr, hsource⟩, hv.2 hsource, hv.1 hl⟩

/-- A partition with two replicas, and a tracker. -/
def twoReplicas : List Event :=
  [.submit (.bootstrap ⟨"scout", [⟨1, "boot_1", "10.0.0.1:5000", []⟩], 1⟩), .apply 0 1 0,
   .submit (.register ⟨.data, "a", "10.0.0.2:5000", []⟩), .apply 0 2 0,
   .submit (.register ⟨.data, "b", "10.0.0.3:5000", []⟩), .apply 0 3 0,
   .submit (.initAssignments twoVoters), .apply 0 4 0, .lead 0,
   .configure 0 0 "p0_r1" true, .configure 0 0 "p0_r2" true]

/-- Both replicas report that they serve. Then one of them is asked to leave, but its server
has not yet got the new config. -/
def stillServing : List Event :=
  twoReplicas ++ [.report 0 "p0_r1" true 1 5 5, .report 0 "p0_r2" false 0 5 5, .deliver 0 10,
    .deliver 1 11, .write true, .apply 0 5 12,
    .assign 0 0 (Partitions.withReplicas 1) Partitions.inOrder, .apply 0 6 13]

/-- The server gets the config, and its next report clears the flag. -/
def cleared : List Event :=
  stillServing ++ [.configure 0 0 "p0_r2" true, .report 0 "p0_r2" false 0 0 0, .deliver 2 14,
    .write true, .apply 0 7 15]

def cleanedUp : List Event :=
  [.cleanup 0 "p0_r2", .report 0 "p0_r2" false 0 0 0, .deliver 3 16, .write true, .apply 0 8 17]

/-- The flag of a replica that served is still set when it leaves, and the next round
removes it while it serves on. -/
theorem stillServing_removed : ∃ s cmd, runSteps step initial stillServing = some s ∧
    s.updateAssignments 0 0 (Partitions.withReplicas 1) Partitions.inOrder = some cmd ∧
    cmd.remove = [⟨0, "p0_r2"⟩] ∧ s.cleaned = [] ∧
    s.instances.lookup (0, "p0_r2") = some .serving ∧ ∀ y ∈ s.recorded, y.source = .serving :=
  ⟨_, _, rfl, rfl, rfl, rfl, rfl, by decide⟩

theorem cleanedUp_run : ∃ s₀ s cmd, runSteps step initial cleared = some s₀ ∧
    Clear s₀ 0 "p0_r2" ∧ runSteps step s₀ cleanedUp = some s ∧
    StepsMeet step (Since s₀ 0 "p0_r2") s₀ cleanedUp ∧
    s.updateAssignments 0 0 (Partitions.withReplicas 1) Partitions.inOrder = some cmd ∧
    cmd.remove = [⟨0, "p0_r2"⟩] ∧ s₀.views.length ≤ s.views.length := by
  refine ⟨_, _, _, rfl, ⟨?_, fun y hy => ?_, ?_, fun cmd hc => ?_⟩, rfl, by decide, rfl, rfl,
    by decide⟩
  · rintro p ⟨⟩ ⟨r, hr, hready⟩
    cases hr
    cases hready
  · cases hy
    rfl
  · rintro ⟨t, ⟨⟩, p, r, hp, hr, hready⟩
    cases hp
    cases hr
    cases hready
  · have hnone : Payload.updateStatus cmd ∈ [] := hc
    cases hnone

/-- A replica that served and was reported ready is removed once it has cleaned up. -/
theorem removed_after_cleanup_cleanedUp : ∃ s₀ s cmd, runSteps step initial cleared = some s₀ ∧
    runSteps step s₀ cleanedUp = some s ∧
    s.updateAssignments 0 0 (Partitions.withReplicas 1) Partitions.inOrder = some cmd ∧
    cmd.remove = [⟨0, "p0_r2"⟩] ∧
    (∃ y ∈ s.recorded, y.pid = 0 ∧ y.status.name = "p0_r2" ∧ y.status.ready = true ∧
      y.source = .leaving true) ∧ (0, "p0_r2") ∈ s.cleaned ∧ s.LeavingAt 0 "p0_r2" := by
  obtain ⟨s₀, s, cmd, hpre, hclear, hpost, hsince, hround, hremove, hviews⟩ := cleanedUp_run
  have hx : (⟨0, "p0_r2"⟩ : Remove) ∈ cmd.remove := by simp [hremove]
  exact ⟨s₀, s, cmd, hpre, hpost, hround, hremove,
    removed_after_cleanup hpre hclear hpost hsince hround hx hviews⟩

end Scout.Sessions
