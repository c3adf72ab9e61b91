import Scout.Control.Identity
import Scout.Control.InPlace

/-!
A command that is rejected has no effect, and one that is accepted counts the
version up, in every state that a cluster can reach. This is about the commands as
they are executed, assignment by assignment.

A command is also answered, with one of the two: it does not panic, unless it
writes to a map that a snapshot has decoded as nil.
-/

namespace Scout.Control

open Lib

/-! ## Live states -/

def TokensKnown (s : Servers) : Prop :=
  ∀ token id, s.tokens.get token = some id → (s.items.get id).isSome = true

theorem TokensKnown.same {s s' : Servers} (h : TokensKnown s) (hs : SameRegistry s s') :
    TokensKnown s' := by
  intro token id ht
  rw [hs.tokens] at ht
  rw [hs.items]
  exact h token id ht

variable {t : Time} {r : Result}

theorem TokensKnown.register {s s' : Servers} {cmd : Register} (h : TokensKnown s)
    (hr : registerNew s t cmd = .ok (s', r)) : TokensKnown s' := by
  obtain ⟨_, hitems, htokens, _⟩ := registerNew_ok hr
  intro token id ht
  rw [htokens] at ht
  rw [hitems]
  split at ht
  · cases ht
    simp
  · rw [h token id ht, Bool.or_true]

theorem tokensKnown_wire {s : Servers} (h : TokensKnown s) : TokensKnown s.wire := by
  intro token id ht
  rw [show s.wire.tokens.get token = s.tokens.get token from GoMap.get_wire _ _] at ht
  rw [show s.wire.items.get id = s.items.get id from GoMap.get_wire _ _]
  exact h token id ht

/-- Holds of every state after the Bootstrap. -/
structure Live (f : Fsm) : Prop where
  sound : Sound f
  servers : ∃ s, f.servers = some s ∧ TokensKnown s
  partitions : ∃ p, f.partitions = some p

variable {f f' : Fsm}

theorem partitions_stay {a : Step} (h : ∃ p, f.partitions = some p)
    (hs : Control.step f a = some f') : ∃ p, f'.partitions = some p := by
  obtain ⟨p, hp⟩ := h
  cases step_moves hs with
  | idle a i v => exact ⟨p, hp⟩
  | bootstrap i v m t cmd hc => exact ⟨_, rfl⟩
  | register i v m t cmd s s' r _ _ _ => exact ⟨p, hp⟩
  | status i v m t cmd s p' _ hr =>
    rcases hr with rfl | ⟨_, p₁, _, rfl, _⟩
    · exact ⟨p, hp⟩
    · exact ⟨p₁, rfl⟩
  | initAssignments i v m t cmd p items _ _ _ _ => exact ⟨_, rfl⟩
  | updateAssignments i v m t cmd p items _ _ _ _ => exact ⟨_, rfl⟩
  | restore => exact ⟨p.wire, by simp [snapshot, hp]⟩

theorem Live.step {a : Step} (h : Live f) (hs : Control.step f a = some f') : Live f' := by
  obtain ⟨s, hsv, hknown⟩ := h.servers
  refine ⟨h.sound.step hs, ?_, partitions_stay h.partitions hs⟩
  cases a with
  | restore =>
    cases hs
    exact ⟨s.wire, by simp [restore, snapshot, hsv], tokensKnown_wire hknown⟩
  | apply e =>
    obtain ⟨⟨f₁, ans⟩, happ, rfl⟩ := Option.map_eq_some_iff.mp hs
    rcases apply_servers hsv happ with ⟨_, cmd, hs'⟩ | ⟨_, s', hs', hcase⟩
    · refine ⟨_, hs', fun token id ht => ?_⟩
      rw [bootstrapServers_tokens] at ht
      cases ht
    · refine ⟨s', hs', ?_⟩
      rcases hcase with hsame | ⟨cmd, r, _, _, hr, _⟩
      · exact hknown.same hsame
      · exact hknown.register hr

theorem live_bootstrap {i m : Nat} {cmd : Bootstrap} {f₀ : Fsm}
    (hboot : apply newFsm ⟨i, t, some ⟨m, some (.bootstrap cmd)⟩⟩ = some (f₀, .ok r)) :
    Live f₀ := by
  have hsound := sound_new.step (step_of_apply hboot)
  obtain ⟨_, f₁, h₁, rfl⟩ := apply_accepted.mp hboot
  cases h₁
  refine ⟨hsound, ⟨bootstrapServers t cmd.servers, rfl, fun token id ht => ?_⟩, _, rfl⟩
  rw [bootstrapServers_tokens] at ht
  cases ht

theorem live_run {f₀ : Fsm} {as : List Step} (h : Live f₀) (hrun : runSteps step f₀ as = some f) :
    Live f :=
  runSteps_preserves step Live (fun _ _ _ hf hs => hf.step hs) h hrun

/-! ## Maps that are not nil -/

structure Made (f : Fsm) : Prop where
  servers : ∀ s, f.servers = some s → s.items.isNil = false ∧ s.tokens.isNil = false
  partitions : ∀ p, f.partitions = some p → ∀ q, nilAt p.items q = false

theorem made_fill (f : Fsm) : Made f.fill := by
  refine ⟨fun s hs => ?_, fun p hp q => ?_⟩
  · obtain ⟨s₀, _, rfl⟩ := Option.map_eq_some_iff.mp hs
    exact ⟨rfl, rfl⟩
  · obtain ⟨p₀, _, rfl⟩ := Option.map_eq_some_iff.mp hp
    show ((fillItems p₀.items).get q).any _ = false
    rw [get_fillItems]
    cases p₀.items.get q <;> rfl

theorem Made.nilSafe (h : Made f) (e : Entry) : NilSafe f e := by
  show PayloadNilSafe f (e.data.bind Command.payload)
  cases e.data.bind Command.payload with
  | none => trivial
  | some payload =>
    cases payload with
    | bootstrap cmd => trivial
    | register cmd => exact fun s hs _ => h.servers s hs
    | updateStatus cmd => trivial
    | initAssignments cmd => exact fun p hp _ _ x _ => h.partitions p hp _
    | updateAssignments cmd => exact fun p hp _ x _ => h.partitions p hp _

theorem ItemsOk.fill {count : Nat} {items : GoMap Nat Partition} (h : ItemsOk count items) :
    ItemsOk count (fillItems items) := by
  refine ⟨fun q => ?_, fun q part hq => ?_⟩
  · rw [get_fillItems, Option.isSome_map]
    exact h.present q
  · rw [get_fillItems] at hq
    obtain ⟨part₀, h₀, rfl⟩ := Option.map_eq_some_iff.mp hq
    exact ⟨(h.named q part₀ h₀).id, (h.named q part₀ h₀).name, (h.named q part₀ h₀).issued⟩

theorem Live.fill (h : Live f) : Live f.fill := by
  obtain ⟨s, hs, hknown⟩ := h.servers
  obtain ⟨p, hp⟩ := h.partitions
  refine ⟨⟨fun p' hp' => ?_, fun p' hp' hn q part hq name => ?_⟩,
    ⟨s.fill, by simp [Fsm.fill, hs], hknown⟩, p.fill, by simp [Fsm.fill, hp]⟩
  · obtain ⟨p₀, h₀, rfl⟩ := Option.map_eq_some_iff.mp hp'
    exact (h.sound.items p₀ h₀).fill
  · obtain ⟨p₀, h₀, rfl⟩ := Option.map_eq_some_iff.mp hp'
    have hq : (fillItems p₀.items).get q = some part := hq
    rw [get_fillItems] at hq
    obtain ⟨part₀, hq₀, rfl⟩ := Option.map_eq_some_iff.mp hq
    exact h.sound.fresh p₀ h₀ hn q part₀ hq₀ name

/-! ## Commands do not panic -/

section Progress

variable {f : Fsm} {t : Time}

theorem noPanic_rejectIf (c : Prop) [Decidable c] (e : ApplyError) : NoPanic (rejectIf c e) := by
  unfold rejectIf
  split <;> exact nofun

theorem Live.noPanic_isValidDataServer (h : Live f) (sid : Nat) :
    NoPanic (isValidDataServer f sid) := by
  obtain ⟨s, hs, _⟩ := h.servers
  exact (noPanic_deref (by rw [hs]; rfl)).bind fun _ _ => noPanic_ok _

theorem Live.noPanic_partition (h : Live f) {p : Partitions} (hp : f.partitions = some p)
    {pid : Nat} {e : ApplyError} (hv : rejectIf (¬isValidPartitionId f pid = true) e = .ok ()) :
    NoPanic (deref (p.items.get pid) : Go ApplyError Partition) := by
  rw [rejectIf_ok, not_not, isValidPartitionId_iff] at hv
  exact noPanic_deref (((h.sound.items p hp).present pid).mpr hv)

theorem Live.noPanic_validateUpdate (h : Live f) {p : Partitions} (hp : f.partitions = some p)
    (cmd : UpdateAssignments) : NoPanic (validateUpdateAssignments f p cmd) := by
  refine (noPanic_rejectIf _ _).bind fun _ _ => ?_
  refine NoPanic.bind (noPanic_forM fun x _ => ?_) fun _ _ =>
    NoPanic.bind (noPanic_forM fun x _ => ?_) fun _ _ => noPanic_forM fun x _ => ?_
  · refine (noPanic_rejectIf _ _).bind fun _ hv => ?_
    refine (h.noPanic_isValidDataServer _).bind fun _ _ => ?_
    refine (noPanic_rejectIf _ _).bind fun _ _ => ?_
    exact (h.noPanic_partition hp hv).bind fun _ _ => noPanic_rejectIf _ _
  · refine (noPanic_rejectIf _ _).bind fun _ hv => ?_
    refine (h.noPanic_partition hp hv).bind fun _ _ => ?_
    refine (noPanic_rejectIf _ _).bind fun _ _ => ?_
    exact (noPanic_rejectIf _ _).bind fun _ _ => noPanic_rejectIf _ _
  · refine (noPanic_rejectIf _ _).bind fun _ hv => ?_
    refine (h.noPanic_partition hp hv).bind fun part _ => ?_
    refine (noPanic_rejectIf _ _).bind fun _ hr => ?_
    rw [rejectIf_ok] at hr
    refine (noPanic_deref ?_).bind fun _ _ => noPanic_rejectIf _ _
    cases hg : part.replicas.get x.replica with
    | none => exact absurd (by rw [hg]; rfl) hr
    | some r => rfl

theorem Live.noPanic_validateInit (h : Live f) (cmd : InitAssignments) :
    NoPanic (validateInitAssignments f cmd) := by
  refine NoPanic.bind (noPanic_foldlM fun seen x _ => ?_) fun _ _ => noPanic_rejectIf _ _
  refine (noPanic_rejectIf _ _).bind fun _ _ => ?_
  refine (h.noPanic_isValidDataServer _).bind fun _ _ => ?_
  refine (noPanic_rejectIf _ _).bind fun _ _ => ?_
  exact (noPanic_rejectIf _ _).bind fun _ _ => noPanic_ok _

theorem validateInit_partition {cmd : InitAssignments}
    (h : validateInitAssignments f cmd = .ok ()) :
    ∀ x ∈ cmd.add, x.partitionId < f.partitionCount := by
  obtain ⟨_, hloop, _⟩ := bind_eq_ok.mp h
  refine foldlM_history (fun pre _ => ∀ x ∈ pre, x.partitionId < f.partitionCount) hloop nofun
    fun pre x post s s' _ hi hs y hy => ?_
  rcases List.mem_append.mp hy with hy | hy
  · exact hi y hy
  · rw [List.mem_singleton] at hy
    exact hy ▸ (initCheck_ok hs).1

variable {items : GoMap Nat Partition}

theorem initLoop_progress {count : Nat} {xs : List InitAdd} (hok : ItemsOk count items)
    (hmade : ∀ x ∈ xs, nilAt items x.partitionId = false)
    (hxs : ∀ x ∈ xs, x.partitionId < count) :
    ∃ items', xs.foldlM (initAdd t) items = .ok items' := by
  obtain ⟨items', h, _⟩ := foldlM_builds (m := Except _)
    (fun _ m => ItemsOk count m ∧ ∀ q, nilAt m q = true → nilAt items q = true) xs
    (f := initAdd t) ⟨hok, fun _ h => h⟩ fun pre x post m hx hm => by
      have hmem : x ∈ xs := by simp [hx]
      obtain ⟨part, hg⟩ := Option.isSome_iff_exists.mp
        ((hm.1.present x.partitionId).mpr (hxs x hmem))
      have hnil : nilAt m x.partitionId = false := Bool.eq_false_iff.mpr fun hn =>
        Bool.eq_false_iff.mp (hmade x hmem) (hm.2 _ hn)
      obtain ⟨m₁, h₁⟩ : ∃ m₁, addReplica t m x.partitionId x.serverId x.state = .ok m₁ :=
        addReplica_progress hg (hm.1.id part hg) hnil
      have hsome : (m₁.get x.partitionId).isSome = true := by
        rw [(addReplica_touches hm.1.id h₁).isSome, hg]
        rfl
      obtain ⟨part₁, hg₁⟩ := Option.isSome_iff_exists.mp hsome
      have hx' : initAdd t m x = .ok _ := bind_eq_ok.mpr ⟨m₁, h₁, onPartition_of_get hg₁ rfl⟩
      exact ⟨_, hx', hm.1.initAdd hx', fun q hq => hm.2 q (initAdd_nilAt hx' hq)⟩
  exact ⟨items', h⟩

theorem initLoop_made {count : Nat} {items' : GoMap Nat Partition} {xs : List InitAdd}
    (hok : ItemsOk count items) (h : xs.foldlM (initAdd t) items = .ok items') :
    ∀ x ∈ xs, nilAt items x.partitionId = false := by
  refine loop_made (fun hm hx => ?_) hok h
  obtain ⟨_, _, _, _, hi⟩ := initAdd_touches hm.id hx
  obtain ⟨_, hadd, _⟩ := bind_eq_ok.mp hx
  exact ⟨hm.initAdd hx, addReplica_made hm.id hadd, fun q hq => (hi q).trans (if_neg hq)⟩

theorem statusLoop_progress {us : List (Nat × PartitionStatus)}
    (hus : ∀ u ∈ us, (items.get u.1).isSome = true) :
    ∃ items', us.foldlM statusItem items = .ok items' := by
  obtain ⟨items', h, _⟩ := foldlM_builds (m := Except _)
    (fun _ m => ∀ q, (m.get q).isSome = (items.get q).isSome) us (f := statusItem) (fun _ => rfl)
    fun pre u post m hu hm => by
      obtain ⟨part, hg⟩ := Option.isSome_iff_exists.mp
        ((hm u.1).trans (hus u (by simp [hu])))
      have hx : statusItem m u = .ok _ := onPartition_of_get hg rfl
      exact ⟨_, hx, fun q => ((statusItem_touches hx).isSome q).trans (hm q)⟩
  exact ⟨items', h⟩

def NamesPartitions (f : Fsm) : Payload → Prop
  | .updateStatus cmd => ∀ p ∈ f.partitions, ∀ q ∈ cmd.partitions.keys,
      (p.items.get q).isSome = true
  | .bootstrap _ | .register _ | .initAssignments _ | .updateAssignments _ => True

theorem Live.noPanic_register (h : Live f) (hm : Made f) (cmd : Register) :
    NoPanic (applyRegister f t cmd) := by
  obtain ⟨s, hs, hknown⟩ := h.servers
  refine (noPanic_deref (by rw [hs]; rfl)).bind fun s' hs' => ?_
  rw [deref_eq_ok, hs] at hs'
  cases hs'
  cases ht : s.tokens.get cmd.token with
  | some id =>
    refine (noPanic_deref (hknown _ _ ht)).bind fun server _ => ?_
    exact (noPanic_rejectIf _ _).bind fun _ _ => noPanic_ok _
  | none =>
    obtain ⟨hitems, htokens⟩ := hm.servers s hs
    have hset : ∀ {κ α : Type} [DecidableEq κ] (m : GoMap κ α) (k : κ) (v : α),
        m.isNil = false → NoPanic (setEntry m k v) := by
      intro κ α _ m k v hnil
      cases m with
      | nil => cases hnil
      | made c => exact noPanic_ok _
    refine NoPanic.bind ?_ fun _ _ => noPanic_ok _
    exact (hset _ _ _ hitems).bind fun _ _ => (hset _ _ _ htokens).bind fun _ _ => noPanic_ok _

theorem Live.noPanic_updateStatus (h : Live f) (cmd : UpdateStatus)
    (hcmd : NamesPartitions f (.updateStatus cmd)) : NoPanic (applyUpdateStatus f cmd) := by
  obtain ⟨s, hs, _⟩ := h.servers
  obtain ⟨p, hp⟩ := h.partitions
  refine NoPanic.bind ?_ fun _ _ => NoPanic.bind ?_ fun _ _ => noPanic_ok _
  · unfold updateServersStatus
    split
    · exact noPanic_ok _
    · exact (noPanic_deref (by rw [hs]; rfl)).bind fun _ _ => noPanic_ok _
  · unfold updatePartitionsStatus
    split
    · exact noPanic_ok _
    refine (noPanic_deref (by rw [hp]; rfl)).bind fun p' hp' => ?_
    rw [deref_eq_ok, hp] at hp'
    cases hp'
    obtain ⟨items', hloop⟩ : ∃ items', (cmd.partitions.entries.map fun e => (e.1, e.2)).foldlM
        statusItem p.items = .ok items' := by
      refine statusLoop_progress fun u hu => ?_
      obtain ⟨e, he, rfl⟩ := List.mem_map.mp hu
      exact hcmd p hp e.1 (List.mem_map.mpr ⟨e, he, rfl⟩)
    rw [hloop]
    exact noPanic_ok _

/-- **A command on a live state is answered.** -/
theorem Live.noPanic_applyPayload (h : Live f) (hm : Made f) (payload : Payload)
    (hcmd : NamesPartitions f payload) : NoPanic (applyPayload f t payload) := by
  obtain ⟨p, hp⟩ := h.partitions
  have hderef : NoPanic (deref f.partitions : Go ApplyError Partitions) :=
    noPanic_deref (by rw [hp]; rfl)
  cases payload with
  | bootstrap cmd =>
    show NoPanic (applyBootstrap f t cmd)
    unfold applyBootstrap
    split <;> exact noPanic_ok _
  | register cmd => exact h.noPanic_register hm cmd
  | updateStatus cmd => exact h.noPanic_updateStatus cmd hcmd
  | initAssignments cmd =>
    refine hderef.bind fun p' hp' => ?_
    rw [deref_eq_ok, hp] at hp'
    cases hp'
    refine (noPanic_rejectIf _ _).bind fun _ _ => ?_
    refine (h.noPanic_validateInit cmd).bind fun _ hv => ?_
    obtain ⟨items', hi⟩ := initLoop_progress (t := t) (h.sound.items p hp)
      (fun _ _ => hm.partitions p hp _) (validateInit_partition hv)
    rw [hi]
    exact noPanic_ok _
  | updateAssignments cmd =>
    refine hderef.bind fun p' hp' => ?_
    rw [deref_eq_ok, hp] at hp'
    cases hp'
    refine (noPanic_rejectIf _ _).bind fun _ _ => (noPanic_rejectIf _ _).bind fun _ _ => ?_
    refine (h.noPanic_validateUpdate hp cmd).bind fun _ hv => ?_
    obtain ⟨items', _, hi, _⟩ := changeItems_effect (t := t) (h.sound.items p hp)
      (fun _ _ => hm.partitions p hp _) (applicable_of_validate hv)
    rw [hi]
    exact noPanic_ok _

/-- The entry cannot be decoded, or its command is set and names partitions that exist. -/
def Complete (f : Fsm) (e : Entry) : Prop :=
  ∀ cmd ∈ e.data, ∃ payload, cmd.payload = some payload ∧ NamesPartitions f payload

theorem Live.answered_of_made (h : Live f) (hm : Made f) {e : Entry} (he : Complete f e) :
    ∃ f' ans, apply f e = some (f', ans) := by
  unfold apply
  cases hd : e.data with
  | none => exact ⟨_, _, rfl⟩
  | some cmd =>
    obtain ⟨payload, hp, hnames⟩ := he cmd hd
    have hc : NoPanic (applyCommand f e.appendedAt cmd) := by
      refine (noPanic_rejectIf _ _).bind fun _ _ => ?_
      refine (noPanic_deref (by rw [hp]; rfl)).bind fun payload' hp' => ?_
      rw [deref_eq_ok, hp] at hp'
      cases hp'
      exact (h.noPanic_applyPayload hm payload hnames).bind fun _ _ => noPanic_ok _
    rcases happ : applyCommand f e.appendedAt cmd with (_ | err) | ⟨f', r⟩
    · exact absurd happ hc
    · dsimp only
      rw [happ]
      exact ⟨_, _, rfl⟩
    · dsimp only
      rw [happ]
      exact ⟨_, _, rfl⟩

theorem Complete.fill {e : Entry} (he : Complete f e) : Complete f.fill e := by
  intro cmd hd
  obtain ⟨payload, hp, hnames⟩ := he cmd hd
  refine ⟨payload, hp, ?_⟩
  cases payload with
  | updateStatus cmd =>
    intro p hp q hq
    obtain ⟨p₀, h₀, rfl⟩ := Option.map_eq_some_iff.mp hp
    show ((fillItems p₀.items).get q).isSome = true
    rw [get_fillItems, Option.isSome_map]
    exact hnames p₀ h₀ q hq
  | _ => trivial

theorem Live.answered (h : Live f) {e : Entry} (he : Complete f e) (hsafe : NilSafe f e) :
    ∃ f' ans, apply f e = some (f', ans) := by
  obtain ⟨F, ans, hF⟩ := h.fill.answered_of_made (made_fill f) he.fill
  obtain ⟨f', hf', _⟩ := apply_of_fill hsafe hF
  exact ⟨f', ans, hf'⟩

theorem filled_run {f₀ : Fsm} {as : List Step} (h₀ : f₀.fill = f₀) (hno : ∀ a ∈ as, a ≠ .restore)
    (hrun : runSteps step f₀ as = some f) : f.fill = f := by
  have hmeet : StepsMeet step (fun _ a => a ≠ .restore) f₀ as :=
    stepsMeet_of_mem step (fun a ha _ => hno a ha) f₀
  refine runSteps_invariant step (fun f => f.fill = f) (fun f a f' hf ha hs => ?_) h₀ hmeet hrun
  cases a with
  | restore => exact absurd rfl ha
  | apply e =>
    obtain ⟨⟨f₁, ans⟩, happ, rfl⟩ := Option.map_eq_some_iff.mp hs
    have hfill := apply_fill happ
    rw [hf, happ] at hfill
    exact (Prod.mk.inj (Option.some.inj hfill)).1.symm

end Progress

/-! ## Answers -/

theorem applyPayload_version {payload : Payload} (h : applyPayload f t payload = .ok (f', r)) :
    f'.version = f.version := by
  cases payload with
  | bootstrap cmd =>
    change applyBootstrap f t cmd = _ at h
    unfold applyBootstrap at h
    split at h
    · cases h
      rfl
    · cases h
      rfl
  | register cmd =>
    rcases applyRegister_ok h with rfl | ⟨_, _, _, _, _, rfl⟩
    · rfl
    · rfl
  | updateStatus cmd =>
    obtain ⟨_, _, _, _, rfl⟩ := applyUpdateStatus_ok h
    rfl
  | initAssignments cmd =>
    obtain ⟨_, _, _, _, _, _, rfl⟩ := applyInitAssignments_ok h
    rfl
  | updateAssignments cmd =>
    obtain ⟨_, _, _, _, _, _, _, rfl, _⟩ := applyUpdateAssignments_ok.mp h
    rfl

theorem apply_answer {e : Entry} {ans : Answer} (h : apply f e = some (f', ans)) :
    (∀ err, ans = .error err → f' = { f with index := e.index }) ∧
      ∀ r, ans = .ok r → f'.version = f.version + 1 := by
  rcases apply_cases h with ⟨err, rfl, rfl⟩ | ⟨payload, r, f₁, _, rfl, h₁, rfl⟩
  · exact ⟨fun _ _ => rfl, nofun⟩
  · refine ⟨nofun, fun _ _ => ?_⟩
    rw [applyPayload_version h₁]

theorem bootstrap_filled {i m : Nat} {cmd : Bootstrap} {f₀ : Fsm}
    (hboot : apply newFsm ⟨i, t, some ⟨m, some (.bootstrap cmd)⟩⟩ = some (f₀, .ok r)) :
    f₀.fill = f₀ := by
  have hfill := apply_fill hboot
  rw [show newFsm.fill = newFsm from rfl, hboot] at hfill
  exact (Prod.mk.inj (Option.some.inj hfill)).1.symm

/-- **Rejected commands have no effect**, and accepted ones count the version up. Every
command is answered, unless it writes to a map that a restart has left nil. -/
theorem rejected_commands_have_no_effect {i m : Nat} {t : Time} {cmd : Bootstrap} {r : Result}
    {f₀ f : Fsm} {as : List Step} (e : Entry)
    (hboot : InPlace.apply newFsm ⟨i, t, some ⟨m, some (.bootstrap cmd)⟩⟩ = some (f₀, .ok r))
    (hrun : runSteps InPlace.step f₀ as = some f) :
    (∀ f' err, InPlace.apply f e = some (f', .error err) → f' = { f with index := e.index }) ∧
    (∀ f' result, InPlace.apply f e = some (f', .ok result) → f'.version = f.version + 1) ∧
    (Complete f e → (∀ a ∈ as, a ≠ .restore) ∨ NilSafe f e →
      ∃ f' ans, InPlace.apply f e = some (f', ans)) := by
  rw [InPlace.apply_eq] at hboot
  rw [show InPlace.step = step from funext fun f => funext fun a => InPlace.step_eq f a] at hrun
  rw [InPlace.apply_eq]
  refine ⟨fun f' err h => (apply_answer h).1 err rfl, fun f' r h => (apply_answer h).2 r rfl,
    fun he hcase => ?_⟩
  refine (live_run (live_bootstrap hboot) hrun).answered he ?_
  rcases hcase with hno | hsafe
  · have hfilled := filled_run (bootstrap_filled hboot) hno hrun
    exact (hfilled ▸ made_fill f).nilSafe e
  · exact hsafe

/-- A replica is added, and one that does not exist is told to leave. -/
def unknownLeaves : Entry :=
  command 5 (.updateAssignments ⟨0, [⟨0, 3⟩], [⟨0, "p0_r7", .leaving⟩], [], 0⟩)

def assignOneVoter : List Step :=
  [.apply (command 2 (.register ⟨.data, "a", "10.0.0.2:5000", []⟩)),
   .apply (command 3 (.register ⟨.data, "b", "10.0.0.3:5000", []⟩)),
   .apply (command 4 (.initAssignments ⟨[⟨0, 2, true⟩], 0⟩))]

theorem unknownLeaves_run : ∃ f₀ f f',
    InPlace.apply newFsm nameCluster = some (f₀, .ok (.bootstrapped true)) ∧
    runSteps InPlace.step f₀ assignOneVoter = some f ∧
    InPlace.apply f unknownLeaves = some (f', .error (.error "has invalid Update fields")) :=
  ⟨_, _, _, rfl, rfl, rfl⟩

theorem rejected_commands_have_no_effect_unknownLeaves : ∃ f₀ f f',
    InPlace.apply newFsm nameCluster = some (f₀, .ok (.bootstrapped true)) ∧
    runSteps InPlace.step f₀ assignOneVoter = some f ∧
    InPlace.apply f unknownLeaves = some (f', .error (.error "has invalid Update fields")) ∧
    f' = { f with index := 5 } := by
  obtain ⟨f₀, f, f', hboot, hrun, happ⟩ := unknownLeaves_run
  obtain ⟨hrejected, _⟩ := rejected_commands_have_no_effect unknownLeaves hboot hrun
  exact ⟨f₀, f, f', hboot, hrun, happ, hrejected f' _ happ⟩

end Scout.Control
