import Scout.Control.Assignments

/-!
Where replicas are placed: on registered data servers, stored under their own
names, and no two of a partition on one server as long as no command adds a
partition twice to the same server.
-/

namespace Scout.Control

open Lib

/-! ## One replica for each server -/

/-- No two replicas of the partition are on the same server. -/
def Partition.Spread (part : Partition) : Prop :=
  ∀ n₁ n₂ r₁ r₂, part.replicas.get n₁ = some r₁ → part.replicas.get n₂ = some r₂ →
    r₁.serverId = r₂.serverId → n₁ = n₂

def Partition.On (S : Nat → Prop) (part : Partition) : Prop :=
  ∀ name r, part.replicas.get name = some r → S r.serverId

variable {part part' : Partition}

theorem FromOld.spread (h : FromOld part part') (hs : part.Spread) : part'.Spread := by
  intro n₁ n₂ r₁ r₂ h₁ h₂ he
  obtain ⟨r₁', hr₁, _, e₁⟩ := h n₁ r₁ h₁
  obtain ⟨r₂', hr₂, _, e₂⟩ := h n₂ r₂ h₂
  exact hs n₁ n₂ r₁' r₂' hr₁ hr₂ (e₁.symm.trans (he.trans e₂))

theorem FromOld.on {S : Nat → Prop} (h : FromOld part part') (hs : part.On S) : part'.On S := by
  intro name r hr
  obtain ⟨r', hr', _, e⟩ := h name r hr
  rw [e]
  exact hs name r' hr'

variable {t : Time} {sid : Nat} {state : ReplicaState}

theorem Added.spread (h : Added t sid state part part') (hs : part.Spread)
    (hfree : ∀ name r, part.replicas.get name = some r → r.serverId ≠ sid) : part'.Spread := by
  intro n₁ n₂ r₁ r₂ h₁ h₂ he
  rw [h.get] at h₁ h₂
  split at h₁ <;> split at h₂
  · next e₁ e₂ => rw [e₁, e₂]
  · cases h₁
    exact absurd he.symm (hfree n₂ r₂ h₂)
  · cases h₂
    exact absurd he (hfree n₁ r₁ h₁)
  · exact hs n₁ n₂ r₁ r₂ h₁ h₂ he

theorem Added.on {S : Nat → Prop} (h : Added t sid state part part') (hs : part.On S)
    (hsid : S sid) : part'.On S := by
  intro name r hr
  rw [h.get] at hr
  split at hr
  · cases hr
    exact hsid
  · exact hs name r hr

/-- The partitions after the first items of a loop of additions: what is on a
server was there before the loop or was put there by one of the items. -/
structure Placed (items₀ : GoMap Nat Partition) (pre : List (Nat × Nat))
    (items : GoMap Nat Partition) : Prop where
  spread : ∀ q part, items.get q = some part → part.Spread
  origin : ∀ q part, items.get q = some part → ∀ name r, part.replicas.get name = some r →
    (q, r.serverId) ∈ pre ∨ ∃ part₀ name₀ r₀, items₀.get q = some part₀ ∧
      part₀.replicas.get name₀ = some r₀ ∧ r₀.serverId = r.serverId

variable {items : GoMap Nat Partition}

theorem Placed.start (hspread : ∀ q part, items.get q = some part → part.Spread) :
    Placed items [] items :=
  ⟨hspread, fun _ part hq name r hr => .inr ⟨part, name, r, hq, hr, rfl⟩⟩

theorem Placed.add {items₀ items' : GoMap Nat Partition} {pre : List (Nat × Nat)} {pid : Nat}
    (h : Placed items₀ pre items) (ht : Touches items items' pid (Added t sid state))
    (hpre : (pid, sid) ∉ pre)
    (hfree : ∀ part₀ name r, items₀.get pid = some part₀ → part₀.replicas.get name = some r →
      r.serverId ≠ sid) : Placed items₀ (pre ++ [(pid, sid)]) items' := by
  refine ⟨ht.all h.spread fun part part' hg hs ha => ha.spread hs fun name r hr he => ?_, ?_⟩
  · rcases h.origin pid part hg name r hr with hmem | ⟨part₀, name₀, r₀, h₀, hr₀, he₀⟩
    · rw [he] at hmem
      exact hpre hmem
    · exact hfree part₀ name₀ r₀ h₀ hr₀ (he₀.trans he)
  · refine ht.all (P := fun q part => ∀ name r, part.replicas.get name = some r →
      (q, r.serverId) ∈ pre ++ [(pid, sid)] ∨ ∃ part₀ name₀ r₀, items₀.get q = some part₀ ∧
        part₀.replicas.get name₀ = some r₀ ∧ r₀.serverId = r.serverId) ?_ ?_
    · intro q part hq name r hr
      exact (h.origin q part hq name r hr).imp_left fun hm => List.mem_append_left _ hm
    · intro part part' _ ho ha name r hr
      rw [ha.get] at hr
      split at hr
      · cases hr
        exact .inl (by simp [newReplica])
      · exact ho name r hr

theorem placed_loop {α : Type} {count : Nat} {items' : GoMap Nat Partition} {xs : List α}
    {pair : α → Nat × Nat} {state : α → ReplicaState}
    {f : GoMap Nat Partition → α → Go ApplyError (GoMap Nat Partition)}
    (hf : ∀ m x m', ItemsOk count m → f m x = .ok m' →
      ItemsOk count m' ∧ Touches m m' (pair x).1 (Added t (pair x).2 (state x)))
    (hok : ItemsOk count items) (hspread : ∀ q part, items.get q = some part → part.Spread)
    (hnd : (xs.map pair).Nodup) (hfree : ∀ x ∈ xs, ∀ part name r, items.get (pair x).1 = some part →
      part.replicas.get name = some r → r.serverId ≠ (pair x).2)
    (h : xs.foldlM f items = .ok items') : Placed items (xs.map pair) items' := by
  refine (foldlM_history (fun pre m => ItemsOk count m ∧ Placed items (pre.map pair) m) h
    ⟨hok, .start hspread⟩ fun pre x post m m' hxs hm hs => ?_).2
  obtain ⟨hok', ht⟩ := hf m x m' hm.1 hs
  have hpre : pair x ∉ pre.map pair := by
    rw [hxs, List.map_append, List.nodup_append'] at hnd
    exact fun hp => hnd.2.2 hp (by simp)
  refine ⟨hok', ?_⟩
  rw [List.map_append]
  exact hm.2.add ht hpre (hfree x (by simp [hxs]))

def Add.pair (x : Add) : Nat × Nat := (x.partitionId, x.serverId)

/-! ## States -/

def SpreadAll (f : Fsm) : Prop :=
  ∀ p, f.partitions = some p → ∀ q part, p.items.get q = some part → part.Spread

def OnData (f : Fsm) : Prop :=
  ∀ p, f.partitions = some p → ∀ q part, p.items.get q = some part → part.On (DataServer f)

/-- A command that is accepted adds a partition at most once to a server, and a new
server gets an id that is not in use (ids are counted modulo `2 ^ 64`). -/
def PayloadPlaces (f : Fsm) : Option Payload → Prop
  | some (.updateAssignments cmd) =>
    ∀ p ∈ f.partitions, validateUpdateAssignments f p cmd = .ok () → (cmd.add.map Add.pair).Nodup
  | some (.register _) => ∀ s ∈ f.servers, s.items.get (nextServerId s) = none
  | some (.bootstrap _) | some (.updateStatus _) | some (.initAssignments _) | none => True

instance PayloadPlaces.decidable (f : Fsm) : ∀ o, Decidable (PayloadPlaces f o)
  | some (.updateAssignments _) =>
    inferInstanceAs (Decidable (∀ p ∈ f.partitions, _ = _ → List.Nodup _))
  | some (.register _) => inferInstanceAs (Decidable (∀ s ∈ f.servers, _ = _))
  | some (.bootstrap _) | some (.updateStatus _) | some (.initAssignments _)
  | none => isTrue trivial

def PlacesOnce (f : Fsm) (a : Step) : Prop := PayloadPlaces f a.payload
  deriving Decidable

theorem registerNew_items {s s' : Servers} {cmd : Register} {r : Result}
    (h : registerNew s t cmd = .ok (s', r)) (hne : sid ≠ nextServerId s) :
    s'.items.get sid = s.items.get sid := by
  obtain ⟨items, hi, h⟩ := bind_eq_ok.mp h
  obtain ⟨tokens, _, h⟩ := bind_eq_ok.mp h
  cases h
  rw [GoMap.get_of_set (deref_eq_ok.mp hi), if_neg hne]

variable {f : Fsm}

theorem ServersReported.dataServer {s : Option Servers} {p : Option Partitions} {i v : Nat}
    (h : ServersReported f.servers s) (hd : DataServer f sid) :
    DataServer { f with index := i, version := v, servers := s, partitions := p } sid := by
  rcases h with rfl | ⟨s₀, s₁, h₀, rfl, ht⟩
  · exact hd
  obtain ⟨s', server, hs', hg, hty⟩ := hd
  rw [h₀] at hs'
  cases hs'
  have hmap := ht sid
  rw [hg, Option.map_some] at hmap
  obtain ⟨server', hg', hty'⟩ := Option.map_eq_some_iff.mp hmap
  exact ⟨s₁, server', rfl, hg', hty'.trans hty⟩

theorem DataServer.wire (h : DataServer f sid) : DataServer (snapshot f) sid := by
  obtain ⟨s, server, hs, hg, ht⟩ := h
  exact ⟨s.wire, server, by simp [snapshot, hs], (GoMap.get_wire _ _).trans hg, ht⟩

variable {a : Step}

theorem SpreadAll.step {f' : Fsm} (hf : Sound f) (h : SpreadAll f)
    (hok : ∀ cmd, a.payload = some (.updateAssignments cmd) →
      PayloadPlaces f (some (.updateAssignments cmd))) (hstep : Control.step f a = some f') :
    SpreadAll f' := by
  cases step_moves hstep with
  | idle a i v => exact h
  | bootstrap i v m t cmd hc =>
    intro p hp q part hq n₁ n₂ r₁ r₂ h₁
    cases hp
    rw [bootstrapPartitions_none hq] at h₁
    cases h₁
  | register i v m t cmd s s' r _ _ _ => exact h
  | status i v m t cmd s p _ hp =>
    rcases hp with rfl | ⟨p₀, p₁, h₀, rfl, _, hi⟩
    · exact h
    intro p hp
    cases hp
    exact foldlM_invariant (fun m => ∀ q part, m.get q = some part → part.Spread) hi (h p₀ h₀)
      fun u _ m m' hm hx => (statusItem_touches hx).all hm fun _ _ _ hs hr =>
        hr.fromOld.spread hs
  | initAssignments i v m t cmd p items hp hn hv hi =>
    have hnone := hf.fresh p hp hn
    have key : Placed p.items (cmd.add.map InitAdd.pair) items := by
      refine placed_loop (fun m x m' hm hx => ⟨hm.initAdd hx, initAdd_touches hm.id hx⟩)
        (hf.items p hp) (h p hp) (validateInitAssignments_ok hv).nodup ?_ hi
      intro x _ part name r hg hr
      rw [hnone _ part hg name] at hr
      cases hr
    intro p' hp'
    cases hp'
    exact key.spread
  | updateAssignments i v m t cmd p items hp hn hv hi =>
    obtain ⟨_, hadd, _, _⟩ := validateUpdateAssignments_ok.mp hv
    intro p' hp'
    cases hp'
    refine (changeItems_afterAdd (fun m => ∀ q part, m.get q = some part → part.Spread)
      (hf.items p hp) hi ?_ ?_ ?_ ?_).2
    · intro added ha
      have hplaced : Placed p.items (cmd.add.map Add.pair) added := by
        refine placed_loop (fun m x m' hm hx => ⟨hm.addItem hx, addItem_touches hm.id hx⟩)
          (hf.items p hp) (h p hp) (hok cmd rfl p hp hv) ?_ ha
        intro x hx part name r hg hr
        obtain ⟨_, _, part₀, h₀, hfree⟩ := checkAdd_ok.mp (hadd x hx)
        rw [Add.pair, h₀] at hg
        cases hg
        exact Partition.replicaForServer_eq_none.mp hfree name r hr
      exact hplaced.spread
    · intro x _ m m' hm hx
      exact (updateItem_touches hx).all hm fun _ _ _ hs hu => hu.fromOld.spread hs
    · intro x _ m m' hm hx
      exact (removeItem_touches hx).all hm fun _ _ _ hs hu => hu.fromOld.spread hs
    · intro pid m m' hm hx
      exact (bumpVersion_touches hx).all hm fun _ _ _ hs hu => hu.fromOld.spread hs
  | restore =>
    intro p hp q part hq
    obtain ⟨p₀, h₀, rfl⟩ := Option.map_eq_some_iff.mp hp
    obtain ⟨part₀, hp₀, rfl⟩ := wire_items_get.mp hq
    intro n₁ n₂ r₁ r₂ h₁ h₂
    rw [wire_replicas_get] at h₁ h₂
    exact h p₀ h₀ q part₀ hp₀ n₁ n₂ r₁ r₂ h₁ h₂

theorem on_survives (S : Nat → Prop) :
    Survives S (fun _ part => part.On S) fun _ => True where
  empty _ part hnone name r hr := by
    rw [hnone] at hr
    cases hr
  same _ part part' hsame h name r hr := by
    rw [hsame] at hr
    exact h name r hr
  added _ _ _ _ _ _ ha _ hsid h := ha.on h hsid
  updated _ _ _ _ _ _ _ hu _ h := hu.fromOld.on h
  removed _ _ _ _ hr h := hr.fromOld.on h
  reported _ _ u part _ _ h := (updateStatus_reported part u).fromOld.on h

theorem OnData.step {f' : Fsm} (hf : Sound f) (h : OnData f) (hok : PlacesOnce f a)
    (hstep : Control.step f a = some f') : OnData f' := by
  intro p hp q part hq name r hr
  have hd : DataServer f r.serverId :=
    AllItems.step (on_survives _) hf h (fun _ _ => trivial) hstep p hp q part hq name r hr
  -- the server is still registered
  cases step_moves hstep with
  | idle | initAssignments | updateAssignments => exact hd
  | bootstrap i v m t cmd hc =>
    cases hp
    rw [bootstrapPartitions_none hq] at hr
    cases hr
  | register i v m t cmd s s' r' hs _ hreg =>
    obtain ⟨s₀, server, h₀, hg, hty⟩ := hd
    rw [hs] at h₀
    cases h₀
    refine ⟨s', server, rfl, ?_, hty⟩
    rw [registerNew_items hreg]
    · exact hg
    · intro he
      rw [he, hok s hs] at hg
      cases hg
  | status i v m t cmd s p hs hp => exact hs.dataServer hd
  | restore => exact hd.wire

theorem PlacesOnce.adds (h : PlacesOnce f a) (cmd : UpdateAssignments)
    (ha : a.payload = some (.updateAssignments cmd)) :
    PayloadPlaces f (some (.updateAssignments cmd)) := by
  unfold PlacesOnce at h
  rw [ha] at h
  exact h

theorem placed_run {as : List Step} (hok : StepsMeet step PlacesOnce newFsm as)
    (hrun : runSteps step newFsm as = some f) : Sound f ∧ SpreadAll f ∧ OnData f :=
  runSteps_invariant step (fun f => Sound f ∧ SpreadAll f ∧ OnData f)
    (fun _ _ _ hi hok hs =>
      ⟨hi.1.step hs, hi.2.1.step hi.1 hok.adds hs, hi.2.2.step hi.1 hok hs⟩)
    ⟨sound_new, nofun, nofun⟩ hok hrun

/-! ## Runs -/

/-- **Placement of replicas.** In every state reached by commands that add a
partition at most once to a server: no two replicas of a partition have the same
server, every server of a replica is a registered data server, and every replica
is stored under its own name. -/
theorem replicas_well_placed {as : List Step} {f : Fsm} {p : Partitions}
    (hok : StepsMeet step PlacesOnce newFsm as) (hrun : runSteps step newFsm as = some f)
    (hp : f.partitions = some p) :
    (∀ pid part, p.items.get pid = some part → ∀ n₁ n₂ r₁ r₂, part.replicas.get n₁ = some r₁ →
      part.replicas.get n₂ = some r₂ → r₁.serverId = r₂.serverId → n₁ = n₂) ∧
    (∀ pid part, p.items.get pid = some part → ∀ name r, part.replicas.get name = some r →
      ∃ s server, f.servers = some s ∧ s.items.get r.serverId = some server ∧ server.type = .data) ∧
    ∀ pid part, p.items.get pid = some part → ∀ name r, part.replicas.get name = some r →
      r.name = name := by
  obtain ⟨hf, hspread, hon⟩ := placed_run hok hrun
  exact ⟨hspread p hp, hon p hp,
    fun pid part hpart name r hr => ((hf.items p hp).named pid part hpart).name name r hr⟩

/-- One command that adds the partition twice to a third data server. -/
def addedTwice : List Step :=
  twoDataServers ++ [.apply assignTwoVoters,
    .apply (command 5 (.register ⟨.data, "c", "10.0.0.4:5000", []⟩)),
    .apply (command 6 (.updateAssignments ⟨0, [⟨0, 4⟩, ⟨0, 4⟩], [], [], 0⟩))]

/-- Both items pass the check against the state before the command. -/
theorem addedTwice_sameServer : ∃ f p part r₁ r₂, runSteps step newFsm addedTwice = some f ∧
    f.partitions = some p ∧ p.items.get 0 = some part ∧
    part.replicas.get "p0_r3" = some r₁ ∧ part.replicas.get "p0_r4" = some r₂ ∧
    r₁.serverId = r₂.serverId :=
  ⟨_, _, _, _, _, rfl, rfl, rfl, rfl, rfl, rfl⟩

def oneMoves : List Step :=
  twoDataServers ++ [.apply assignTwoVoters,
    .apply (command 5 (.register ⟨.data, "c", "10.0.0.4:5000", []⟩)),
    .restore,
    .apply (command 6 (.updateAssignments ⟨0, [⟨0, 4⟩], [⟨0, "p0_r1", .leaving⟩], [], 0⟩))]

theorem replicas_well_placed_oneMoves : ∃ f p, runSteps step newFsm oneMoves = some f ∧
    f.partitions = some p ∧ ∀ pid part, p.items.get pid = some part →
      ∀ n₁ n₂ r₁ r₂, part.replicas.get n₁ = some r₁ → part.replicas.get n₂ = some r₂ →
        r₁.serverId = r₂.serverId → n₁ = n₂ := by
  refine ⟨_, _, rfl, rfl, ?_⟩
  exact (@replicas_well_placed oneMoves _ _ (by decide) rfl rfl).1

end Scout.Control
