import Scout.Control.Transparency

/-!
What an assignment command does as a whole. The items are applied one after the
other: first the new replicas, then the changes of state, then the removals. A
command whose items name partitions and replicas that exist neither fails nor
panics on the way.
-/

namespace Scout.Control

open Lib

def replicaAt (items : GoMap Nat Partition) (q : Nat) (name : String) : Option Replica :=
  (items.get q).bind fun part => part.replicas.get name

variable {items : GoMap Nat Partition}

theorem replicaAt_eq_some {q : Nat} {name : String} {r : Replica} :
    replicaAt items q name = some r ↔
      ∃ part, items.get q = some part ∧ part.replicas.get name = some r := Option.bind_eq_some_iff

theorem replicaAt_of_get {q : Nat} {part : Partition} (h : items.get q = some part)
    (name : String) : replicaAt items q name = part.replicas.get name := by
  unfold replicaAt
  rw [h]
  rfl

section OneItem

variable {t : Time} {items items' : GoMap Nat Partition} {pid : Nat} {part : Partition}

theorem replicaAt_touched {part' : Partition} {n : String} {v : Option Replica}
    (hg : items.get pid = some part)
    (hi : ∀ q, items'.get q = if q = pid then some part' else items.get q)
    (hr : ∀ name, part'.replicas.get name = if name = n then v else part.replicas.get name)
    (q : Nat) (name : String) :
    replicaAt items' q name = if q = pid ∧ name = n then v else replicaAt items q name := by
  unfold replicaAt
  rw [hi]
  by_cases hq : q = pid
  · rw [if_pos hq, Option.bind_some, hr, hq, hg, Option.bind_some]
    simp only [true_and]
  · rw [if_neg hq, if_neg fun h => hq h.1]

theorem onPartition_of_get {part' : Partition} {op : Partition → Go ApplyError Partition}
    (hg : items.get pid = some part) (ho : op part = .ok part') :
    onPartition items pid op = .ok (items.store pid part') :=
  bind_eq_ok.mpr ⟨part, deref_eq_ok.mpr hg, bind_eq_ok.mpr ⟨part', ho, rfl⟩⟩

theorem addReplica_progress {sid : Nat} {state : ReplicaState} (hg : items.get pid = some part)
    (hid : part.id = pid) (hnil : nilAt items pid = false) :
    ∃ items', addReplica t items pid sid state = .ok items' := by
  have hmade : part.replicas.isNil = false := by
    unfold nilAt at hnil
    rw [hg] at hnil
    exact hnil
  cases hr : part.replicas with
  | nil =>
    rw [hr] at hmade
    cases hmade
  | made c =>
    have hname : nextReplicaName items part.id = .ok (items.store part.id
        { part with lastReplicaId := part.lastReplicaId + 1 },
        replicaName part.id (part.lastReplicaId + 1)) :=
      bind_eq_ok.mpr ⟨part, deref_eq_ok.mpr (hid ▸ hg), rfl⟩
    have hstored : (items.store part.id { part with lastReplicaId := part.lastReplicaId + 1 }).get
        pid = some { part with lastReplicaId := part.lastReplicaId + 1 } := by
      rw [GoMap.get_store, if_pos hid.symm, hid, hg]
      rfl
    have hset : ∀ name v, setEntry part.replicas name v = .ok (.made (c.insert name v)) := by
      intro name v
      rw [hr]
      rfl
    exact ⟨_, bind_eq_ok.mpr ⟨part, deref_eq_ok.mpr hg, bind_eq_ok.mpr ⟨_, hname,
      onPartition_of_get hstored (bind_eq_ok.mpr ⟨_, hset _ _, rfl⟩)⟩⟩⟩

theorem addItem_progress {x : Add} (hg : items.get x.partitionId = some part)
    (hid : part.id = x.partitionId) (hnil : nilAt items x.partitionId = false) :
    ∃ items', addItem t items x = .ok items' := addReplica_progress hg hid hnil

theorem updateItem_progress {x : Update} {r : Replica}
    (hr : replicaAt items x.partitionId x.replica = some r) :
    ∃ items', updateItem t items x = .ok items' := by
  obtain ⟨part, hg, hr⟩ := replicaAt_eq_some.mp hr
  exact ⟨_, onPartition_of_get hg (bind_eq_ok.mpr ⟨r, deref_eq_ok.mpr hr, rfl⟩)⟩

theorem removeItem_progress {x : Remove} (hg : (items.get x.partitionId).isSome = true) :
    ∃ items', removeItem items x = .ok items' := by
  obtain ⟨part, hg⟩ := Option.isSome_iff_exists.mp hg
  exact ⟨_, onPartition_of_get hg rfl⟩

theorem bumpVersion_progress (hg : (items.get pid).isSome = true) :
    ∃ items', bumpVersion items pid = .ok items' := by
  obtain ⟨part, hg⟩ := Option.isSome_iff_exists.mp hg
  exact ⟨_, onPartition_of_get hg rfl⟩

theorem updateItem_replicaAt {x : Update} (h : updateItem t items x = .ok items') :
    ∃ r, replicaAt items x.partitionId x.replica = some r ∧ ∀ q name, replicaAt items' q name =
      if q = x.partitionId ∧ name = x.replica then
        some { r with state := x.state, stateTransitionTime := t }
      else replicaAt items q name := by
  obtain ⟨part, part', hg, hu, hi⟩ := updateItem_touches h
  obtain ⟨r, hr, hget⟩ := hu.get
  exact ⟨r, replicaAt_eq_some.mpr ⟨part, hg, hr⟩, replicaAt_touched hg hi hget⟩

theorem removeItem_replicaAt {x : Remove} (h : removeItem items x = .ok items') (q : Nat)
    (name : String) : replicaAt items' q name =
      if q = x.partitionId ∧ name = x.replica then none else replicaAt items q name := by
  obtain ⟨part, part', hg, hr, hi⟩ := removeItem_touches h
  exact replicaAt_touched hg hi hr.get q name

theorem bumpVersion_replicaAt (h : bumpVersion items pid = .ok items') (q : Nat) (name : String) :
    replicaAt items' q name = replicaAt items q name := by
  obtain ⟨part, part', hg, hb, hi⟩ := bumpVersion_touches h
  unfold replicaAt
  rw [hi]
  by_cases hq : q = pid
  · rw [if_pos hq, hq, hg, Option.bind_some, Option.bind_some, hb.replicas]
  · rw [if_neg hq]

end OneItem

/-! ## The loop over the new replicas -/

structure AddedAll (count : Nat) (items : GoMap Nat Partition) (xs : List Add)
    (m : GoMap Nat Partition) : Prop where
  ok : ItemsOk count m
  nil : ∀ q, nilAt m q = true → nilAt items q = true
  keep : ∀ q name r, replicaAt items q name = some r → replicaAt m q name = some r
  new : ∀ x ∈ xs, ∃ name r, replicaAt items x.partitionId name = none ∧
    replicaAt m x.partitionId name = some r ∧ r.serverId = x.serverId ∧ r.state = .joining
  only : ∀ q name r, replicaAt m q name = some r → replicaAt items q name = some r ∨
    replicaAt items q name = none ∧
      ∃ x ∈ xs, x.partitionId = q ∧ r.serverId = x.serverId ∧ r.state = .joining

variable {count : Nat}

theorem AddedAll.start (hok : ItemsOk count items) : AddedAll count items [] items :=
  ⟨hok, fun _ h => h, fun _ _ _ h => h, nofun, fun _ _ _ h => .inl h⟩

variable {t : Time} {m m' : GoMap Nat Partition}

theorem AddedAll.add {xs : List Add} {x : Add} (h : AddedAll count items xs m)
    (hx : addItem t m x = .ok m') : AddedAll count items (xs ++ [x]) m' := by
  obtain ⟨part, part', hg, ha, hi⟩ := addItem_touches h.ok.id hx
  have hat := replicaAt_touched hg hi ha.get
  -- the new name is not in use, so it was not in use before the loop
  have hfresh : replicaAt items x.partitionId
      (replicaName part.id (part.lastReplicaId + 1)) = none := by
    cases hr : replicaAt items x.partitionId (replicaName part.id (part.lastReplicaId + 1)) with
    | none => rfl
    | some r =>
      have hm := h.keep _ _ r hr
      rw [replicaAt_of_get hg, (h.ok.named _ part hg).fresh] at hm
      cases hm
  -- so a replica from before stays
  have hold : ∀ q name r, replicaAt items q name = some r → ¬(q = x.partitionId ∧
      name = replicaName part.id (part.lastReplicaId + 1)) := by
    rintro q name r hr ⟨rfl, rfl⟩
    rw [hfresh] at hr
    cases hr
  refine ⟨h.ok.addItem hx, fun q hn => h.nil q (addReplica_nilAt hx hn), fun q name r hr => ?_,
    fun y hy => ?_, fun q name r hr => ?_⟩
  · rw [hat, if_neg (hold q name r hr)]
    exact h.keep q name r hr
  · rcases List.mem_append.mp hy with hy | hy
    · obtain ⟨name, r, hnone, hr, hs⟩ := h.new y hy
      refine ⟨name, r, hnone, ?_, hs⟩
      rw [hat, if_neg]
      · exact hr
      · rintro ⟨hq, rfl⟩
        rw [hq, replicaAt_of_get hg, (h.ok.named _ part hg).fresh] at hr
        cases hr
    · cases List.mem_singleton.mp hy
      exact ⟨_, _, hfresh, (hat _ _).trans (if_pos ⟨rfl, rfl⟩), rfl, rfl⟩
  · rw [hat] at hr
    split at hr
    · next he =>
      obtain ⟨rfl, rfl⟩ := he
      cases hr
      exact .inr ⟨hfresh, x, by simp, rfl, rfl, rfl⟩
    · rcases h.only q name r hr with ho | ⟨ho, y, hy, hrest⟩
      · exact .inl ho
      · exact .inr ⟨ho, y, List.mem_append_left _ hy, hrest⟩

/-- A loop that makes replicas only writes to maps that were made before it. -/
theorem loop_made {α : Type} {key : α → Nat} {xs : List α}
    {op : GoMap Nat Partition → α → Go ApplyError (GoMap Nat Partition)}
    (hop : ∀ {m x m'}, ItemsOk count m → op m x = .ok m' → ItemsOk count m' ∧
      nilAt m (key x) = false ∧ ∀ q, q ≠ key x → m'.get q = m.get q)
    (hok : ItemsOk count items) (h : xs.foldlM op items = .ok m) :
    ∀ x ∈ xs, nilAt items (key x) = false := by
  -- a nil map is still there, and no item so far was for it
  have hall := foldlM_history (fun pre m => ItemsOk count m ∧ ∀ q, nilAt items q = true →
      (∀ x ∈ pre, key x ≠ q) ∧ m.get q = items.get q) h
    ⟨hok, fun _ _ => ⟨nofun, rfl⟩⟩ ?_
  · intro x hx
    rw [← Bool.not_eq_true]
    intro hnil
    exact (hall.2 _ hnil).1 x hx rfl
  · intro pre x post m m' _ hm hx
    obtain ⟨hok', hmade, hother⟩ := hop hm.1 hx
    refine ⟨hok', fun q hq => ?_⟩
    obtain ⟨hno, hget⟩ := hm.2 q hq
    have hne : q ≠ key x := by
      rintro rfl
      unfold nilAt at hmade hq
      rw [hget, hq] at hmade
      cases hmade
    refine ⟨fun y hy => ?_, (hother q hne).trans hget⟩
    rcases List.mem_append.mp hy with hy | hy
    · exact hno y hy
    · cases List.mem_singleton.mp hy
      exact hne.symm

/-! ## The loops over the changes and the removals -/

def stateAfter (us : List Update) (q : Nat) (name : String) (state : ReplicaState) :
    ReplicaState :=
  us.foldl (fun state x => if q = x.partitionId ∧ name = x.replica then x.state else state) state

theorem stateAfter_append (us : List Update) (x : Update) (q : Nat) (name : String)
    (state : ReplicaState) : stateAfter (us ++ [x]) q name state =
      if q = x.partitionId ∧ name = x.replica then x.state else stateAfter us q name state := by
  unfold stateAfter
  rw [List.foldl_append]
  rfl

def place (r : Replica) : Nat × ReplicaState := (r.serverId, r.state)

structure UpdatedAll (items : GoMap Nat Partition) (us : List Update) (m : GoMap Nat Partition) :
    Prop where
  present : ∀ q, (m.get q).isSome = (items.get q).isSome
  placed : ∀ q name, (replicaAt m q name).map place =
    (replicaAt items q name).map fun r => (r.serverId, stateAfter us q name r.state)

theorem UpdatedAll.update {us : List Update} {x : Update} (h : UpdatedAll items us m)
    (hx : updateItem t m x = .ok m') : UpdatedAll items (us ++ [x]) m' := by
  obtain ⟨r₁, hr₁, hat⟩ := updateItem_replicaAt hx
  refine ⟨fun q => ((updateItem_touches hx).isSome q).trans (h.present q), fun q name => ?_⟩
  have hi := h.placed q name
  rw [hat]
  by_cases he : q = x.partitionId ∧ name = x.replica
  · rw [he.1, he.2, hr₁] at hi
    obtain ⟨r, hr, hp⟩ := Option.map_eq_some_iff.mp hi.symm
    rw [if_pos he, he.1, he.2, hr, Option.map_some, Option.map_some, stateAfter_append,
      if_pos ⟨rfl, rfl⟩]
    exact congrArg (fun sid => some (sid, x.state)) (congrArg Prod.fst hp).symm
  · rw [if_neg he, hi]
    simp only [stateAfter_append, if_neg he]

structure RemovedAll (items : GoMap Nat Partition) (xs : List Remove) (m : GoMap Nat Partition) :
    Prop where
  present : ∀ q, (m.get q).isSome = (items.get q).isSome
  gone : ∀ x ∈ xs, replicaAt m x.partitionId x.replica = none
  keep : ∀ q name, (∀ x ∈ xs, ¬(q = x.partitionId ∧ name = x.replica)) →
    replicaAt m q name = replicaAt items q name

theorem RemovedAll.remove {xs : List Remove} {x : Remove} (h : RemovedAll items xs m)
    (hx : removeItem m x = .ok m') : RemovedAll items (xs ++ [x]) m' := by
  have hat := removeItem_replicaAt hx
  refine ⟨fun q => ((removeItem_touches hx).isSome q).trans (h.present q), fun y hy => ?_,
    fun q name hn => ?_⟩
  · rw [hat]
    split
    · rfl
    next hne =>
    rcases List.mem_append.mp hy with hy | hy
    · exact h.gone y hy
    · cases List.mem_singleton.mp hy
      exact absurd ⟨rfl, rfl⟩ hne
  · rw [hat, if_neg (hn x (by simp))]
    exact h.keep q name fun y hy => hn y (List.mem_append_left _ hy)

/-! ## The command -/

/-- The items of the command name what exists. -/
structure Applicable (items : GoMap Nat Partition) (cmd : UpdateAssignments) : Prop where
  add : ∀ x ∈ cmd.add, (items.get x.partitionId).isSome = true
  update : ∀ x ∈ cmd.update, (replicaAt items x.partitionId x.replica).isSome = true
  remove : ∀ x ∈ cmd.remove, (items.get x.partitionId).isSome = true

theorem applicable_of_validate {f : Fsm} {p : Partitions} {cmd : UpdateAssignments}
    (h : validateUpdateAssignments f p cmd = .ok ()) : Applicable p.items cmd := by
  obtain ⟨_, hadd, hupd, hrem⟩ := validateUpdateAssignments_ok.mp h
  refine ⟨fun x hx => ?_, fun x hx => ?_, fun x hx => ?_⟩
  · obtain ⟨_, _, part, hg, _⟩ := checkAdd_ok.mp (hadd x hx)
    rw [hg]
    rfl
  · obtain ⟨_, part, r, hg, hr, _⟩ := checkUpdate_ok.mp (hupd x hx)
    rw [replicaAt_of_get hg, hr]
    rfl
  · obtain ⟨_, part, _, hg, _⟩ := checkRemove_ok.mp (hrem x hx)
    rw [hg]
    rfl

structure Carried (count : Nat) (items : GoMap Nat Partition) (cmd : UpdateAssignments)
    (added items' : GoMap Nat Partition) : Prop where
  adds : AddedAll count items cmd.add added
  gone : ∀ x ∈ cmd.remove, replicaAt items' x.partitionId x.replica = none
  kept : ∀ q name, (∀ x ∈ cmd.remove, ¬(q = x.partitionId ∧ name = x.replica)) →
    (replicaAt items' q name).map place = (replicaAt added q name).map fun r =>
      (r.serverId, stateAfter cmd.update q name r.state)

/-- **An assignment command takes effect** if the maps it writes to are not nil. -/
theorem changeItems_effect {cmd : UpdateAssignments} (hok : ItemsOk count items)
    (hmade : ∀ x ∈ cmd.add, nilAt items x.partitionId = false) (hcmd : Applicable items cmd) :
    ∃ items' added, changeItems t items cmd = .ok items' ∧
      Carried count items cmd added items' := by
  obtain ⟨added, ha, hadded⟩ : ∃ added, cmd.add.foldlM (addItem t) items = .ok added ∧
      AddedAll count items cmd.add added := by
    refine foldlM_builds (m := Except _) (AddedAll count items) cmd.add (.start hok)
      fun pre x post m hxs hm => ?_
    have hsome : (m.get x.partitionId).isSome = true := by
      rw [hm.ok.present, ← hok.present]
      exact hcmd.add x (by simp [hxs])
    obtain ⟨part, hg⟩ := Option.isSome_iff_exists.mp hsome
    have hnil : nilAt m x.partitionId = false := Bool.eq_false_iff.mpr fun hn =>
      Bool.eq_false_iff.mp (hmade x (by simp [hxs])) (hm.nil _ hn)
    obtain ⟨m', hm'⟩ := addItem_progress (t := t) hg (hm.ok.id part hg) hnil
    exact ⟨m', hm', hm.add hm'⟩
  obtain ⟨updated, hu, hupdated⟩ : ∃ updated, cmd.update.foldlM (updateItem t) added =
      .ok updated ∧ UpdatedAll added cmd.update updated := by
    refine foldlM_builds (m := Except _) (UpdatedAll added) cmd.update
      ⟨fun _ => rfl, fun _ _ => rfl⟩ fun pre x post m hxs hm => ?_
    obtain ⟨r₀, hr₀⟩ := Option.isSome_iff_exists.mp (hcmd.update x (by simp [hxs]))
    have hat := hm.placed x.partitionId x.replica
    rw [hadded.keep _ _ r₀ hr₀] at hat
    obtain ⟨r, hr, _⟩ := Option.map_eq_some_iff.mp hat
    obtain ⟨m', hm'⟩ := updateItem_progress (t := t) hr
    exact ⟨m', hm', hm.update hm'⟩
  have hpresent : ∀ q, (updated.get q).isSome = (items.get q).isSome := by
    intro q
    rw [hupdated.present, Bool.eq_iff_iff, hadded.ok.present, hok.present]
  obtain ⟨removed, hr, hremoved⟩ : ∃ removed, cmd.remove.foldlM removeItem updated =
      .ok removed ∧ RemovedAll updated cmd.remove removed := by
    refine foldlM_builds (m := Except _) (RemovedAll updated) cmd.remove
      ⟨fun _ => rfl, nofun, fun _ _ _ => rfl⟩ fun pre x post m hxs hm => ?_
    have hsome : (m.get x.partitionId).isSome = true := by
      rw [hm.present, hpresent]
      exact hcmd.remove x (by simp [hxs])
    obtain ⟨m', hm'⟩ := removeItem_progress hsome
    exact ⟨m', hm', hm.remove hm'⟩
  obtain ⟨items', hb, hsome', hat'⟩ : ∃ items', cmd.changed.foldlM bumpVersion removed =
      .ok items' ∧ (∀ q, (items'.get q).isSome = (removed.get q).isSome) ∧
      ∀ q name, replicaAt items' q name = replicaAt removed q name := by
    refine foldlM_builds (m := Except _) (fun _ m => (∀ q, (m.get q).isSome =
      (removed.get q).isSome) ∧ ∀ q name, replicaAt m q name = replicaAt removed q name)
      cmd.changed ⟨fun _ => rfl, fun _ _ => rfl⟩ fun pre pid post m hxs hm => ?_
    have hsome : (m.get pid).isSome = true := by
      rw [hm.1, hremoved.present, hpresent]
      have hmem : pid ∈ cmd.changed := by simp [hxs]
      unfold UpdateAssignments.changed at hmem
      rw [List.mem_dedup, List.mem_append, List.mem_append] at hmem
      simp only [List.mem_map] at hmem
      rcases hmem with (⟨x, hx, rfl⟩ | ⟨x, hx, rfl⟩) | ⟨x, hx, rfl⟩
      · exact hcmd.add x hx
      · obtain ⟨r, hr⟩ := Option.isSome_iff_exists.mp (hcmd.update x hx)
        obtain ⟨part, hg, _⟩ := replicaAt_eq_some.mp hr
        rw [hg]
        rfl
      · exact hcmd.remove x hx
    obtain ⟨m', hm'⟩ := bumpVersion_progress hsome
    exact ⟨m', hm', fun q => ((bumpVersion_touches hm').isSome q).trans (hm.1 q),
      fun q name => (bumpVersion_replicaAt hm' q name).trans (hm.2 q name)⟩
  refine ⟨items', added, ?_, hadded, fun x hx => ?_, fun q name hn => ?_⟩
  · exact bind_eq_ok.mpr ⟨added, ha, bind_eq_ok.mpr ⟨updated, hu, bind_eq_ok.mpr ⟨removed, hr, hb⟩⟩⟩
  · rw [hat']
    exact hremoved.gone x hx
  · rw [hat', hremoved.keep q name hn]
    exact hupdated.placed q name

end Scout.Control
