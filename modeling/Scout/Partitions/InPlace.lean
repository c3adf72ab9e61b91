import Scout.Partitions.Limits
import Scout.Partitions.Rebalance

/-!
The planner as it works in memory. The sets of a state are maps, and a struct that is
copied shares them; `Clone` makes new ones, and the passes write to the maps of the
state that they are given.

Maps live in a heap. A plan on the heap follows the plan on values step by step, and
writes to the maps of its own copy only: those of the state it has started from stay
as they are.
-/

namespace Scout.Partitions.InPlace

open Lib Lib.GoMap Control

/-! ## The heap -/

inductive Side where
  | server
  | partition
  deriving DecidableEq

inductive SetName where
  | serving
  | joining
  | leaving
  deriving DecidableEq

/-- A map. It is named by what it was made for: the number of the copy, and the set. -/
structure Loc where
  copy : Nat
  side : Side
  key : Nat
  set : SetName
  deriving DecidableEq

/-- `ServerState` or `PartitionState`, with the locations of its maps. -/
structure SetRefs where
  id : Nat
  serving : Loc
  joining : Loc
  leaving : Loc

structure StateRefs where
  serv : AList fun _ : Nat => SetRefs
  part : AList fun _ : Nat => SetRefs
  replica : AList fun _ : Nat × Nat => ReplicaState
  joining : Int

/-- The number of copies made so far, and the content of every map. -/
structure Heap where
  copies : Nat
  cell : Loc → KeySet Nat

/-- A state and the heap that its maps are in. -/
structure Memory where
  heap : Heap
  state : StateRefs

def Heap.sets (h : Heap) (x : SetRefs) : Sets :=
  ⟨x.id, h.cell x.serving, h.cell x.joining, h.cell x.leaving⟩

/-- What is read through the locations. -/
def StateRefs.view (h : Heap) (c : StateRefs) : State :=
  ⟨mapContent h.sets c.serv, mapContent h.sets c.part, c.replica, c.joining⟩

def Memory.view (x : Memory) : State := x.state.view x.heap

def ownRefs (copy : Nat) (side : Side) (key id : Nat) : SetRefs :=
  ⟨id, ⟨copy, side, key, .serving⟩, ⟨copy, side, key, .joining⟩, ⟨copy, side, key, .leaving⟩⟩

def Sets.get (x : Sets) : SetName → KeySet Nat
  | .serving => x.serving
  | .joining => x.joining
  | .leaving => x.leaving

def Heap.alloc (h : Heap) (s : State) : Memory where
  heap :=
    { copies := h.copies + 1
      cell := fun l =>
        if l.copy = h.copies then
          match l.side with
          | .server => Sets.get (s.server l.key) l.set
          | .partition => Sets.get (s.partition l.key) l.set
        else h.cell l }
  state :=
    { serv := mapEntries (fun sid x => ownRefs h.copies .server sid x.id) s.serv
      part := mapEntries (fun pid y => ownRefs h.copies .partition pid y.id) s.part
      replica := s.replica
      joining := s.joining }

/-- `State.Clone`. -/
def clone (h : Heap) (c : StateRefs) : Memory := h.alloc (c.view h)

def Heap.write (h : Heap) (x : SetRefs) (y : Sets) : Heap :=
  { h with
    cell := fun l =>
      if l = x.serving then y.serving
      else if l = x.joining then y.joining
      else if l = x.leaving then y.leaving
      else h.cell l }

/-! ## The operations -/

namespace Memory

/-- Write to the maps of a server. The entry is stored again as it is: that changes
nothing but the order of the keys, which is then the one of `State.modify`. -/
def updateServer (x : Memory) (sid : Nat) (g : Sets → Sets) : Memory :=
  match x.state.serv.lookup sid with
  | some r => ⟨x.heap.write r (g (x.heap.sets r)),
      { x.state with serv := x.state.serv.insert sid r }⟩
  | none => x

def updatePartition (x : Memory) (pid : Nat) (g : Sets → Sets) : Memory :=
  match x.state.part.lookup pid with
  | some r => ⟨x.heap.write r (g (x.heap.sets r)),
      { x.state with part := x.state.part.insert pid r }⟩
  | none => x

def modify (x : Memory) (sid pid : Nat) (f : Nat → Sets → Sets) : Memory :=
  (x.updateServer sid (f pid)).updatePartition pid (f sid)

def addToJoining (x : Memory) (n : Int) : Memory :=
  { x with state := { x.state with joining := x.state.joining + n } }

def addJoining (x : Memory) (sid pid : Nat) : Option Memory :=
  if x.view.writable sid pid then
    some ((x.modify sid pid fun k y => { y with joining := y.joining.insert k }).addToJoining 1)
  else none

def transitionJoiningToServing (x : Memory) (sid pid : Nat) : Option Memory :=
  if x.view.writable sid pid then
    some ((x.modify sid pid fun k y =>
      { y with serving := y.serving.insert k, joining := y.joining.erase k }).addToJoining (-1))
  else none

def transitionServingToLeaving (x : Memory) (sid pid : Nat) : Option Memory :=
  if x.view.writable sid pid then
    some (x.modify sid pid fun k y =>
      { y with leaving := y.leaving.insert k, serving := y.serving.erase k })
  else none

def removeLeaving (x : Memory) (sid pid : Nat) : Memory :=
  x.modify sid pid fun k y => { y with leaving := y.leaving.erase k }

end Memory

/-! ## The passes -/

def removeIfReady (sid : Nat) (x : Memory) (pid : Nat) : Option Memory := do
  let replica ← x.view.getReplica sid pid
  if replica.ready then some (x.removeLeaving sid pid) else some x

def serveIfReady (sid : Nat) (x : Memory) (pid : Nat) : Option Memory := do
  let replica ← x.view.getReplica sid pid
  if replica.ready then x.transitionJoiningToServing sid pid else some x

section Passes

variable (config : Config) (ch : Choices)

def removeLeavingServer (x : Memory) (sid : Nat) : Option Memory :=
  let server := x.view.server sid
  (ch.order [0, sid] server.leaving.elems).foldlM (removeIfReady server.id) x

def removeLeaving (x : Memory) : Option Memory :=
  (ch.order [0] x.view.serv.keys).foldlM (removeLeavingServer ch) x

def transitionServer (x : Memory) (sid : Nat) : Option Memory :=
  let server := x.view.server sid
  (ch.order [1, sid] server.joining.elems).foldlM (serveIfReady server.id) x

def transitionToServing (x : Memory) : Option Memory :=
  (ch.order [1] x.view.serv.keys).foldlM (transitionServer ch) x

def addFirst (pid : Nat) : List Nat → Int → Memory → Option Memory
  | [], _, x => some x
  | sid :: candidates, count, x =>
    if count ≤ 0 then some x
    else if canAddReplica config x.view sid pid then do
      let x ← x.addJoining sid pid
      addFirst pid candidates (count - 1) x
    else addFirst pid candidates count x

def addMissing (x : Memory) (pid : Nat) : Option Memory :=
  let part := x.view.partition pid
  let count := min (config.replicationFactor - part.totalCount)
    (config.maxJoiningForPartition - part.joiningCount)
  if count ≤ 0 then some x
  else
    let candidates := (ch.order [2, pid] x.view.serv.keys).filter fun sid =>
      !x.view.hasReplica sid pid
    addFirst config pid (candidates.insertionSort (LessLoaded x.view)) count x

def leaveFirst (pid : Nat) : List Nat → Int → Memory → Option Memory
  | [], _, x => some x
  | sid :: candidates, count, x =>
    if count ≤ 0 then some x
    else do
      let x ← x.transitionServingToLeaving sid pid
      leaveFirst pid candidates (count - 1) x

def removeExtra (x : Memory) (pid : Nat) : Option Memory :=
  let part := x.view.partition pid
  let count := part.servingCount - config.replicationFactor
  if count ≤ 0 then some x
  else
    let candidates := ch.order [3, pid] part.serving.elems
    if candidates.all fun sid => (x.view.getReplica sid pid).isSome then
      leaveFirst pid (candidates.insertionSort (LeavesFirst x.view pid)) count x
    else none

def rebalance : Nat → Memory → Option Memory
  | 0, _ => none
  | fuel + 1, x =>
    match findMove config ch [4, fuel] x.view (byLoad ch [4, fuel] x.view) with
    | none => some x
    | some (dest, pid) => do
      let x ← x.addJoining dest pid
      rebalance fuel x

/-- `NextState`. -/
def nextState (h : Heap) (curr : StateRefs) : Option Memory := do
  let x ← removeLeaving ch (clone h curr)
  let x ← transitionToServing ch x
  let x ← (List.range curr.part.entries.length).foldlM (addMissing config ch) x
  let x ← (List.range curr.part.entries.length).foldlM (removeExtra config ch) x
  if 1 < x.view.maxImbalance then rebalance config ch (rebalanceFuel config x.view) x
  else some x

end Passes

/-! ## A memory with maps of its own -/

/-- The maps of the state are those of one copy, and no other map has changed. -/
structure Owns (n : Nat) (h₀ : Heap) (x : Memory) : Prop where
  serv : ∀ sid r, x.state.serv.lookup sid = some r → r = ownRefs n .server sid r.id
  part : ∀ pid r, x.state.part.lookup pid = some r → r = ownRefs n .partition pid r.id
  frame : ∀ l, l.copy ≠ n → x.heap.cell l = h₀.cell l

section Write

variable {h : Heap} {n k id : Nat} {a : Side} {y : Sets}

theorem write_sets_self (hid : y.id = id) :
    (h.write (ownRefs n a k id) y).sets (ownRefs n a k id) = y := by
  unfold Heap.write Heap.sets ownRefs
  subst hid
  simp

theorem write_sets_of_ne {b : Side} {j id' : Nat} (hne : ¬(b = a ∧ j = k)) :
    (h.write (ownRefs n a k id) y).sets (ownRefs n b j id') = h.sets (ownRefs n b j id') := by
  unfold Heap.write Heap.sets ownRefs
  have hloc : ∀ s t, (⟨n, b, j, s⟩ : Loc) ≠ ⟨n, a, k, t⟩ := by
    intro s t he
    rw [Loc.mk.injEq] at he
    exact hne ⟨he.2.1, he.2.2.1⟩
  simp only [hloc, if_false]

theorem write_cell_of_ne {l : Loc} (hl : l.copy ≠ n) :
    (h.write (ownRefs n a k id) y).cell l = h.cell l := by
  unfold Heap.write ownRefs
  have hloc : ∀ t, l ≠ ⟨n, a, k, t⟩ := by
    intro t he
    rw [he] at hl
    exact hl rfl
  simp only [hloc, if_false]

variable {m : AList fun _ : Nat => SetRefs}

theorem write_mapContent {r : SetRefs} (hr : m.lookup k = some r)
    (hown : ∀ j r, m.lookup j = some r → r = ownRefs n a j r.id) (hid : y.id = r.id) :
    mapContent (h.write r y).sets (m.insert k r) = (mapContent h.sets m).insert k y := by
  have hk := hown k r hr
  rw [mapContent_insert]
  have hself : (h.write r y).sets r = y := by
    rw [hk]
    exact write_sets_self hid
  rw [hself]
  refine mapContent_insert_congr y fun e he hne => ?_
  have hj := hown e.1 e.2 ((mem_entries_iff m e.1 e.2).mp he)
  rw [hk, hj]
  exact write_sets_of_ne fun hc => hne hc.2

theorem write_mapContent_other {b : Side} (hne : b ≠ a)
    (hown : ∀ j r, m.lookup j = some r → r = ownRefs n b j r.id) :
    mapContent (h.write (ownRefs n a k id) y).sets m = mapContent h.sets m := by
  refine mapContent_congr fun e he => ?_
  rw [hown e.1 e.2 ((mem_entries_iff m e.1 e.2).mp he)]
  exact write_sets_of_ne fun hc => hne hc.1

end Write

section Operations

variable {n : Nat} {h₀ : Heap} {x : Memory} {sid pid : Nat}

theorem Owns.updateServer (ho : Owns n h₀ x) (g : Sets → Sets) :
    Owns n h₀ (x.updateServer sid g) := by
  unfold Memory.updateServer
  cases hr : x.state.serv.lookup sid with
  | none => exact ho
  | some r =>
    refine ⟨fun k r' hr' => ?_, ho.part, fun l hl => ?_⟩
    · exact ho.serv k r' ((lookup_insert_same hr k).symm.trans hr')
    · rw [ho.serv sid r hr]
      exact (write_cell_of_ne hl).trans (ho.frame l hl)

theorem Owns.updatePartition (ho : Owns n h₀ x) (g : Sets → Sets) :
    Owns n h₀ (x.updatePartition pid g) := by
  unfold Memory.updatePartition
  cases hr : x.state.part.lookup pid with
  | none => exact ho
  | some r =>
    refine ⟨ho.serv, fun k r' hr' => ?_, fun l hl => ?_⟩
    · exact ho.part k r' ((lookup_insert_same hr k).symm.trans hr')
    · rw [ho.part pid r hr]
      exact (write_cell_of_ne hl).trans (ho.frame l hl)

theorem updateServer_view (ho : Owns n h₀ x) {g : Sets → Sets} (hg : ∀ y, (g y).id = y.id) :
    (x.updateServer sid g).view = { x.view with
      serv := match x.view.serv.lookup sid with
        | some y => x.view.serv.insert sid (g y)
        | none => x.view.serv } := by
  have hlookup : x.view.serv.lookup sid = (x.state.serv.lookup sid).map x.heap.sets :=
    lookup_mapContent _ _ _
  rw [hlookup]
  unfold Memory.updateServer
  cases hr : x.state.serv.lookup sid with
  | none => rfl
  | some r =>
    have hpart : mapContent (x.heap.write r (g (x.heap.sets r))).sets x.state.part =
        mapContent x.heap.sets x.state.part := by
      rw [ho.serv sid r hr]
      exact write_mapContent_other (b := .partition) nofun ho.part
    unfold Memory.view StateRefs.view
    dsimp only [Option.map_some]
    rw [write_mapContent hr ho.serv (hg _), hpart]

theorem updatePartition_view (ho : Owns n h₀ x) {g : Sets → Sets} (hg : ∀ y, (g y).id = y.id) :
    (x.updatePartition pid g).view = { x.view with
      part := match x.view.part.lookup pid with
        | some y => x.view.part.insert pid (g y)
        | none => x.view.part } := by
  have hlookup : x.view.part.lookup pid = (x.state.part.lookup pid).map x.heap.sets :=
    lookup_mapContent _ _ _
  rw [hlookup]
  unfold Memory.updatePartition
  cases hr : x.state.part.lookup pid with
  | none => rfl
  | some r =>
    have hserv : mapContent (x.heap.write r (g (x.heap.sets r))).sets x.state.serv =
        mapContent x.heap.sets x.state.serv := by
      rw [ho.part pid r hr]
      exact write_mapContent_other (b := .server) nofun ho.serv
    unfold Memory.view StateRefs.view
    dsimp only [Option.map_some]
    rw [write_mapContent hr ho.part (hg _), hserv]

theorem Owns.modify (ho : Owns n h₀ x) (f : Nat → Sets → Sets) :
    Owns n h₀ (x.modify sid pid f) := (ho.updateServer (f pid)).updatePartition (f sid)

theorem modify_view (ho : Owns n h₀ x) {f : Nat → Sets → Sets} (hf : ∀ k y, (f k y).id = y.id) :
    (x.modify sid pid f).view = x.view.modify sid pid f := by
  unfold Memory.modify
  rw [updatePartition_view (ho.updateServer (f pid)) (hf sid), updateServer_view ho (hf pid)]
  rfl

theorem Owns.addToJoining (ho : Owns n h₀ x) (i : Int) : Owns n h₀ (x.addToJoining i) :=
  ⟨ho.serv, ho.part, ho.frame⟩

theorem addToJoining_view (x : Memory) (i : Int) :
    (x.addToJoining i).view = { x.view with joining := x.view.joining + i } := rfl

end Operations

/-! ## The plan in memory follows the plan on values -/

/-- The computation in memory ends as the one on values, and keeps to its own maps. -/
def Follows (n : Nat) (h₀ : Heap) (x : Option Memory) (s : Option State) : Prop :=
  x.map Memory.view = s ∧ ∀ y, x = some y → Owns n h₀ y

section Follows

variable {n : Nat} {h₀ : Heap} {x : Memory}

theorem Follows.none : Follows n h₀ none none := ⟨rfl, nofun⟩

theorem Follows.some (ho : Owns n h₀ x) {s : State} (hs : x.view = s) :
    Follows n h₀ (some x) (some s) := by
  refine ⟨congrArg Option.some hs, fun y hy => ?_⟩
  cases hy
  exact ho

theorem Follows.bind {x : Option Memory} {s : Option State} {k : Memory → Option Memory}
    {j : State → Option State} (h : Follows n h₀ x s)
    (hk : ∀ y, Owns n h₀ y → Follows n h₀ (k y) (j y.view)) : Follows n h₀ (x >>= k) (s >>= j) := by
  obtain ⟨rfl, ho⟩ := h
  cases x with
  | none => exact .none
  | some y => exact hk y (ho y rfl)

theorem Follows.foldlM {k : Memory → Nat → Option Memory} {j : State → Nat → Option State}
    (hk : ∀ y a, Owns n h₀ y → Follows n h₀ (k y a) (j y.view a)) (as : List Nat)
    (ho : Owns n h₀ x) : Follows n h₀ (as.foldlM k x) (as.foldlM j x.view) := by
  induction as generalizing x with
  | nil => exact .some ho rfl
  | cons a as ih =>
    rw [List.foldlM_cons, List.foldlM_cons]
    exact (hk x a ho).bind fun y hy => ih hy

variable {sid pid : Nat}

theorem addJoining_follows (ho : Owns n h₀ x) :
    Follows n h₀ (x.addJoining sid pid) (x.view.addJoining sid pid) := by
  unfold Memory.addJoining State.addJoining
  split
  · refine .some ((ho.modify _).addToJoining 1) ?_
    rw [addToJoining_view, modify_view ho]
    exact fun _ _ => rfl
  · exact .none

theorem transitionJoiningToServing_follows (ho : Owns n h₀ x) :
    Follows n h₀ (x.transitionJoiningToServing sid pid)
      (x.view.transitionJoiningToServing sid pid) := by
  unfold Memory.transitionJoiningToServing State.transitionJoiningToServing
  split
  · refine .some ((ho.modify _).addToJoining (-1)) ?_
    rw [addToJoining_view, modify_view ho]
    · rfl
    · exact fun _ _ => rfl
  · exact .none

theorem transitionServingToLeaving_follows (ho : Owns n h₀ x) :
    Follows n h₀ (x.transitionServingToLeaving sid pid)
      (x.view.transitionServingToLeaving sid pid) := by
  unfold Memory.transitionServingToLeaving State.transitionServingToLeaving
  split
  · exact .some (ho.modify _) (modify_view ho fun _ _ => rfl)
  · exact .none

theorem removeIfReady_follows (ho : Owns n h₀ x) :
    Follows n h₀ (removeIfReady sid x pid) (Partitions.removeIfReady sid x.view pid) := by
  unfold removeIfReady Partitions.removeIfReady
  cases x.view.getReplica sid pid with
  | none => exact .none
  | some replica =>
    dsimp only [Option.bind_eq_bind, Option.bind_some]
    split
    · exact .some (ho.modify _) (modify_view ho fun _ _ => rfl)
    · exact .some ho rfl

theorem serveIfReady_follows (ho : Owns n h₀ x) :
    Follows n h₀ (serveIfReady sid x pid) (Partitions.serveIfReady sid x.view pid) := by
  unfold serveIfReady Partitions.serveIfReady
  cases x.view.getReplica sid pid with
  | none => exact .none
  | some replica =>
    dsimp only [Option.bind_eq_bind, Option.bind_some]
    split
    · exact transitionJoiningToServing_follows ho
    · exact .some ho rfl

variable {config : Config} {ch : Choices}

theorem removeLeaving_follows (ho : Owns n h₀ x) :
    Follows n h₀ (removeLeaving ch x) (Partitions.removeLeaving ch x.view) := by
  refine Follows.foldlM (fun y sid hy => ?_) _ ho
  exact Follows.foldlM (fun z pid hz => removeIfReady_follows hz) _ hy

theorem transitionToServing_follows (ho : Owns n h₀ x) :
    Follows n h₀ (transitionToServing ch x) (Partitions.transitionToServing ch x.view) := by
  refine Follows.foldlM (fun y sid hy => ?_) _ ho
  exact Follows.foldlM (fun z pid hz => serveIfReady_follows hz) _ hy

theorem addFirst_follows (candidates : List Nat) (count : Int) (ho : Owns n h₀ x) :
    Follows n h₀ (addFirst config pid candidates count x)
      (Partitions.addFirst config pid candidates count x.view) := by
  induction candidates generalizing count x with
  | nil => exact .some ho rfl
  | cons sid candidates ih =>
    unfold addFirst Partitions.addFirst
    split
    · exact .some ho rfl
    · split
      · exact (addJoining_follows ho).bind fun y hy => ih _ hy
      · exact ih _ ho

theorem addMissing_follows (ho : Owns n h₀ x) :
    Follows n h₀ (addMissing config ch x pid) (Partitions.addMissing config ch x.view pid) := by
  unfold addMissing Partitions.addMissing
  dsimp only
  split
  · exact .some ho rfl
  · exact addFirst_follows _ _ ho

theorem leaveFirst_follows (candidates : List Nat) (count : Int) (ho : Owns n h₀ x) :
    Follows n h₀ (leaveFirst pid candidates count x)
      (Partitions.leaveFirst pid candidates count x.view) := by
  induction candidates generalizing count x with
  | nil => exact .some ho rfl
  | cons sid candidates ih =>
    unfold leaveFirst Partitions.leaveFirst
    split
    · exact .some ho rfl
    · exact (transitionServingToLeaving_follows ho).bind fun y hy => ih _ hy

theorem removeExtra_follows (ho : Owns n h₀ x) :
    Follows n h₀ (removeExtra config ch x pid) (Partitions.removeExtra config ch x.view pid) := by
  unfold removeExtra Partitions.removeExtra
  dsimp only
  split
  · exact .some ho rfl
  · split
    · exact leaveFirst_follows _ _ ho
    · exact .none

theorem rebalance_follows (fuel : Nat) (ho : Owns n h₀ x) :
    Follows n h₀ (rebalance config ch fuel x) (Partitions.rebalance config ch fuel x.view) := by
  induction fuel generalizing x with
  | zero => exact .none
  | succ fuel ih =>
    unfold rebalance Partitions.rebalance
    cases findMove config ch [4, fuel] x.view (byLoad ch [4, fuel] x.view) with
    | none => exact .some ho rfl
    | some move => exact (addJoining_follows ho).bind fun y hy => ih hy

end Follows

/-! ## The copy -/

section Own

variable {h : Heap} {n : Nat} {a : Side} {m : AList fun _ : Nat => Sets}

theorem own_mapContent (hm : ∀ k y, m.lookup k = some y → h.sets (ownRefs n a k y.id) = y) :
    mapContent h.sets (mapEntries (fun k y => ownRefs n a k y.id) m) = m := by
  apply AList.ext
  show ((m.entries.map _).map _) = m.entries
  rw [List.map_map]
  refine (List.map_congr_left fun e he => ?_).trans (List.map_id _)
  show (⟨e.1, h.sets (ownRefs n a e.1 e.2.id)⟩ : Sigma fun _ => Sets) = e
  rw [hm e.1 e.2 ((mem_entries_iff m e.1 e.2).mp he)]

theorem own_lookup {k : Nat} {r : SetRefs}
    (hr : (mapEntries (fun k y => ownRefs n a k y.id) m).lookup k = some r) :
    r = ownRefs n a k r.id := by
  rw [lookup_mapEntries] at hr
  obtain ⟨y, _, rfl⟩ := Option.map_eq_some_iff.mp hr
  rfl

end Own

theorem alloc_view (h : Heap) (s : State) : (h.alloc s).view = s := by
  have hserv : mapContent (h.alloc s).heap.sets (h.alloc s).state.serv = s.serv := by
    refine own_mapContent fun sid y hy => ?_
    unfold Heap.sets ownRefs Heap.alloc
    dsimp only
    rw [if_pos rfl, if_pos rfl, if_pos rfl, server_of_lookup hy]
    rfl
  have hpart : mapContent (h.alloc s).heap.sets (h.alloc s).state.part = s.part := by
    refine own_mapContent fun pid y hy => ?_
    unfold Heap.sets ownRefs Heap.alloc
    dsimp only
    rw [if_pos rfl, if_pos rfl, if_pos rfl, partition_of_lookup hy]
    rfl
  unfold Memory.view StateRefs.view
  rw [hserv, hpart]
  rfl

theorem alloc_owns (h : Heap) (s : State) : Owns h.copies h (h.alloc s) :=
  ⟨fun _ _ hr => own_lookup hr, fun _ _ hr => own_lookup hr, fun _ hl => if_neg hl⟩

/-- The maps of the state have been made before. -/
def Allocated (h : Heap) (c : StateRefs) : Prop :=
  ∀ r, (∃ sid, c.serv.lookup sid = some r) ∨ (∃ pid, c.part.lookup pid = some r) →
    r.serving.copy < h.copies ∧ r.joining.copy < h.copies ∧ r.leaving.copy < h.copies

theorem alloc_allocated (h : Heap) (s : State) : Allocated (h.alloc s).heap (h.alloc s).state := by
  have ho := alloc_owns h s
  rintro r (⟨sid, hr⟩ | ⟨pid, hr⟩)
  · rw [ho.serv sid r hr]
    exact ⟨Nat.lt_succ_self _, Nat.lt_succ_self _, Nat.lt_succ_self _⟩
  · rw [ho.part pid r hr]
    exact ⟨Nat.lt_succ_self _, Nat.lt_succ_self _, Nat.lt_succ_self _⟩

/-- A state whose maps were made before the copy is not touched. -/
theorem Owns.view_eq {h : Heap} {x : Memory} {c : StateRefs} (ho : Owns h.copies h x)
    (ha : Allocated h c) : c.view x.heap = c.view h := by
  have hsets : ∀ r, (∃ sid, c.serv.lookup sid = some r) ∨ (∃ pid, c.part.lookup pid = some r) →
      x.heap.sets r = h.sets r := by
    intro r hr
    obtain ⟨h₁, h₂, h₃⟩ := ha r hr
    unfold Heap.sets
    rw [ho.frame _ h₁.ne, ho.frame _ h₂.ne, ho.frame _ h₃.ne]
  have hserv : mapContent x.heap.sets c.serv = mapContent h.sets c.serv :=
    mapContent_congr fun e he => hsets e.2 (.inl ⟨e.1, (mem_entries_iff c.serv e.1 e.2).mp he⟩)
  have hpart : mapContent x.heap.sets c.part = mapContent h.sets c.part :=
    mapContent_congr fun e he => hsets e.2 (.inr ⟨e.1, (mem_entries_iff c.part e.1 e.2).mp he⟩)
  unfold StateRefs.view
  rw [hserv, hpart]

theorem nextState_follows (config : Config) (ch : Choices) (h : Heap) (curr : StateRefs) :
    Follows h.copies h (nextState config ch h curr)
      (Partitions.nextState config ch (curr.view h)) := by
  have hcount : curr.part.entries.length = (curr.view h).partitionCount :=
    (List.length_map _).symm
  have ho : Owns h.copies h (clone h curr) := alloc_owns h _
  have hview : (clone h curr).view = curr.view h := alloc_view h _
  unfold nextState Partitions.nextState
  rw [hcount]
  refine Follows.bind (by rw [← hview]; exact removeLeaving_follows ho) fun x₁ ho₁ => ?_
  refine (transitionToServing_follows ho₁).bind fun x₂ ho₂ => ?_
  refine (Follows.foldlM (fun _ _ hy => addMissing_follows hy) _ ho₂).bind fun x₃ ho₃ => ?_
  refine (Follows.foldlM (fun _ _ hy => removeExtra_follows hy) _ ho₃).bind fun x₄ ho₄ => ?_
  split
  · exact rebalance_follows _ ho₄
  · exact .some ho₄ rfl

/-- **Planning is safe.** On a well-formed state a plan ends. It leaves the state that it
started from unchanged, and its result is well-formed again, with every new joining
replica within the limits and on a server that had none. -/
theorem nextState_safe (config : Config) (ch : Choices) (h : Heap) (curr : StateRefs)
    (ha : Allocated h curr) (hwf : WellFormed (curr.view h)) :
    ∃ next, nextState config ch h curr = some next ∧ curr.view next.heap = curr.view h ∧
      Partitions.nextState config ch (curr.view h) = some next.view ∧
      Safe config (curr.view h) next.view := by
  obtain ⟨s, hs, hsafe⟩ := nextState_keeps config ch hwf
  obtain ⟨hview, ho⟩ := nextState_follows config ch h curr
  rw [hs] at hview
  obtain ⟨next, hnext, rfl⟩ := Option.map_eq_some_iff.mp hview
  exact ⟨next, hnext, (ho next hnext).view_eq ha, hs, hsafe⟩

def emptyHeap : Heap := ⟨0, fun _ => .empty⟩

/-- A plan that moves replicas to the empty server. -/
theorem nextState_safe_oneSided : ∃ next,
    nextState ⟨1, 2, 2, 2⟩ inOrder (emptyHeap.alloc oneSided).heap
      (emptyHeap.alloc oneSided).state = some next ∧ Safe ⟨1, 2, 2, 2⟩ oneSided next.view := by
  have hview : (emptyHeap.alloc oneSided).state.view (emptyHeap.alloc oneSided).heap = oneSided :=
    alloc_view emptyHeap oneSided
  obtain ⟨next, hnext, _, _, hsafe⟩ := nextState_safe ⟨1, 2, 2, 2⟩ inOrder
    (emptyHeap.alloc oneSided).heap (emptyHeap.alloc oneSided).state
    (alloc_allocated emptyHeap oneSided)
    (by rw [hview]; exact wellFormed_of_checked (by decide))
  rw [hview] at hsafe
  exact ⟨next, hnext, hsafe⟩

end Scout.Partitions.InPlace
