import Mathlib.Data.List.Basic
import Mathlib.Logic.Function.Basic
import Scout.EventBus.Bus

/-!
The message bus with its goroutines (`bus.go`): publishers and subscribers take the lock,
send, close, delete and unlock in single steps, in any order.

A `TryPublish` that is not interrupted is the atomic one of `Bus.lean`.
-/

namespace Scout.EventBus.Interleaving

open Lib

/-! ## The source -/

structure Subscriber (τ M : Type) where
  ty : τ
  chan : Channel M
  closed : Bool
  unsubscribed : Bool
  /-- `Subscribe` has returned it. -/
  handed : Bool

/-- Where a goroutine is in the functions of the bus. -/
inductive Pos (τ M : Type) where
  | idle
  /-- `Publish`, which waits for room, or `TryPublish`, before the lock. -/
  | lockPublish (wait : Bool) (ty : τ) (msg : M)
  /-- In the loop over the map, with the entries that are left. -/
  | loop (wait : Bool) (ty : τ) (msg : M) (todo : List Nat)
  | send (wait : Bool) (ty : τ) (msg : M) (id : Nat) (todo : List Nat)
  | lockSubscribe (ty : τ) (bufferSize : Nat)
  | sendLast (id : Nat) (msg : M)
  | insert (id : Nat)
  | unlockSubscribe (id : Nat)
  | load (id : Nat)
  | store (id : Nat)
  | close (id : Nat)
  | lockUnsubscribe (id : Nat)
  | delete (id : Nat)
  | unlockUnsubscribe
  deriving DecidableEq

structure State (τ M : Type) where
  nextID : Nat
  /-- The goroutine that holds the lock. -/
  lock : Option Nat
  /-- The ids in the map. -/
  subs : List Nat
  lastMsg : τ → Option M
  /-- All subscribers that were ever made. -/
  sub : Nat → Option (Subscriber τ M)
  pos : Nat → Pos τ M
  panics : Nat

inductive Op (τ M : Type) where
  | publish (ty : τ) (msg : M)
  | tryPublish (ty : τ) (msg : M)
  | subscribe (ty : τ) (bufferSize : Nat)
  | unsubscribe (id : Nat)

inductive Event (τ M : Type) where
  | call (g : Nat) (op : Op τ M)
  /-- The loop of the goroutine goes on to an entry; the order is that of a Go map. -/
  | visit (g id : Nat)
  | go (g : Nat)
  | receive (id : Nat)

variable {τ M : Type}

namespace State

def new : State τ M := ⟨0, none, [], fun _ => none, fun _ => none, fun _ => .idle, 0⟩

def goto (s : State τ M) (g : Nat) (p : Pos τ M) : State τ M :=
  { s with pos := Function.update s.pos g p }

def setSub (s : State τ M) (id : Nat) (sub : Subscriber τ M) : State τ M :=
  { s with sub := Function.update s.sub id (some sub) }

/-- The goroutine unwinds to its caller; the functions that panic under the lock release it in
a deferred call. -/
def panicked (s : State τ M) (g : Nat) : State τ M :=
  { s.goto g .idle with
    lock := if s.lock = some g then none else s.lock
    panics := s.panics + 1 }

end State

section Step

variable [DecidableEq τ]

def call (s : State τ M) (g : Nat) : Op τ M → Option (State τ M)
  | .publish ty msg => some (s.goto g (.lockPublish true ty msg))
  | .tryPublish ty msg => some (s.goto g (.lockPublish false ty msg))
  | .subscribe ty bufferSize => some (s.goto g (.lockSubscribe ty bufferSize))
  | .unsubscribe id => do
    let sub ← s.sub id
    if sub.handed then some (s.goto g (.load id)) else none

def visit (s : State τ M) (g id : Nat) : Pos τ M → Option (State τ M)
  | .loop wait ty msg todo => do
    let sub ← s.sub id
    if id ∈ todo then
      if sub.ty = ty then some (s.goto g (.send wait ty msg id (todo.erase id)))
      else some (s.goto g (.loop wait ty msg (todo.erase id)))
    else none
  | _ => none

theorem max_one_pos (n : Nat) : 0 < max n 1 := by omega

/-- What the goroutine does next; `none` where it waits. -/
def go (s : State τ M) (g : Nat) : Pos τ M → Option (State τ M)
  | .idle => none
  -- the last message is only used under the lock, so it is set together with it
  | .lockPublish wait ty msg =>
    if s.lock = none then
      some { s.goto g (.loop wait ty msg s.subs) with
        lock := some g
        lastMsg := Function.update s.lastMsg ty (some msg) }
    else none
  | .loop _ _ _ todo => if todo = [] then some { s.goto g .idle with lock := none } else none
  | .send wait ty msg id todo => do
    let sub ← s.sub id
    if sub.closed then some (s.panicked g)
    else if sub.chan.hasRoom then
      some ((s.setSub id { sub with chan := sub.chan.trySend msg }).goto g
        (.loop wait ty msg todo))
    else if wait then none
    else some (s.goto g (.loop wait ty msg todo))
  | .lockSubscribe ty bufferSize =>
    if s.lock = none then
      let id := s.nextID + 1
      let sub : Subscriber τ M :=
        ⟨ty, .make (max bufferSize 1) (max_one_pos bufferSize), false, false, false⟩
      let next := match s.lastMsg ty with
        | some msg => .sendLast id msg
        | none => .insert id
      some { (s.setSub id sub).goto g next with lock := some g, nextID := id }
    else none
  | .sendLast id msg => do
    let sub ← s.sub id
    if sub.closed then some (s.panicked g)
    else if sub.chan.hasRoom then
      some ((s.setSub id { sub with chan := sub.chan.trySend msg }).goto g (.insert id))
    else none
  | .insert id => some { s.goto g (.unlockSubscribe id) with subs := id :: s.subs }
  | .unlockSubscribe id => do
    let sub ← s.sub id
    some { (s.setSub id { sub with handed := true }).goto g .idle with lock := none }
  | .load id => do
    let sub ← s.sub id
    if sub.unsubscribed then some (s.panicked g) else some (s.goto g (.store id))
  | .store id => do
    let sub ← s.sub id
    some ((s.setSub id { sub with unsubscribed := true }).goto g (.close id))
  | .close id => do
    let sub ← s.sub id
    if sub.closed then some (s.panicked g)
    else some ((s.setSub id { sub with closed := true }).goto g (.lockUnsubscribe id))
  | .lockUnsubscribe id =>
    if s.lock = none then some { s.goto g (.delete id) with lock := some g } else none
  | .delete id => some { s.goto g .unlockUnsubscribe with subs := s.subs.erase id }
  | .unlockUnsubscribe => some { s.goto g .idle with lock := none }

def receive (s : State τ M) (id : Nat) : Option (State τ M) := do
  let sub ← s.sub id
  let (_, chan) ← sub.chan.receive
  return s.setSub id { sub with chan := chan }

def step (s : State τ M) : Event τ M → Option (State τ M)
  | .call g op => if s.pos g matches .idle then call s g op else none
  | .visit g id => visit s g id (s.pos g)
  | .go g => go s g (s.pos g)
  | .receive id => receive s id

end Step

/-! ## The atomic bus -/

section Atomic

variable [DecidableEq τ] {s : State τ M} {g : Nat} {ty : τ} {msg : M}

def State.busOf (s : State τ M) (ty : τ) : MessageBus M where
  nextID := s.nextID
  subs := s.subs.filterMap fun id => (s.sub id).bind fun sub =>
    if sub.ty = ty then some ⟨id, sub.chan, []⟩ else none
  lastMsg := s.lastMsg ty

/-- A subscriber after the loop of `TryPublish`. -/
def Subscriber.served (ty : τ) (msg : M) (sub : Subscriber τ M) : Subscriber τ M :=
  if sub.ty = ty then { sub with chan := sub.chan.trySend msg } else sub

theorem Subscriber.served_self {sub : Subscriber τ M} (h : sub.ty = ty → sub.chan.hasRoom = false) :
    sub.served ty msg = sub := by
  unfold Subscriber.served
  split
  · next hty => rw [sub.chan.trySend_full (h hty)]
  · rfl

/-- **Step.** An entry of the map is served. -/
theorem tryPublish_entry {id : Nat} {todo : List Nat} {sub : Subscriber τ M}
    (hp : s.pos g = .loop false ty msg todo) (hmem : id ∈ todo) (hsub : s.sub id = some sub)
    (hopen : sub.closed = false) :
    runSteps step s (.visit g id :: if sub.ty = ty then [.go g] else []) =
      some ((s.setSub id (sub.served ty msg)).goto g (.loop false ty msg (todo.erase id))) := by
  have hsame : sub.served ty msg = sub → s.setSub id (sub.served ty msg) = s := by
    intro hserved
    rw [hserved, State.setSub, ← hsub, Function.update_eq_self]
  by_cases hty : sub.ty = ty
  · cases hroom : sub.chan.hasRoom with
    | true =>
      simp [runSteps, step, visit, hp, hsub, hty, go, hopen, hroom, Subscriber.served,
        State.goto, State.setSub, hmem]
    | false =>
      rw [hsame (Subscriber.served_self fun _ => hroom)]
      simp [runSteps, step, visit, hp, hsub, hty, go, hopen, hroom, State.goto, hmem]
  · rw [hsame (Subscriber.served_self fun h => absurd h hty)]
    simp [runSteps, step, visit, hp, hsub, hty, hmem]

/-- The goroutine goes through entries of the map in this order, with a select for each
subscriber of the type. -/
def serving (g : Nat) (typed : Nat → Bool) (order : List Nat) : List (Event τ M) :=
  order.flatMap fun id => .visit g id :: if typed id then [.go g] else []

theorem tryPublish_loop {typed : Nat → Bool} {order todo : List Nat}
    (hp : s.pos g = .loop false ty msg todo) (horder : order.Perm todo) (hnodup : order.Nodup)
    (hopen : ∀ id ∈ order, ∃ sub, s.sub id = some sub ∧ sub.closed = false ∧
      typed id = decide (sub.ty = ty)) :
    runSteps step s (serving g typed order) = some { s.goto g (.loop false ty msg []) with
      sub := fun id =>
        if id ∈ order then (s.sub id).map (Subscriber.served ty msg) else s.sub id } := by
  induction order generalizing s todo with
  | nil =>
    cases horder.nil_eq
    have hpos : Function.update s.pos g (.loop false ty msg []) = s.pos := by
      rw [← hp, Function.update_eq_self]
    simp [serving, runSteps, State.goto, hpos]
  | cons id order ih =>
    obtain ⟨hid, hnodup⟩ := List.nodup_cons.mp hnodup
    obtain ⟨sub, hsub, hsubopen, htyped⟩ := hopen id (by simp)
    -- the state when the first entry is served
    let s₁ := (s.setSub id (sub.served ty msg)).goto g (.loop false ty msg (todo.erase id))
    have hfirst : runSteps step s (.visit g id :: if typed id then [.go g] else []) = some s₁ := by
      simpa only [htyped, decide_eq_true_eq] using
        tryPublish_entry hp (horder.subset (by simp)) hsub hsubopen
    have hrest := ih (s := s₁) (Function.update_self ..)
      (List.cons_perm_iff_perm_erase.mp horder).2 hnodup (by
        intro i hi
        have hne : i ≠ id := fun h => hid (h ▸ hi)
        obtain ⟨subᵢ, hsubᵢ, hopenᵢ⟩ := hopen i (List.mem_cons_of_mem _ hi)
        exact ⟨subᵢ, (Function.update_of_ne hne ..).trans hsubᵢ, hopenᵢ⟩)
    refine (runSteps_append step hfirst hrest).trans ?_
    have hsubs :
        (fun i => if i ∈ order then (s₁.sub i).map (Subscriber.served ty msg) else s₁.sub i) =
        fun i => if i ∈ id :: order then (s.sub i).map (Subscriber.served ty msg) else s.sub i := by
      funext i
      by_cases hi : i = id
      · subst hi
        simp [hid, s₁, State.goto, State.setSub, hsub]
      · simp [hi, s₁, State.goto, State.setSub]
    rw [hsubs]
    simp [s₁, State.goto, State.setSub]

/-- The state after a `TryPublish`. -/
def State.published (s : State τ M) (ty : τ) (msg : M) : State τ M :=
  { s with
    lastMsg := Function.update s.lastMsg ty (some msg)
    sub := fun id => if id ∈ s.subs then (s.sub id).map (Subscriber.served ty msg) else s.sub id }

theorem busOf_published (other : τ) : (s.published ty msg).busOf other =
    if other = ty then ((s.busOf ty).tryPublish msg).1 else s.busOf other := by
  have hsub : ∀ id ∈ s.subs, (s.published ty msg).sub id = (s.sub id).map (.served ty msg) :=
    fun id hid => if_pos hid
  split
  · next heq =>
    subst heq
    simp only [State.busOf, MessageBus.tryPublish, List.map_filterMap, MessageBus.mk.injEq]
    refine ⟨rfl, List.filterMap_congr fun id hid => ?_, Function.update_self ..⟩
    rw [hsub id hid]
    cases s.sub id with
    | none => rfl
    | some sub => by_cases hty : sub.ty = other <;> simp [Subscriber.served, hty]
  · next hne =>
    simp only [State.busOf, MessageBus.mk.injEq]
    refine ⟨rfl, List.filterMap_congr fun id hid => ?_, Function.update_of_ne hne ..⟩
    rw [hsub id hid]
    cases s.sub id with
    | none => rfl
    | some sub => by_cases hty : sub.ty = ty <;> simp [Subscriber.served, hty, Ne.symm hne]

/-- The steps of the goroutine itself in a `TryPublish`, with the entries of the map in this
order: it takes the lock, goes through the map and unlocks. -/
def State.publishing (s : State τ M) (g : Nat) (ty : τ) (order : List Nat) : List (Event τ M) :=
  .go g :: serving g (fun id => (s.sub id).any fun sub => sub.ty = ty) order ++ [.go g]

theorem mem_publishing {order : List Nat} {e : Event τ M} (h : e ∈ s.publishing g ty order) :
    e = .go g ∨ ∃ id, e = .visit g id := by
  simp only [State.publishing, serving, List.cons_append, List.mem_cons, List.mem_append,
    List.mem_flatMap, List.not_mem_nil, or_false] at h
  rcases h with rfl | ⟨id, _, rfl | hgo⟩ | rfl
  · exact .inl rfl
  · exact .inr ⟨id, rfl⟩
  · split at hgo
    · exact .inl (List.mem_singleton.mp hgo)
    · cases hgo
  · exact .inl rfl

/-- **The atomic bus.** A `TryPublish` that is not interrupted is the `tryPublish` of the bus of its
type, whatever the order of the map, and the buses of the other types stay as they are. -/
theorem tryPublish_uninterrupted {order : List Nat} (ty : τ) (msg : M) (hp : s.pos g = .idle)
    (hfree : s.lock = none) (hnodup : s.subs.Nodup)
    (hopen : ∀ id ∈ s.subs, ∃ sub, s.sub id = some sub ∧ sub.closed = false)
    (horder : order.Perm s.subs) :
    (∀ e ∈ s.publishing g ty order, e = .go g ∨ ∃ id, e = .visit g id) ∧
    ∃ s', runSteps step s (.call g (.tryPublish ty msg) :: s.publishing g ty order) = some s' ∧
      s'.pos = s.pos ∧ s'.lock = none ∧ s'.busOf ty = ((s.busOf ty).tryPublish msg).1 ∧
      ∀ other, other ≠ ty → s'.busOf other = s.busOf other := by
  let s₁ : State τ M := { s.goto g (.loop false ty msg s.subs) with
    lock := some g, lastMsg := Function.update s.lastMsg ty (some msg) }
  have hstart : runSteps step s [.call g (.tryPublish ty msg), .go g] = some s₁ := by
    simp [runSteps, step, hp, call, go, State.goto, hfree, s₁]
  have htyped : ∀ id ∈ order, ∃ sub, s₁.sub id = some sub ∧ sub.closed = false ∧
      (s.sub id).any (fun sub => sub.ty = ty) = decide (sub.ty = ty) := by
    intro id hid
    obtain ⟨sub, hsub, hopen⟩ := hopen id (horder.subset hid)
    exact ⟨sub, hsub, hopen, by simp [hsub]⟩
  have hpos : s₁.pos g = .loop false ty msg s.subs := Function.update_self ..
  have hloop := tryPublish_loop hpos horder (horder.nodup_iff.mpr hnodup) htyped
  have hidle : Function.update s.pos g .idle = s.pos := by rw [← hp, Function.update_eq_self]
  refine ⟨fun e he => mem_publishing he, s.published ty msg, ?_, rfl, hfree,
    (busOf_published ty).trans (if_pos rfl),
    fun other hne => (busOf_published other).trans (if_neg hne)⟩
  apply runSteps_append step (runSteps_append step hstart hloop)
  simp [runSteps, step, go, State.goto, s₁, hidle, State.published, hfree, horder.mem_iff]

end Atomic

/-- Two subscribers of one type, the first with a full buffer, and one of another type. -/
def threeSubscribers : State Nat Nat := { State.new with
  nextID := 3
  subs := [3, 2, 1]
  sub := fun id =>
    if id = 1 then some ⟨1, ⟨1, [5], by decide, by decide⟩, false, false, true⟩
    else if id = 2 then some ⟨1, .make 1 Nat.one_pos, false, false, true⟩
    else if id = 3 then some ⟨2, .make 1 Nat.one_pos, false, false, true⟩
    else none }

theorem tryPublish_uninterrupted_threeSubscribers : ∃ s',
    runSteps step threeSubscribers [.call 0 (.tryPublish 1 7), .go 0, .visit 0 2, .go 0,
      .visit 0 3, .visit 0 1, .go 0, .go 0] = some s' ∧
    (s'.busOf 1).subs.map (fun sub => sub.chan.queue) = [[7], [5]] ∧
    s'.busOf 2 = threeSubscribers.busOf 2 := by
  obtain ⟨_, s', hrun, _, _, hbus, hother⟩ := tryPublish_uninterrupted (s := threeSubscribers)
    (g := 0) 1 7 rfl rfl (by decide) (by simp [threeSubscribers])
    (by decide : [2, 3, 1].Perm threeSubscribers.subs)
  refine ⟨s', hrun, ?_, hother 2 (by decide)⟩
  rw [hbus]
  decide

end Scout.EventBus.Interleaving
