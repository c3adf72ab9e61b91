import Scout.Lib.Runs

/-!
The message bus inside a process, for the messages of one type, and the session that
publishes configurations on it. A subscriber has a channel with a bounded buffer.
`tryPublish` skips the subscribers whose buffer is full, so a message can be lost; a
new subscriber starts with the last message.

The session publishes a message when its ETag is new, and records the ETag whether or
not every subscriber has got the message.
-/

namespace Scout.EventBus

open Lib

/-! ## Channels -/

/-- A channel with its buffer, the oldest message first. -/
structure Channel (T : Type) where
  size : Nat
  queue : List T
  pos : 0 < size
  fits : queue.length ≤ size

namespace Channel

variable {T : Type}

/-- An empty channel. -/
def make (size : Nat) (pos : 0 < size) : Channel T := ⟨size, [], pos, Nat.zero_le _⟩

def hasRoom (c : Channel T) : Bool := decide (c.queue.length < c.size)

def trySend (c : Channel T) (msg : T) : Channel T :=
  if h : c.queue.length < c.size then
    { c with queue := c.queue ++ [msg], fits := by rw [List.length_append]; exact h }
  else c

theorem trySend_queue {c : Channel T} (h : c.hasRoom = true) (msg : T) :
    (c.trySend msg).queue = c.queue ++ [msg] := by
  unfold trySend
  rw [dif_pos (of_decide_eq_true h)]

theorem trySend_full (c : Channel T) (h : c.hasRoom = false) (msg : T) : c.trySend msg = c := by
  unfold trySend
  rw [dif_neg (of_decide_eq_false h)]

theorem hasRoom_make (size : Nat) (pos : 0 < size) : (make size pos : Channel T).hasRoom = true :=
  decide_eq_true pos

def receive : Channel T → Option (T × Channel T)
  | ⟨_, [], _, _⟩ => none
  | ⟨size, msg :: queue, pos, fits⟩ => some (msg, ⟨size, queue, pos, Nat.le_of_succ_le fits⟩)

theorem receive_queue {c c' : Channel T} {msg : T} (h : c.receive = some (msg, c')) :
    c.queue = msg :: c'.queue := by
  obtain ⟨size, queue, pos, fits⟩ := c
  cases queue with
  | nil => cases h
  | cons m queue =>
    cases h
    rfl

theorem receive_of_full {c : Channel T} (h : c.hasRoom = false) :
    ∃ msg c', c.receive = some (msg, c') ∧ c'.hasRoom = true := by
  obtain ⟨size, queue, pos, fits⟩ := c
  have hfull : size ≤ queue.length := Nat.le_of_not_lt (of_decide_eq_false h)
  cases queue with
  | nil =>
    rw [List.length_nil] at hfull
    omega
  | cons msg queue => exact ⟨msg, _, rfl, decide_eq_true fits⟩

end Channel

/-! ## The bus -/

structure Subscriber (T : Type) where
  id : Nat
  chan : Channel T
  received : List T

def Subscriber.take {T : Type} (sub : Subscriber T) : Subscriber T :=
  match sub.chan.receive with
  | some (msg, chan) => { sub with chan := chan, received := sub.received ++ [msg] }
  | none => sub

theorem Subscriber.take_all {T : Type} (sub : Subscriber T) :
    sub.take.received ++ sub.take.chan.queue = sub.received ++ sub.chan.queue := by
  unfold Subscriber.take
  split
  · next msg chan h =>
    rw [Channel.receive_queue h, List.append_assoc]
    rfl
  · rfl

structure MessageBus (T : Type) where
  nextID : Nat
  subs : List (Subscriber T)
  lastMsg : Option T

namespace MessageBus

variable {T : Type}

def new : MessageBus T := ⟨0, [], none⟩

/-- The last message is enqueued. The channel is new, so there is room for it. -/
def addSubscriber (bus : MessageBus T) (chan : Channel T) : MessageBus T :=
  let id := bus.nextID + 1
  let chan := match bus.lastMsg with
    | some msg => chan.trySend msg
    | none => chan
  { bus with nextID := id, subs := bus.subs ++ [⟨id, chan, []⟩] }

def subscribe (bus : MessageBus T) (bufferSize : Nat) : MessageBus T :=
  bus.addSubscriber (.make (max bufferSize 1) (by omega))

/-- The answer starts as false, so it is never true. -/
def tryPublish (bus : MessageBus T) (msg : T) : MessageBus T × Bool :=
  ({ bus with
    lastMsg := some msg
    subs := bus.subs.map fun sub => { sub with chan := sub.chan.trySend msg } },
   bus.subs.foldl (fun all sub => if sub.chan.hasRoom then all else false) false)

def receive (bus : MessageBus T) (id : Nat) : Option (MessageBus T) :=
  if bus.subs.any fun sub => sub.id == id && !sub.chan.queue.isEmpty then
    some { bus with subs := bus.subs.map fun sub =>
      if sub.id = id then sub.take else sub }
  else none

def unsubscribe (bus : MessageBus T) (id : Nat) : MessageBus T :=
  { bus with subs := bus.subs.filter fun sub => sub.id != id }

end MessageBus

/-! ## The session -/

structure Process (T : Type) where
  bus : MessageBus T
  etag : String

inductive Event (T : Type) where
  | subscribe (bufferSize : Nat)
  | tryPublish (msg : T)
  | receive (id : Nat)
  | unsubscribe (id : Nat)
  /-- The session gets a message from the control plane. -/
  | publish (newETag : String) (msg : T)

namespace Process

variable {T : Type}

def new : Process T := ⟨.new, ""⟩

def publish (p : Process T) (newETag : String) (msg : T) : Process T :=
  if p.etag = newETag then p else ⟨(p.bus.tryPublish msg).1, newETag⟩

def step (p : Process T) : Event T → Option (Process T)
  | .subscribe bufferSize => some { p with bus := p.bus.subscribe bufferSize }
  | .tryPublish msg => some { p with bus := (p.bus.tryPublish msg).1 }
  | .receive id => (p.bus.receive id).map fun bus => { p with bus := bus }
  | .unsubscribe id => some { p with bus := p.bus.unsubscribe id }
  | .publish newETag msg => some (p.publish newETag msg)

/-- The message that an event gives to TryPublish. -/
def published (p : Process T) : Event T → Option T
  | .tryPublish msg => some msg
  | .publish newETag msg => if p.etag = newETag then none else some msg
  | .subscribe _ | .receive _ | .unsubscribe _ => none

def Ready (p : Process T) : Prop := ∀ sub ∈ p.bus.subs, sub.chan.hasRoom = true
  deriving Decidable

/-! ## The latest message -/

/-- The message is the last one that each subscriber has received or will receive, and
the one that a new subscriber starts with. -/
structure Latest (msg : T) (p : Process T) : Prop where
  last : p.bus.lastMsg = some msg
  subs : ∀ sub ∈ p.bus.subs, (sub.received ++ sub.chan.queue).getLast? = some msg

variable {p p' : Process T} {e : Event T}

theorem published_some {msg : T} (he : p.published e = some msg) (hs : p.step e = some p') :
    p'.bus = (p.bus.tryPublish msg).1 ∧
      ∀ newETag m, e = .publish newETag m → p'.etag = newETag := by
  cases e with
  | tryPublish m =>
    cases he
    cases hs
    exact ⟨rfl, nofun⟩
  | publish newETag m =>
    rw [published] at he
    split at he
    · cases he
    next hne =>
    cases he
    cases hs
    rw [publish, if_neg hne]
    refine ⟨rfl, fun newETag' m' heq => ?_⟩
    cases heq
    rfl
  | subscribe n => cases he
  | receive id => cases he
  | unsubscribe id => cases he

theorem published_none (he : p.published e = none) (hs : p.step e = some p') :
    p'.etag = p.etag ∧ p'.bus.lastMsg = p.bus.lastMsg ∧
      ∀ sub ∈ p'.bus.subs, (∃ n, e = .subscribe n ∧ sub.received = [] ∧
          sub.chan.queue = p.bus.lastMsg.toList) ∨
        ∃ sub₀ ∈ p.bus.subs, sub.received ++ sub.chan.queue = sub₀.received ++ sub₀.chan.queue := by
  cases e with
  | tryPublish m => cases he
  | publish newETag m =>
    rw [published] at he
    split at he
    · next heq =>
      cases hs
      rw [publish, if_pos heq]
      exact ⟨rfl, rfl, fun sub hsub => .inr ⟨sub, hsub, rfl⟩⟩
    · cases he
  | subscribe n =>
    cases hs
    refine ⟨rfl, rfl, fun sub hsub => ?_⟩
    rcases List.mem_append.mp hsub with hold | hnew
    · exact .inr ⟨sub, hold, rfl⟩
    obtain rfl := List.mem_singleton.mp hnew
    refine .inl ⟨n, rfl, rfl, ?_⟩
    cases p.bus.lastMsg with
    | none => rfl
    | some msg => exact Channel.trySend_queue (Channel.hasRoom_make _ _) msg
  | receive id =>
    obtain ⟨bus, hr, rfl⟩ := Option.map_eq_some_iff.mp hs
    unfold MessageBus.receive at hr
    split at hr
    · cases hr
      refine ⟨rfl, rfl, fun sub hsub => ?_⟩
      obtain ⟨sub₀, h₀, rfl⟩ := List.mem_map.mp hsub
      refine .inr ⟨sub₀, h₀, ?_⟩
      split
      · exact sub₀.take_all
      · rfl
    · cases hr
  | unsubscribe id =>
    cases hs
    exact ⟨rfl, rfl, fun sub hsub => .inr ⟨sub, (List.mem_filter.mp hsub).1, rfl⟩⟩

theorem Ready.latest {msg : T} (h : p.Ready) (he : p.published e = some msg)
    (hs : p.step e = some p') : Latest msg p' := by
  obtain ⟨hbus, _⟩ := published_some he hs
  refine ⟨by rw [hbus]; rfl, fun sub hsub => ?_⟩
  rw [hbus] at hsub
  obtain ⟨sub₀, h₀, rfl⟩ := List.mem_map.mp hsub
  rw [Channel.trySend_queue (h sub₀ h₀), ← List.append_assoc, List.getLast?_concat]

theorem Latest.step {msg : T} (h : Latest msg p) (he : p.published e = none)
    (hs : p.step e = some p') : Latest msg p' := by
  obtain ⟨_, hlast, hsubs⟩ := published_none he hs
  refine ⟨hlast.trans h.last, fun sub hsub => ?_⟩
  rcases hsubs sub hsub with ⟨_, _, hrec, hqueue⟩ | ⟨sub₀, h₀, hsame⟩
  · rw [hrec, hqueue, h.last]
    rfl
  · rw [hsame]
    exact h.subs sub₀ h₀

/-- **Subscribers end up with the latest message** if there is room for it in every
channel when it is published. If it is the session's, the recorded ETag is that of the
message. -/
theorem latest_received {p₁ p₂ p₃ : Process T} {e : Event T} {msg : T} {after : List (Event T)}
    (he : p₁.published e = some msg) (hready : p₁.Ready) (hpublish : p₁.step e = some p₂)
    (hafter : runSteps step p₂ after = some p₃)
    (hstopped : StepsMeet step (fun p e => p.published e = none) p₂ after) :
    (∀ sub ∈ p₃.bus.subs, (sub.received ++ sub.chan.queue).getLast? = some msg) ∧
    ((∀ sub ∈ p₃.bus.subs, sub.chan.queue = []) →
      ∀ sub ∈ p₃.bus.subs, sub.received.getLast? = some msg) ∧
    ∀ newETag, e = .publish newETag msg → p₃.etag = newETag := by
  have hlatest : Latest msg p₃ ∧ p₃.etag = p₂.etag :=
    runSteps_invariant step (fun p => Latest msg p ∧ p.etag = p₂.etag)
      (fun p e p' hp hnone hs =>
        ⟨hp.1.step hnone hs, (published_none hnone hs).1.trans hp.2⟩)
      ⟨hready.latest he hpublish, rfl⟩ hstopped hafter
  refine ⟨hlatest.1.subs, fun hdrained sub hsub => ?_, fun newETag heq => ?_⟩
  · have hlast := hlatest.1.subs sub hsub
    rw [hdrained sub hsub, List.append_nil] at hlast
    exact hlast
  · rw [hlatest.2]
    exact (published_some he hpublish).2 newETag msg heq

/-- Two configurations, and a subscriber with the default buffer that has not received
the first one when the second one is published. -/
def skippedConfig : List (Event Nat) :=
  [.subscribe 1, .publish "a" 1, .publish "b" 2, .receive 1]

/-- The session has recorded the second configuration, the channel is empty, and the
subscriber has the first one. -/
theorem skippedConfig_lost : ∃ p, runSteps step new skippedConfig = some p ∧ p.etag = "b" ∧
    p.bus.lastMsg = some 2 ∧ p.bus.subs.map (fun sub => sub.chan.queue) = [[]] ∧
    p.bus.subs.map (fun sub => sub.received) = [[1]] :=
  ⟨_, rfl, rfl, rfl, rfl, rfl⟩

/-- The same again, and a subscriber that comes after the last message. -/
def lateSubscriber : List (Event Nat) :=
  [.subscribe 3, .publish "b" 2, .receive 2, .receive 1]

theorem lateSubscriber_run : ∃ p₁ p₂ p₃ : Process Nat,
    runSteps step new [.subscribe 1, .publish "a" 1, .receive 1] = some p₁ ∧
    p₁.published (.publish "b" 2) = some 2 ∧ p₁.Ready ∧ p₁.step (.publish "b" 2) = some p₂ ∧
    runSteps step p₂ lateSubscriber = some p₃ ∧
    StepsMeet step (fun p e => p.published e = none) p₂ lateSubscriber ∧
    p₃.bus.subs.length = 2 ∧ ∀ sub ∈ p₃.bus.subs, sub.chan.queue = [] :=
  ⟨_, _, _, rfl, rfl, by decide, rfl, rfl, by decide, rfl, by decide⟩

theorem latest_received_lateSubscriber : ∃ p₁ p₂ p₃ : Process Nat,
    runSteps step new [.subscribe 1, .publish "a" 1, .receive 1] = some p₁ ∧
    p₁.step (.publish "b" 2) = some p₂ ∧ runSteps step p₂ lateSubscriber = some p₃ ∧
    p₃.etag = "b" ∧ p₃.bus.subs.length = 2 ∧
    ∀ sub ∈ p₃.bus.subs, sub.received.getLast? = some 2 := by
  obtain ⟨p₁, p₂, p₃, hbefore, he, hready, hpublish, hafter, hstopped, hlen, hdrained⟩ :=
    lateSubscriber_run
  obtain ⟨_, hlast, hetag⟩ := latest_received he hready hpublish hafter hstopped
  exact ⟨p₁, p₂, p₃, hbefore, hpublish, hafter, hetag "b" rfl, hlen, hlast hdrained⟩

end Process

end Scout.EventBus
