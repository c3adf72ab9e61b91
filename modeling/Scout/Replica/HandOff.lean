import Scout.Lib.Runs
import Scout.Sessions.Configs

/-!
The replicas of one data server and the Raft instances they use: `Controller.syncPartitions`
(`controller.go`), the main loop of a replica (`replica.go`), the loops of its joining, serving
and leaving instances, and `Multi` (`multiraft.go`), which keeps one Raft instance for each
partition.

Every goroutine takes its steps one at a time, in any order. A replica is known by its number
in the order of creation, so that two replicas of one partition are told apart even when they
have the same name.
-/

namespace Scout.HandOff

open Lib Control Sessions

/-! ## Raft instances -/

structure FSM where
  replica : Nat
  generation : Nat
  deriving DecidableEq, Repr

/-- What `Multi.New` was called with when the Raft instance was created. -/
structure Raft where
  fsm : FSM
  localID : String
  deriving DecidableEq, Repr

abbrev Multi := AList fun _ : Nat => Raft

/-- An instance that exists is handed out again. -/
def Multi.new (m : Multi) (id : Nat) (fsm : FSM) (localID : String) : Raft × Multi :=
  match m.lookup id with
  | some raft => (raft, m)
  | none => (⟨fsm, localID⟩, m.insert id ⟨fsm, localID⟩)

def Multi.shutdown (m : Multi) (id : Nat) : Multi := m.erase id

/-! ## Replicas -/

inductive Kind where
  | joining
  | serving
  | leaving
  deriving DecidableEq, Repr

/-- An instance of `shared.Replica` whose main loop has been started. -/
structure Instance where
  kind : Kind
  generation : Nat
  cancelled : Bool
  raft : Option Raft
  /-- `CreateRaft` has its Raft instance and has called `Bootstrap`. -/
  bootstrapping : Bool
  ended : Bool
  deriving DecidableEq, Repr

/-- Where the main loop of a replica is. -/
inductive Loop where
  | idle
  | waiting
  /-- Waits for the old instance to end and then starts the next one. -/
  | stopping (next : Option (Kind × ReplicaState))
  | closing
  | ended
  deriving DecidableEq, Repr

/-- The goroutine or the call that runs `Stop`. -/
inductive Stop where
  | none
  | requested
  | waiting
  | finished
  deriving DecidableEq, Repr

/-- `state` is that of the holder, and `stopped` without one. -/
structure Replica where
  pid : Nat
  name : String
  setConfigCh : Option ConfigPartition
  eTag : Option String
  cancelFunc : Bool
  cancelled : Bool
  loop : Loop
  state : ReplicaState
  inst : Option Instance
  generations : Nat
  stop : Stop

/-- `newReplica` with its first configuration. -/
def newReplica (pid : Nat) (name : String) (config : ConfigPartition) : Replica where
  pid := pid
  name := name
  setConfigCh := some config
  eTag := none
  cancelFunc := false
  cancelled := false
  loop := .idle
  state := .stopped
  inst := none
  generations := 0
  stop := .none

/-- What the switch of `transitionToState` gives for the new instance. -/
inductive Next where
  | none
  | old
  | new (kind : Kind)
  deriving DecidableEq, Repr

def nextInstance (oldState : ReplicaState) : ReplicaState → Go String Next
  | .stopped => .ok .none
  | .joining =>
    match oldState with
    | .stopped => .ok (.new .joining)
    | .joining => .ok .old
    | _ => .ok .none
  | .nonVoter | .voter =>
    match oldState with
    | .stopped | .joining => .ok (.new .serving)
    | .voter | .nonVoter => .ok .old
    | _ => .ok .none
  | .leaving =>
    match oldState with
    | .leaving => .ok .old
    | _ => .ok (.new .leaving)
  | .other _ => .error .panic

/-- Empty the holder and cancel the old instance; the loop waits for it in `next`. -/
def Replica.cancelOld (p : Replica) (next : Loop) : Replica :=
  { p with
    loop := next
    state := .stopped
    inst := p.inst.map fun i => { i with cancelled := true } }

def Replica.transitionToState (p : Replica) (newState : ReplicaState) : Go String Replica :=
  if newState = p.state then .ok p
  else do
    match ← nextInstance p.state newState with
    | .old => return { p with state := newState }
    | .none => return p.cancelOld (.stopping none)
    | .new kind => return p.cancelOld (.stopping (some (kind, newState)))

/-- The main loop takes a configuration; a name that is not in it is a nil pointer. -/
def Replica.receive (p : Replica) (config : ConfigPartition) : Go String Replica :=
  let p := { p with setConfigCh := none }
  if p.eTag = some config.eTag then .ok p
  else do
    let replica ← deref (config.replicas.lookup p.name)
    { p with eTag := some config.eTag }.transitionToState replica.state

/-- The old instance has ended. The start of a serving instance may fail. -/
def Replica.proceed (p : Replica) (ok : Bool) : Option Replica :=
  match p.loop with
  | .closing => some { p with loop := .ended, inst := none }
  | .stopping none => some { p with loop := .waiting, inst := none }
  | .stopping (some (kind, state)) =>
    if ok || kind != .serving then
      some { p with
        loop := .waiting
        state := state
        inst := some ⟨kind, p.generations, false, none, false, false⟩
        generations := p.generations + 1 }
    else some { p with loop := .waiting, inst := none }
  | _ => none

/-- `start` and `started` are the two halves of `Start`: the main loop runs as soon as
`RunAsync` has made its goroutine, and then the cancel function is set. -/
inductive ReplicaStep where
  | start
  | started
  | receive
  | done
  | proceed (ok : Bool)
  | stop
  | stopped

def Replica.step (ctxDone : Bool) (p : Replica) : ReplicaStep → Option (Go String Replica)
  | .start => if p.loop = .idle then some (.ok { p with loop := .waiting }) else none
  | .started =>
    if p.loop ≠ .idle ∧ p.cancelFunc = false then some (.ok { p with cancelFunc := true })
    else none
  | .receive =>
    if p.loop = .waiting then p.setConfigCh.map p.receive else none
  | .done =>
    if p.loop = .waiting ∧ (p.cancelled || ctxDone) then some (.ok (p.cancelOld .closing))
    else none
  | .proceed ok => if p.inst.all (·.ended) then (p.proceed ok).map .ok else none
  | .stop =>
    if p.stop = .requested then
      some (if p.cancelFunc then .ok { p with cancelled := true, stop := .waiting }
        else .error .panic)
    else none
  | .stopped =>
    if p.stop = .waiting ∧ p.loop = .ended then some (.ok { p with stop := .finished }) else none

/-! ## Instances -/

/-- Joining and serving instances call `CreateRaft` until it succeeds; a serving one bootstraps
a group that has no state. A leaving instance calls `Drop` until it succeeds. -/
inductive InstanceStep where
  | createRaft (ok hasState : Bool)
  | bootstrap (ok : Bool)
  | drop
  | exit

/-- The step of the instance `i` of the replica with number `r`. -/
def Instance.step (r : Nat) (p : Replica) (ctxDone : Bool) (m : Multi) (i : Instance) :
    InstanceStep → Option (Instance × Multi)
  | .createRaft ok hasState =>
    if i.kind ≠ .leaving ∧ i.raft = none then
      if ok then
        let new := m.new p.pid ⟨r, i.generation⟩ p.name
        some ({ i with
          raft := some new.1
          bootstrapping := !hasState && i.kind == .serving }, new.2)
      else some (i, m)
    else none
  | .bootstrap ok =>
    if i.bootstrapping then
      some (if ok then ({ i with bootstrapping := false }, m)
        else ({ i with raft := none, bootstrapping := false }, m.shutdown p.pid))
    else none
  | .drop => if i.kind = .leaving then some (i, m.shutdown p.pid) else none
  | .exit =>
    if i.bootstrapping = false ∧ (i.cancelled || p.cancelled || ctxDone) then
      some ({ i with ended := true }, if i.raft.isSome then m.shutdown p.pid else m)
    else none

/-! ## The controller -/

/-- `syncPartitions` goes through the replicas and then through the configured partitions;
`stopPartitions` waits for each `Stop`. -/
inductive Phase where
  | idle
  | stopping (config : DataServerConfig) (todo : List Nat)
  | starting (config : DataServerConfig) (todo : List Nat)
  | closing (todo : List Nat) (waitFor : Option Nat)

/-- `current` is the map of the controller; `replicas` holds every replica made so far. -/
structure System where
  eTag : Option String
  phase : Phase
  current : AList fun _ : Nat => Nat
  replicas : List Replica
  multi : Multi
  ctxDone : Bool
  panicked : Bool

def System.init : System := ⟨none, .idle, ∅, [], ∅, false, false⟩

/-- Ranging over the map gives the names in any order: first those of `order`. -/
def getLocalReplicaConfig (serverId : Nat) (order : List String) (config : ConfigPartition) :
    Option ConfigReplica :=
  (order ++ config.replicas.keys).findSome? fun name =>
    (config.replicas.lookup name).filter fun replica => replica.serverId == serverId

inductive Event where
  | config (config : DataServerConfig)
  | visit (pid : Nat) (order : List String)
  | next
  | done
  | close
  | replica (r : Nat) (step : ReplicaStep)
  | member (r : Nat) (step : InstanceStep)

section Steps

variable (serverId : Nat)

/-- The replica that is stopped when the loop of the controller comes to the partition. -/
def System.stops (s : System) (pid : Nat) (order : List String) : Option Nat :=
  match s.phase with
  | .stopping config _ =>
    (s.current.lookup pid).filter fun r => s.replicas[r]?.any fun p =>
      ((config.partitions.lookup pid).bind (getLocalReplicaConfig serverId order)).all
        (·.name != p.name)
  | .closing _ _ => s.current.lookup pid
  | _ => none

def System.requestStop (s : System) (r : Nat) : System :=
  { s with replicas := s.replicas.modify r fun p => { p with stop := .requested } }

/-- `setConfig` blocks while the channel is full. -/
def System.assign (s : System) (pid : Nat) (order : List String) (config : ConfigPartition) :
    Option System :=
  match s.current.lookup pid with
  | some r => s.replicas[r]?.bind fun p =>
    if p.setConfigCh.isNone then
      some { s with replicas := s.replicas.set r { p with setConfigCh := some config } }
    else none
  | none =>
    match getLocalReplicaConfig serverId order config with
    | none => some s
    | some replica => some { s with
        replicas := s.replicas ++ [newReplica pid replica.name config]
        current := s.current.insert pid s.replicas.length }

def System.visit (s : System) (pid : Nat) (order : List String) : Option System :=
  match s.phase with
  | .idle => none
  | .stopping config todo =>
    if pid ∈ todo then
      some (match s.stops serverId pid order with
        | none => { s with phase := .stopping config (todo.erase pid) }
        | some r => { s.requestStop r with
            phase := .stopping config (todo.erase pid)
            current := s.current.erase pid })
    else none
  | .starting config todo =>
    if pid ∈ todo then
      (config.partitions.lookup pid).bind fun x =>
        { s with phase := .starting config (todo.erase pid) }.assign serverId pid order x
    else none
  | .closing todo waitFor =>
    if pid ∈ todo ∧ waitFor.all (fun r => s.replicas[r]?.any (·.stop == .finished)) then
      (s.stops serverId pid order).map fun r =>
        { s.requestStop r with phase := .closing (todo.erase pid) (some r) }
    else none

def System.step (s : System) (e : Event) : Option System :=
  if s.panicked then none
  else match e with
    | .config config =>
      match s.phase with
      | .idle => some (if s.eTag = some config.eTag then s else
          { s with eTag := some config.eTag, phase := .stopping config s.current.keys })
      | _ => none
    | .visit pid order => s.visit serverId pid order
    | .next =>
      match s.phase with
      | .stopping config [] => some { s with phase := .starting config config.partitions.keys }
      | .starting _ [] => some { s with phase := .idle }
      | _ => none
    | .done => some { s with ctxDone := true }
    | .close =>
      match s.phase, s.ctxDone with
      | .idle, true => some { s with phase := .closing s.current.keys none }
      | _, _ => none
    | .replica r step =>
      s.replicas[r]?.bind fun p => (p.step s.ctxDone step).map fun
        | .ok p' => { s with replicas := s.replicas.set r p' }
        | .error _ => { s with panicked := true }
    | .member r step =>
      s.replicas[r]?.bind fun p => p.inst.bind fun i =>
        if i.ended then none
        else (i.step r p s.ctxDone s.multi step).map fun x =>
          { s with replicas := s.replicas.set r { p with inst := some x.1 }, multi := x.2 }

/-- The earlier replicas of the partition have stopped. -/
def Alone (replicas : List Replica) (r pid : Nat) : Prop :=
  ∀ p ∈ replicas.take r, p.pid = pid → p.loop = .ended
  deriving Decidable

/-- A replica is stopped only after its `Start` has returned, and it creates or drops a Raft
group only after the earlier replicas of its partition have stopped. -/
def Serialised (s : System) : Event → Prop
  | .visit pid order => ∀ r ∈ s.stops serverId pid order, ∀ p ∈ s.replicas[r]?, p.cancelFunc = true
  | .member r (.createRaft _ _) | .member r .drop =>
    ∀ p ∈ s.replicas[r]?, Alone s.replicas r p.pid
  | _ => True

instance (s : System) : (e : Event) → Decidable (Serialised serverId s e)
  | .visit pid order => inferInstanceAs
    (Decidable (∀ r ∈ s.stops serverId pid order, ∀ p ∈ s.replicas[r]?, _ = _))
  | .member r (.createRaft _ _) | .member r .drop =>
    inferInstanceAs (Decidable (∀ p ∈ s.replicas[r]?, Alone _ r _))
  | .member _ (.bootstrap _) | .member _ .exit | .replica _ _ | .config _ | .next | .done
  | .close => isTrue trivial

end Steps

/-! ## What every step keeps -/

/-- The Raft instance in use, with the number of the instance that uses it. -/
def Replica.held (p : Replica) : Option (Nat × Raft) :=
  p.inst.bind fun i => if i.ended then none else i.raft.map fun x => (i.generation, x)

theorem Replica.held_eq_some {p : Replica} {g : Nat} {x : Raft} : p.held = some (g, x) ↔
      ∃ i, p.inst = some i ∧ i.ended = false ∧ i.raft = some x ∧ i.generation = g := by
  simp only [Replica.held, Option.bind_eq_some_iff]
  refine exists_congr fun i => and_congr_right fun _ => ?_
  cases i.ended <;> simp

structure Instance.Sound (i : Instance) : Prop where
  leaving : i.kind = .leaving → i.raft = none
  bootstrapping : i.bootstrapping = true → i.raft.isSome

/-- A replica that has ended has no instance, and `Stop` finds the cancel function. -/
structure Replica.Sound (p : Replica) : Prop where
  ended : p.loop = .ended → p.inst = none
  inst : ∀ i, p.inst = some i → i.Sound
  stop : p.stop = .requested → p.cancelFunc = true

/-- Raft instances and replicas are in step: what a replica uses is registered and was created
for it, what is registered is in use, and a replica that uses one comes after replicas that
have ended. -/
structure Inv (replicas : List Replica) (m : Multi) : Prop where
  sound : ∀ p ∈ replicas, p.Sound
  paired : ∀ (r : Nat) (p : Replica) g x, replicas[r]? = some p → p.held = some (g, x) →
    m.lookup p.pid = some x ∧ x = ⟨⟨r, g⟩, p.name⟩
  owned : ∀ pid x, m.lookup pid = some x →
    ∃ (r : Nat) (p : Replica) (g : Nat), replicas[r]? = some p ∧ p.pid = pid ∧ p.held = some (g, x)
  alone : ∀ (r : Nat) (p : Replica), replicas[r]? = some p → p.held.isSome → Alone replicas r p.pid

/-- The replica before and after a step of its own. -/
structure Follows (p p' : Replica) : Prop where
  pid : p'.pid = p.pid
  name : p'.name = p.name
  ended : p.loop = .ended → p'.loop = .ended
  sound : p'.Sound

theorem getElem?_set_cases {replicas : List Replica} {r j : Nat} {p q : Replica}
    (h : (replicas.set r p)[j]? = some q) : (j = r ∧ q = p) ∨ (j ≠ r ∧ replicas[j]? = some q) := by
  rw [List.getElem?_set] at h
  split at h
  · rename_i hj
    split at h
    · cases h
      exact .inl ⟨hj.symm, rfl⟩
    · cases h
  · rename_i hj
    exact .inr ⟨fun e => hj e.symm, h⟩

theorem mem_take_iff {replicas : List Replica} {r : Nat} {q : Replica} :
    q ∈ replicas.take r ↔ ∃ j < r, replicas[j]? = some q := by
  rw [List.mem_iff_getElem?]
  constructor
  · rintro ⟨j, hj⟩
    rw [List.getElem?_take] at hj
    split at hj
    · exact ⟨j, ‹_›, hj⟩
    · cases hj
  · rintro ⟨j, hlt, hj⟩
    exact ⟨j, by rw [List.getElem?_take, if_pos hlt, hj]⟩

section Update

variable {replicas : List Replica} {m : Multi} {r : Nat} {p p' : Replica}

theorem Alone.set (hp : replicas[r]? = some p) (hf : Follows p p') {j pid : Nat}
    (h : Alone replicas j pid) : Alone (replicas.set r p') j pid := by
  intro q hq hpid
  obtain ⟨k, hk, hkq⟩ := mem_take_iff.mp hq
  rcases getElem?_set_cases hkq with ⟨rfl, rfl⟩ | ⟨_, hkq⟩
  · exact hf.ended (h p (mem_take_iff.mpr ⟨k, hk, hp⟩) (hf.pid ▸ hpid))
  · exact h q (mem_take_iff.mpr ⟨k, hk, hkq⟩) hpid

theorem Inv.sound_set (hi : Inv replicas m) (hf : Follows p p') :
    ∀ q ∈ replicas.set r p', q.Sound := by
  intro q hq
  rcases List.mem_or_eq_of_mem_set hq with hq | rfl
  · exact hi.sound q hq
  · exact hf.sound

theorem Inv.keep (hi : Inv replicas m) (hp : replicas[r]? = some p) (hf : Follows p p')
    (hh : p'.held = p.held) : Inv (replicas.set r p') m where
  sound := hi.sound_set hf
  paired := by
    intro j q g x hq hx
    rcases getElem?_set_cases hq with ⟨rfl, rfl⟩ | ⟨_, hq⟩
    · rw [hf.pid, hf.name]
      exact hi.paired j p g x hp (hh ▸ hx)
    · exact hi.paired j q g x hq hx
  owned := by
    intro pid x hx
    obtain ⟨j, q, g, hq, hpid, hg⟩ := hi.owned pid x hx
    by_cases hj : j = r
    · subst hj
      rw [hp] at hq
      cases hq
      have hlt : j < replicas.length := (List.getElem?_eq_some_iff.mp hp).1
      exact ⟨j, p', g, List.getElem?_set_self hlt, hf.pid.trans hpid, hh.trans hg⟩
    · exact ⟨j, q, g, by rw [List.getElem?_set_ne (fun e => hj e.symm)]; exact hq, hpid, hg⟩
  alone := by
    intro j q hq hs
    rcases getElem?_set_cases hq with ⟨rfl, rfl⟩ | ⟨_, hq⟩
    · rw [hf.pid]
      exact (hi.alone j p hp (hh ▸ hs)).set hp hf
    · exact (hi.alone j q hq hs).set hp hf

theorem Inv.unique (hi : Inv replicas m) (hp : replicas[r]? = some p) (hs : p.held.isSome) {j : Nat}
    {q : Replica} (hq : replicas[j]? = some q) (hpid : q.pid = p.pid) (hj : q.held.isSome) :
    j = r := by
  obtain ⟨⟨g, x⟩, hx⟩ := Option.isSome_iff_exists.mp hs
  obtain ⟨⟨g', x'⟩, hx'⟩ := Option.isSome_iff_exists.mp hj
  obtain ⟨h₁, e₁⟩ := hi.paired r p g x hp hx
  obtain ⟨h₂, e₂⟩ := hi.paired j q g' x' hq hx'
  rw [hpid, h₁] at h₂
  cases h₂
  exact congrArg (·.fsm.replica) (e₂.symm.trans e₁)

/-- A replica that has not ended and that comes after replicas that have is the only one that
may have a Raft instance registered. -/
theorem Inv.registered (hi : Inv replicas m) (hp : replicas[r]? = some p) (hl : p.inst.isSome)
    (ha : Alone replicas r p.pid) {x : Raft} (hx : m.lookup p.pid = some x) : p.held.isSome := by
  obtain ⟨j, q, g, hq, hpid, hg⟩ := hi.owned p.pid x hx
  have hnot : ∀ (k : Nat) (q' : Replica), replicas[k]? = some q' → q'.inst.isSome →
      q'.loop ≠ .ended := by
    intro k q' hk hs he
    rw [(hi.sound q' (List.mem_of_getElem? hk)).ended he] at hs
    cases hs
  rcases Nat.lt_trichotomy j r with hj | rfl | hj
  · obtain ⟨i, hqi, -⟩ := Replica.held_eq_some.mp hg
    exact absurd (ha q (mem_take_iff.mpr ⟨j, hj, hq⟩) hpid) (hnot j q hq (by rw [hqi]; rfl))
  · rw [hp] at hq
    cases hq
    rw [hg]
    rfl
  · have he := hi.alone j q hq (by rw [hg]; rfl) p (mem_take_iff.mpr ⟨r, hj, hp⟩) hpid.symm
    exact absurd he (hnot r p hp hl)

theorem Inv.owned_other (hi : Inv replicas m) (hp : replicas[r]? = some p) (p' : Replica)
    {pid : Nat} (hne : pid ≠ p.pid) {x : Raft} (hx : m.lookup pid = some x) :
    ∃ (j : Nat) (q : Replica) (g : Nat),
      (replicas.set r p')[j]? = some q ∧ q.pid = pid ∧ q.held = some (g, x) := by
  obtain ⟨j, q, g, hq, hpid, hg⟩ := hi.owned pid x hx
  have hj : j ≠ r := by
    rintro rfl
    rw [hp] at hq
    cases hq
    exact hne hpid.symm
  refine ⟨j, q, g, ?_, hpid, hg⟩
  rw [List.getElem?_set_ne (Ne.symm hj)]
  exact hq

theorem Inv.release (hi : Inv replicas m) (hp : replicas[r]? = some p) (hf : Follows p p')
    (hh : p'.held = none) (hreg : ∀ x, m.lookup p.pid = some x → p.held.isSome) :
    Inv (replicas.set r p') (m.shutdown p.pid) where
  sound := hi.sound_set hf
  paired := by
    intro j q g x hq hx
    rcases getElem?_set_cases hq with ⟨rfl, rfl⟩ | ⟨hj, hq⟩
    · rw [hh] at hx
      cases hx
    · obtain ⟨hget, he⟩ := hi.paired j q g x hq hx
      refine ⟨?_, he⟩
      have hne : q.pid ≠ p.pid := by
        intro hpid
        have hs := hreg x (hpid ▸ hget)
        exact hj (hi.unique hp hs hq hpid (by rw [hx]; rfl))
      rw [Multi.shutdown, AList.lookup_erase_ne hne]
      exact hget
  owned := by
    intro pid x hx
    obtain ⟨hne, hx⟩ := lookup_erase_eq_some.mp hx
    exact hi.owned_other hp p' hne hx
  alone := by
    intro j q hq hs
    rcases getElem?_set_cases hq with ⟨rfl, rfl⟩ | ⟨_, hq⟩
    · rw [hh] at hs
      cases hs
    · exact (hi.alone j q hq hs).set hp hf

theorem Inv.acquire (hi : Inv replicas m) (hp : replicas[r]? = some p) (hf : Follows p p')
    {g : Nat} {x : Raft} (hx : x = ⟨⟨r, g⟩, p.name⟩) (hh : p'.held = some (g, x))
    (hfree : m.lookup p.pid = none) (ha : Alone replicas r p.pid) :
    Inv (replicas.set r p') (m.insert p.pid x) where
  sound := hi.sound_set hf
  paired := by
    intro j q g' x' hq hx'
    rcases getElem?_set_cases hq with ⟨rfl, rfl⟩ | ⟨_, hq⟩
    · rw [hh] at hx'
      cases hx'
      refine ⟨?_, by rw [hf.name]; exact hx⟩
      rw [hf.pid, AList.lookup_insert]
    · obtain ⟨hget, he⟩ := hi.paired j q g' x' hq hx'
      refine ⟨?_, he⟩
      have hne : q.pid ≠ p.pid := by
        intro hpid
        rw [hpid, hfree] at hget
        cases hget
      rw [AList.lookup_insert_ne hne]
      exact hget
  owned := by
    intro pid x' hx'
    rcases lookup_insert_eq_some.mp hx' with ⟨hpid, rfl⟩ | ⟨hne, hx'⟩
    · have hlt : r < replicas.length := (List.getElem?_eq_some_iff.mp hp).1
      exact ⟨r, p', g, List.getElem?_set_self hlt, hf.pid.trans hpid.symm, hh⟩
    · exact hi.owned_other hp p' hne hx'
  alone := by
    intro j q hq hs
    rcases getElem?_set_cases hq with ⟨rfl, rfl⟩ | ⟨_, hq⟩
    · rw [hf.pid]
      exact ha.set hp hf
    · exact (hi.alone j q hq hs).set hp hf

end Update

/-! ## The steps of a replica -/

section ReplicaSteps

variable {p p' : Replica}

theorem held_cancelOld (p : Replica) (next : Loop) : (p.cancelOld next).held = p.held := by
  cases h : p.inst <;> simp [Replica.held, Replica.cancelOld, h]

theorem follows_cancelOld (hs : p.Sound) (hl : p.loop = .waiting) {next : Loop}
    (hn : next ≠ .ended) : Follows p (p.cancelOld next) where
  pid := rfl
  name := rfl
  ended h := by
    rw [hl] at h
    cases h
  sound := {
    ended := fun h => absurd h hn
    inst := by
      intro i hi
      obtain ⟨i₀, h₀, rfl⟩ := Option.map_eq_some_iff.mp hi
      exact ⟨(hs.inst i₀ h₀).leaving, (hs.inst i₀ h₀).bootstrapping⟩
    stop := hs.stop }

theorem transitionToState_follows (hs : p.Sound) (hl : p.loop = .waiting) {newState : ReplicaState}
    (h : p.transitionToState newState = .ok p') : Follows p p' ∧ p'.held = p.held := by
  rw [Replica.transitionToState] at h
  split at h
  · cases h
    exact ⟨⟨rfl, rfl, id, hs⟩, rfl⟩
  · obtain ⟨next, -, h⟩ := bind_eq_ok.mp h
    cases next with
    | old =>
      cases h
      exact ⟨⟨rfl, rfl, id, hs.ended, hs.inst, hs.stop⟩, rfl⟩
    | none =>
      cases h
      exact ⟨follows_cancelOld hs hl nofun, held_cancelOld p _⟩
    | new kind =>
      cases h
      exact ⟨follows_cancelOld hs hl nofun, held_cancelOld p _⟩

theorem receive_follows (hs : p.Sound) (hl : p.loop = .waiting) {config : ConfigPartition}
    (h : p.receive config = .ok p') : Follows p p' ∧ p'.held = p.held := by
  simp only [Replica.receive] at h
  split at h
  · cases h
    exact ⟨⟨rfl, rfl, id, hs.ended, hs.inst, hs.stop⟩, rfl⟩
  · obtain ⟨replica, -, h⟩ := bind_eq_ok.mp h
    have hs₁ : { p with setConfigCh := none, eTag := some config.eTag }.Sound :=
      ⟨hs.ended, hs.inst, hs.stop⟩
    obtain ⟨hf, hh⟩ := transitionToState_follows hs₁ hl h
    exact ⟨⟨hf.pid, hf.name, hf.ended, hf.sound⟩, hh⟩

theorem proceed_follows (hs : p.Sound) (hall : p.inst.all (·.ended)) {ok : Bool}
    (h : p.proceed ok = some p') : Follows p p' ∧ p'.held = p.held := by
  have hheld : p.held = none := by
    cases hi : p.inst with
    | none => simp [Replica.held, hi]
    | some i =>
      rw [hi] at hall
      have he : i.ended = true := hall
      simp [Replica.held, hi, he]
  rw [hheld]
  rw [Replica.proceed] at h
  split at h
  · cases h
    exact ⟨⟨rfl, rfl, fun _ => rfl, fun _ => rfl, nofun, hs.stop⟩, rfl⟩
  · rename_i hl
    have hne : p.loop ≠ .ended := by rw [hl]; nofun
    cases h
    exact ⟨⟨rfl, rfl, fun h => absurd h hne, nofun, nofun, hs.stop⟩, rfl⟩
  · rename_i kind state hl
    have hne : p.loop ≠ .ended := by rw [hl]; nofun
    split at h
    · cases h
      refine ⟨⟨rfl, rfl, fun h => absurd h hne, nofun, ?_, hs.stop⟩, rfl⟩
      intro i hi
      cases hi
      exact ⟨fun _ => rfl, nofun⟩
    · cases h
      exact ⟨⟨rfl, rfl, fun h => absurd h hne, nofun, nofun, hs.stop⟩, rfl⟩
  · cases h

theorem replicaStep_follows (hs : p.Sound) {ctxDone : Bool} {a : ReplicaStep}
    (h : p.step ctxDone a = some (.ok p')) : Follows p p' ∧ p'.held = p.held := by
  cases a with
  | start =>
    rw [Replica.step] at h
    split at h
    · rename_i hl
      have hne : p.loop ≠ .ended := by rw [hl]; nofun
      cases h
      exact ⟨⟨rfl, rfl, fun h => absurd h hne, nofun, hs.inst, hs.stop⟩, rfl⟩
    · cases h
  | started =>
    rw [Replica.step] at h
    split at h
    · cases h
      exact ⟨⟨rfl, rfl, id, hs.ended, hs.inst, fun _ => rfl⟩, rfl⟩
    · cases h
  | receive =>
    rw [Replica.step] at h
    split at h
    · rename_i hl
      obtain ⟨config, -, h⟩ := Option.map_eq_some_iff.mp h
      exact receive_follows hs hl h
    · cases h
  | done =>
    rw [Replica.step] at h
    split at h
    · rename_i hl
      cases h
      exact ⟨follows_cancelOld hs hl.1 nofun, held_cancelOld p _⟩
    · cases h
  | proceed ok =>
    rw [Replica.step] at h
    split at h
    · rename_i hall
      obtain ⟨p₁, h₁, h⟩ := Option.map_eq_some_iff.mp h
      cases h
      exact proceed_follows hs hall h₁
    · cases h
  | stop =>
    rw [Replica.step] at h
    split at h
    · split at h
      · cases h
        exact ⟨⟨rfl, rfl, id, hs.ended, hs.inst, nofun⟩, rfl⟩
      · cases h
    · cases h
  | stopped =>
    rw [Replica.step] at h
    split at h
    · cases h
      exact ⟨⟨rfl, rfl, id, hs.ended, hs.inst, nofun⟩, rfl⟩
    · cases h

end ReplicaSteps

/-! ## The steps of an instance -/

section InstanceSteps

variable {replicas : List Replica} {m m' : Multi} {r : Nat} {p : Replica} {i i' : Instance}
  {ctxDone : Bool}

theorem follows_inst (hs : p.Sound) (hi : p.inst = some i) (hs' : i'.Sound) :
    Follows p { p with inst := some i' } where
  pid := rfl
  name := rfl
  ended := id
  sound := {
    ended := by
      intro h
      rw [hs.ended h] at hi
      cases hi
    inst := by
      rintro j ⟨⟩
      exact hs'
    stop := hs.stop }

theorem held_running (hi : p.inst = some i) (he : i.ended = false) :
    p.held = i.raft.map fun x => (i.generation, x) := by
  simp [Replica.held, hi, he]

theorem held_inst (he : i.ended = false) :
    { p with inst := some i }.held = i.raft.map fun x => (i.generation, x) :=
  held_running rfl he

/-- The steps of an instance keep the invariant; one that creates or drops a Raft group needs
that the earlier replicas of the partition have stopped. -/
theorem Inv.instanceStep (hinv : Inv replicas m) (hp : replicas[r]? = some p)
    (hi : p.inst = some i) (he : i.ended = false) {a : InstanceStep}
    (ha : match a with
      | .createRaft _ _ | .drop => Alone replicas r p.pid
      | _ => True) (h : i.step r p ctxDone m a = some (i', m')) :
    Inv (replicas.set r { p with inst := some i' }) m' := by
  have hs := hinv.sound p (List.mem_of_getElem? hp)
  obtain ⟨hleaving, hboot⟩ := hs.inst i hi
  have hheld := held_running hi he
  have hinst : p.inst.isSome := by rw [hi]; rfl
  cases a with
  | createRaft ok hasState =>
    rw [Instance.step] at h
    split at h
    · rename_i hk
      split at h
      · -- nothing can be registered for the partition
        have hfree : m.lookup p.pid = none := by
          rw [Option.eq_none_iff_forall_ne_some]
          intro x hx
          have hsome := hinv.registered hp hinst ha hx
          rw [hheld, hk.2] at hsome
          cases hsome
        simp only [Multi.new, hfree] at h
        cases h
        have hf : Follows p { p with inst := some { i with
            raft := some ⟨⟨r, i.generation⟩, p.name⟩
            bootstrapping := !hasState && i.kind == .serving } } :=
          follows_inst hs hi ⟨fun h => absurd h hk.1, fun _ => rfl⟩
        exact hinv.acquire hp hf rfl (held_inst he) hfree ha
      · cases h
        refine hinv.keep hp (follows_inst hs hi ⟨hleaving, hboot⟩) ?_
        rw [hheld, held_inst he]
    · cases h
  | bootstrap ok =>
    rw [Instance.step] at h
    split at h
    · rename_i hb
      split at h
      · cases h
        refine hinv.keep hp (follows_inst hs hi ⟨hleaving, nofun⟩) ?_
        rw [hheld]
        exact held_inst he
      · cases h
        refine hinv.release hp (follows_inst hs hi ⟨fun _ => rfl, nofun⟩) (held_inst he)
          fun x _ => ?_
        rw [hheld, Option.isSome_map]
        exact hboot hb
    · cases h
  | drop =>
    rw [Instance.step] at h
    split at h
    · rename_i hk
      cases h
      refine hinv.release hp (follows_inst hs hi ⟨hleaving, hboot⟩) ?_
        fun x hx => hinv.registered hp hinst ha hx
      rw [held_inst he, hleaving hk]
      rfl
    · cases h
  | exit =>
    rw [Instance.step] at h
    split at h
    · cases h
      have hnone : { p with inst := some { i with ended := true } }.held = none := rfl
      split
      · rename_i hr
        refine hinv.release hp (follows_inst hs hi ⟨hleaving, hboot⟩) hnone fun x _ => ?_
        rw [hheld, Option.isSome_map]
        exact hr
      · rename_i hr
        refine hinv.keep hp (follows_inst hs hi ⟨hleaving, hboot⟩) ?_
        rw [hnone, hheld, Option.not_isSome_iff_eq_none.mp hr]
        rfl
    · cases h

end InstanceSteps

/-! ## The steps of the controller -/

section ControllerSteps

variable {serverId : Nat} {s s' : System}

/-- A new replica uses no Raft instance. -/
theorem Inv.append {replicas : List Replica} {m : Multi} (hinv : Inv replicas m) (pid : Nat)
    (name : String) (config : ConfigPartition) :
    Inv (replicas ++ [newReplica pid name config]) m := by
  have hold : ∀ (j : Nat) (q : Replica), (replicas ++ [newReplica pid name config])[j]? = some q →
      q.held.isSome → replicas[j]? = some q := by
    intro j q hq hs
    rw [List.getElem?_append] at hq
    split at hq
    · exact hq
    · cases List.mem_singleton.mp (List.mem_of_getElem? hq)
      cases hs
  constructor
  · intro q hq
    rcases List.mem_append.mp hq with hq | hq
    · exact hinv.sound q hq
    · cases List.mem_singleton.mp hq
      exact ⟨nofun, nofun, nofun⟩
  · intro r p g x hp hx
    exact hinv.paired r p g x (hold r p hp (by rw [hx]; rfl)) hx
  · intro pid' x hx
    obtain ⟨r, p, g, hp, h⟩ := hinv.owned pid' x hx
    have hlt : r < replicas.length := (List.getElem?_eq_some_iff.mp hp).1
    exact ⟨r, p, g, by rw [List.getElem?_append_left hlt]; exact hp, h⟩
  · intro r p hp hs q hq hpid
    have hp' := hold r p hp hs
    have hlt : r < replicas.length := (List.getElem?_eq_some_iff.mp hp').1
    rw [List.take_append_of_le_length hlt.le] at hq
    exact hinv.alone r p hp' hs q hq hpid

theorem Inv.requestStop {r : Nat} (hinv : Inv s.replicas s.multi)
    (hr : ∀ p ∈ s.replicas[r]?, p.cancelFunc = true) : Inv (s.requestStop r).replicas s.multi := by
  rw [System.requestStop]
  cases hp : s.replicas[r]? with
  | none =>
    have hlen : s.replicas.length ≤ r := List.getElem?_eq_none_iff.mp hp
    rw [List.modify_eq_self hlen]
    exact hinv
  | some p =>
    have hs := hinv.sound p (List.mem_of_getElem? hp)
    rw [List.modify_eq_set_getElem?, hp]
    exact hinv.keep hp ⟨rfl, rfl, id, hs.ended, hs.inst, fun _ => hr p hp⟩ rfl

theorem Inv.assign {pid : Nat} {order : List String} {config : ConfigPartition}
    (h : s.assign serverId pid order config = some s')
    (hinv : Inv s.replicas s.multi) : Inv s'.replicas s'.multi := by
  rw [System.assign] at h
  split at h
  · obtain ⟨p, hp, h⟩ := Option.bind_eq_some_iff.mp h
    split at h
    · cases h
      have hs := hinv.sound p (List.mem_of_getElem? hp)
      exact hinv.keep hp ⟨rfl, rfl, id, hs.ended, hs.inst, hs.stop⟩ rfl
    · cases h
  · split at h
    · cases h
      exact hinv
    · cases h
      exact hinv.append pid _ config

theorem Inv.visit {pid : Nat} {order : List String} (hinv : Inv s.replicas s.multi)
    (hok : Serialised serverId s (.visit pid order))
    (h : s.visit serverId pid order = some s') : Inv s'.replicas s'.multi := by
  rw [System.visit] at h
  split at h
  · cases h
  · split at h
    · split at h
      · cases h
        exact hinv
      · rename_i r hr
        cases h
        exact hinv.requestStop (hok r hr)
    · cases h
  · split at h
    · obtain ⟨x, -, h⟩ := Option.bind_eq_some_iff.mp h
      exact Inv.assign h hinv
    · cases h
  · split at h
    · obtain ⟨r, hr, h⟩ := Option.map_eq_some_iff.mp h
      cases h
      exact hinv.requestStop (hok r hr)
    · cases h

end ControllerSteps

/-- **Step lemma.** -/
theorem Inv.step {serverId : Nat} {s s' : System} {e : Event} (hinv : Inv s.replicas s.multi)
    (hok : Serialised serverId s e) (h : s.step serverId e = some s') :
    Inv s'.replicas s'.multi := by
  unfold System.step at h
  split at h
  · cases h
  cases e with
  | config config =>
    dsimp only at h
    split at h
    · cases h
      split <;> exact hinv
    · cases h
  | visit pid order => exact hinv.visit hok h
  | next =>
    dsimp only at h
    split at h
    · cases h
      exact hinv
    · cases h
      exact hinv
    · cases h
  | done =>
    cases h
    exact hinv
  | close =>
    dsimp only at h
    split at h
    · cases h
      exact hinv
    · cases h
  | replica r a =>
    obtain ⟨p, hp, h⟩ := Option.bind_eq_some_iff.mp h
    obtain ⟨res, hres, h⟩ := Option.map_eq_some_iff.mp h
    cases res with
    | error f =>
      cases h
      exact hinv
    | ok p' =>
      cases h
      obtain ⟨hf, hh⟩ := replicaStep_follows (hinv.sound p (List.mem_of_getElem? hp)) hres
      exact hinv.keep hp hf hh
  | member r a =>
    obtain ⟨p, hp, h⟩ := Option.bind_eq_some_iff.mp h
    obtain ⟨i, hi, h⟩ := Option.bind_eq_some_iff.mp h
    split at h
    · cases h
    rename_i he
    obtain ⟨⟨i', m'⟩, hx, h⟩ := Option.map_eq_some_iff.mp h
    cases h
    refine hinv.instanceStep hp hi (Bool.eq_false_of_not_eq_true he) ?_ hx
    cases a with
    | createRaft ok hasState => exact hok p hp
    | drop => exact hok p hp
    | bootstrap ok => trivial
    | exit => trivial

/-- FSM and Raft are paired. The Raft instance that a running instance of a replica has was
created with its own FSM and local id and is still registered, so nothing has shut it down,
and a `Stop` that is about to run finds the cancel function. -/
structure Paired (s : System) : Prop where
  own : ∀ (r : Nat) (p : Replica) (i : Instance) (x : Raft), s.replicas[r]? = some p →
    p.inst = some i → i.ended = false → i.raft = some x →
      x.fsm = ⟨r, i.generation⟩ ∧ x.localID = p.name
  running : ∀ (r : Nat) (p : Replica) (i : Instance) (x : Raft), s.replicas[r]? = some p →
    p.inst = some i → i.ended = false → i.raft = some x → s.multi.lookup p.pid = some x
  startFirst : ∀ p ∈ s.replicas, p.stop = .requested → p.cancelFunc = true

theorem Inv.paired_system {s : System} (hinv : Inv s.replicas s.multi) : Paired s := by
  have hpair : ∀ (r : Nat) (p : Replica) (i : Instance) (x : Raft), s.replicas[r]? = some p →
      p.inst = some i → i.ended = false → i.raft = some x →
        s.multi.lookup p.pid = some x ∧ x = ⟨⟨r, i.generation⟩, p.name⟩ := by
    intro r p i x hp hi he hx
    exact hinv.paired r p i.generation x hp (Replica.held_eq_some.mpr ⟨i, hi, he, hx, rfl⟩)
  constructor
  · intro r p i x hp hi he hx
    obtain ⟨-, rfl⟩ := hpair r p i x hp hi he hx
    exact ⟨rfl, rfl⟩
  · intro r p i x hp hi he hx
    exact (hpair r p i x hp hi he hx).1
  · exact fun p hp => (hinv.sound p hp).stop

/-- **Hand-off.** Along every run in which a replica is stopped after its `Start` has returned
and creates or drops a Raft group after the earlier replicas of its partition have stopped, FSM
and Raft are paired. -/
theorem handOff_paired {serverId : Nat} {es : List Event} {s : System}
    (hok : StepsMeet (System.step serverId) (Serialised serverId) .init es)
    (hrun : runSteps (System.step serverId) .init es = some s) : Paired s := by
  have h₀ : Inv System.init.replicas System.init.multi := by
    constructor <;> simp [System.init]
  have hinv : Inv s.replicas s.multi := runSteps_invariant (System.step serverId)
    (fun s => Inv s.replicas s.multi) (fun _ _ _ hi ho hs => hi.step ho hs) h₀ hok hrun
  exact hinv.paired_system

/-! ## A partition whose replica is replaced by one with another name -/

/-- Partition 7 with one voter, on server 1. -/
def configWith (eTag name : String) : DataServerConfig :=
  ⟨eTag, (∅ : AList fun _ : Nat => ConfigPartition).insert 7
    ⟨eTag, 7, (∅ : AList fun _ : String => ConfigReplica).insert name ⟨name, 1, .voter⟩⟩⟩

/-- The first configuration is processed; the replica serves. -/
def serveFirst : List Event :=
  [.config (configWith "1" "p7_r1"), .next, .visit 7 [], .next, .replica 0 .start,
    .replica 0 .started, .replica 0 .receive, .replica 0 (.proceed true),
    .member 0 (.createRaft true true)]

/-- The second one replaces the replica; the new one serves. -/
def serveSecond : List Event :=
  [.next, .visit 7 [], .next, .replica 1 .start, .replica 1 .started, .replica 1 .receive,
    .replica 1 (.proceed true), .member 1 (.createRaft true true)]

def stopFirst : List Event :=
  [.replica 0 .stop, .replica 0 .done, .member 0 .exit, .replica 0 (.proceed true),
    .replica 0 .stopped]

/-- The new replica gets the Raft instance of the old one, whose `Stop` then shuts it down; and
a second configuration that comes before `Start` has run makes `Stop` panic. -/
theorem handOff_overlap : (runSteps (System.step 1) .init
        (serveFirst ++ [.config (configWith "2" "p7_r2"), .visit 7 []] ++ serveSecond)).map
      (fun s => (s.replicas.map fun p => (p.name, p.held), s.multi.lookup 7)) =
      some ([("p7_r1", some (0, ⟨⟨0, 0⟩, "p7_r1"⟩)), ("p7_r2", some (0, ⟨⟨0, 0⟩, "p7_r1"⟩))],
        some ⟨⟨0, 0⟩, "p7_r1"⟩) ∧ (runSteps (System.step 1) .init
        (serveFirst ++ [.config (configWith "2" "p7_r2"), .visit 7 []] ++ serveSecond ++
          stopFirst)).map (fun s => (s.replicas.map fun p => (p.name, p.held), s.multi.lookup 7)) =
      some ([("p7_r1", none), ("p7_r2", some (0, ⟨⟨0, 0⟩, "p7_r1"⟩))], none) ∧
    (runSteps (System.step 1) .init [.config (configWith "1" "p7_r1"), .next, .visit 7 [], .next,
          .config (configWith "2" "p7_r2"), .visit 7 [], .replica 0 .stop]).map
      (fun s => s.panicked) = some true :=
  ⟨rfl, rfl, rfl⟩

/-- The old replica stops before the new one creates its Raft instance. -/
theorem handOff_paired_inTurn : ∃ s, runSteps (System.step 1) .init
        (serveFirst ++ [.config (configWith "2" "p7_r2"), .visit 7 []] ++ stopFirst ++
          serveSecond) = some s ∧ Paired s ∧ s.multi.lookup 7 = some ⟨⟨1, 0⟩, "p7_r2"⟩ := by
  have hok : StepsMeet (System.step 1) (Serialised 1) .init
      (serveFirst ++ [.config (configWith "2" "p7_r2"), .visit 7 []] ++ stopFirst ++
        serveSecond) := by
    decide
  exact ⟨_, rfl, handOff_paired hok rfl, rfl⟩

end Scout.HandOff
