import Scout.Lib.Channels
import Scout.Lib.Indexes
import Scout.Lib.Runs
import Scout.Sessions.Tracker

/-!
The sessions of the tracker: the main loop with the two maps of the open sessions, the
counter of the loops that are running, and the wait channels of the calls of `NewSession`.

`bookkeeping_consistent` is the invariant of all runs, and `drain_ends_iff` says which
shutdowns come to an end.
-/

namespace Scout.Sessions.Bookkeeping

open Lib Control

inductive SessionError where
  | notRegistered
  | permissionDenied
  | unavailable
  | loop (message : String)
  deriving DecidableEq, Repr

/-- What is sent on a wait channel; nil is no error. -/
abbrev Answer := Option SessionError

structure Session where
  id : Nat
  serverId : Nat
  serverAddress : String
  waitCh : Nat
  deriving DecidableEq, Repr

inductive LoopKind where
  | send
  | recv
  deriving DecidableEq, Repr

structure Loop where
  session : Nat
  kind : LoopKind
  deriving DecidableEq, Repr

inductive Phase where
  | running
  | draining
  | returned
  deriving DecidableEq, Repr

/-- The variables of the main loop; below them what happens outside of it: the number of
calls of `NewSession`, which is also the wait channel of the next one, the values sent on
wait channels, and the loops that have not reported that they are done. -/
structure State where
  servers : Servers
  sessionCounter : Nat
  sessionsById : AList fun _ : Nat => Session
  sessionsByServer : AList fun _ : Nat => Session
  runningLoops : Int
  phase : Phase
  starts : Nat
  sent : List (Nat × Answer)
  loops : List Loop

def initial (servers : Servers) : State := ⟨servers, 0, ∅, ∅, 0, .running, 0, [], []⟩

namespace State

def closeSession (s : State) (id : Nat) (err : Answer) : State :=
  match s.sessionsById.lookup id with
  | none => s
  | some sess =>
    { s with
      sessionsById := s.sessionsById.erase sess.id
      sessionsByServer := s.sessionsByServer.erase sess.serverId
      sent := s.sent ++ [(sess.waitCh, err)] }

def closeSessions (s : State) (ids : List Nat) (err : Answer) : State :=
  ids.foldl (fun s id => s.closeSession id err) s

/-- Answer a start without a session. -/
def reject (s : State) (err : SessionError) : State :=
  { s with starts := s.starts + 1, sent := s.sent ++ [(s.starts, some err)] }

def closeOld (s : State) (serverId : Nat) : State :=
  match s.sessionsByServer.lookup serverId with
  | none => s
  | some old => s.closeSession old.id none

def addSession (s : State) (serverId : Nat) (serverAddress : String) : State :=
  let id := s.sessionCounter + 1
  let new : Session := ⟨id, serverId, serverAddress, s.starts⟩
  { s with
    sessionCounter := id
    sessionsById := s.sessionsById.insert id new
    sessionsByServer := s.sessionsByServer.insert serverId new
    runningLoops := s.runningLoops + 2
    starts := s.starts + 1
    loops := s.loops ++ [⟨id, .send⟩, ⟨id, .recv⟩] }

def startSession (s : State) (serverId : Nat) (serverAddress : String) : State :=
  match s.servers.items.get serverId with
  | none => s.reject .notRegistered
  | some server =>
    if server.type = .control then s.reject .permissionDenied
    else (s.closeOld serverId).addSession serverId serverAddress

def loopDone (s : State) (l : Loop) : State :=
  { s with runningLoops := s.runningLoops - 1, loops := s.loops.erase l }

def removed (s : State) (newServers : Servers) : List Nat :=
  (s.sessionsByServer.entries.filter fun e => (newServers.items.get e.1).isNone).map fun e => e.2.id

end State

/-- What the main loop receives. The sessions are closed in the order in which the map is
iterated, which is any. -/
inductive Event where
  | start (serverId : Nat) (serverAddress : String)
  | loopDone (l : Loop) (err : Answer)
  /-- Any other message of a session: it concerns the status only. -/
  | message (id : Nat)
  | newServers (servers : Servers) (order : List Nat)
  | shutdown (order : List Nat)

/-- One round of the main loop, or of the loop that drains the channels. -/
def step (s : State) : Event → Option State
  | .start serverId serverAddress =>
    match s.phase with
    | .running => some (s.startSession serverId serverAddress)
    | .draining => some (s.reject .unavailable)
    | .returned => none
  | .loopDone l err =>
    if l ∈ s.loops then
      match s.phase with
      | .running => some ((s.loopDone l).closeSession l.session err)
      | .draining =>
        let s := s.loopDone l
        some (if s.runningLoops = 0 then { s with phase := .returned } else s)
      | .returned => none
    else none
  | .message _ =>
    match s.phase with
    | .returned => none
    | _ => some s
  | .newServers newServers order =>
    if s.phase = .running then
      if newServers.registerVersion = s.servers.registerVersion then some s
      else if order.Perm (s.removed newServers) then
        some { s.closeSessions order (some .notRegistered) with servers := newServers }
      else none
    else none
  | .shutdown order =>
    if s.phase = .running ∧ order.Perm s.sessionsById.keys then
      some { s.closeSessions order none with phase := .draining }
    else none

inductive Step (s : State) : Event → State → Prop where
  | start {serverId : Nat} {serverAddress : String} (hp : s.phase = .running) :
    Step s (.start serverId serverAddress) (s.startSession serverId serverAddress)
  | startRejected {serverId : Nat} {serverAddress : String} (hp : s.phase = .draining) :
    Step s (.start serverId serverAddress) (s.reject .unavailable)
  | loopDone {l : Loop} {err : Answer} (hp : s.phase = .running) (hl : l ∈ s.loops) :
    Step s (.loopDone l err) ((s.loopDone l).closeSession l.session err)
  | loopDrained {l : Loop} {err : Answer} (hp : s.phase = .draining) (hl : l ∈ s.loops)
      (hn : (s.loopDone l).runningLoops ≠ 0) : Step s (.loopDone l err) (s.loopDone l)
  | lastDrained {l : Loop} {err : Answer} (hp : s.phase = .draining) (hl : l ∈ s.loops)
      (hn : (s.loopDone l).runningLoops = 0) :
    Step s (.loopDone l err) { s.loopDone l with phase := .returned }
  | message {id : Nat} (hp : s.phase ≠ .returned) : Step s (.message id) s
  | sameServers {newServers : Servers} {order : List Nat} (hp : s.phase = .running) :
    Step s (.newServers newServers order) s
  | newServers {newServers : Servers} {order : List Nat} (hp : s.phase = .running)
      (ho : order.Perm (s.removed newServers)) :
    Step s (.newServers newServers order)
      { s.closeSessions order (some .notRegistered) with servers := newServers }
  | shutdown {order : List Nat} (hp : s.phase = .running) (ho : order.Perm s.sessionsById.keys) :
    Step s (.shutdown order) { s.closeSessions order none with phase := .draining }

variable {s s' : State}

theorem step_cases {e : Event} (h : step s e = some s') : Step s e s' := by
  cases e with
  | start serverId serverAddress =>
    cases hp : s.phase with
    | running =>
      simp only [step, hp, Option.some_inj] at h
      exact h ▸ .start hp
    | draining =>
      simp only [step, hp, Option.some_inj] at h
      exact h ▸ .startRejected hp
    | returned => simp [step, hp] at h
  | loopDone l err =>
    by_cases hl : l ∈ s.loops
    · cases hp : s.phase with
      | running =>
        simp only [step, hp, if_pos hl, Option.some_inj] at h
        exact h ▸ .loopDone hp hl
      | draining =>
        simp only [step, hp, if_pos hl, Option.some_inj] at h
        by_cases hn : (s.loopDone l).runningLoops = 0
        · rw [if_pos hn] at h
          exact h ▸ .lastDrained hp hl hn
        · rw [if_neg hn] at h
          exact h ▸ .loopDrained hp hl hn
      | returned => simp [step, hp] at h
    · simp [step, hl] at h
  | message id =>
    by_cases hp : s.phase = .returned
    · simp [step, hp] at h
    · simp only [step, Option.some_inj] at h
      exact h ▸ .message hp
  | newServers newServers order =>
    by_cases hp : s.phase = .running
    · simp only [step, if_pos hp] at h
      split at h
      · cases h
        exact .sameServers hp
      · split at h
        · next ho =>
          cases h
          exact .newServers hp ho
        · cases h
    · simp [step, hp] at h
  | shutdown order =>
    by_cases hc : s.phase = .running ∧ order.Perm s.sessionsById.keys
    · simp only [step, if_pos hc, Option.some_inj] at h
      exact h ▸ .shutdown hc.1 hc.2
    · simp only [step, if_neg hc] at h
      cases h

/-! ## The wait channels -/

def State.answers (s : State) (c : Nat) : List Answer :=
  (s.sent.filter fun x => x.1 = c).map Prod.snd

theorem answers_append {c : Nat} {err : Answer} (h : s'.sent = s.sent ++ [(c, err)]) (k : Nat) :
    s'.answers k = if k = c then s.answers k ++ [err] else s.answers k := by
  have hlast : s'.answers k = s.answers k ++ if c = k then [err] else [] := by
    show valuesFor k s'.sent = _
    rw [h, valuesFor_append, valuesFor_cons, valuesFor_nil, List.append_nil]
    rfl
  rw [hlast]
  by_cases hk : k = c
  · rw [if_pos hk, if_pos hk.symm]
  · rw [if_neg hk, if_neg (Ne.symm hk), List.append_nil]

/-- The sessions that are open, in both maps, and who has been answered. -/
structure Consistent (s : State) : Prop where
  byId : ∀ id sess, s.sessionsById.lookup id = some sess → sess.id = id
  byServer : ∀ serverId sess, s.sessionsByServer.lookup serverId = some sess →
    sess.serverId = serverId
  same : ∀ sess, s.sessionsById.lookup sess.id = some sess ↔
    s.sessionsByServer.lookup sess.serverId = some sess
  waiting : ∀ id sess, s.sessionsById.lookup id = some sess → s.answers sess.waitCh = []
  answered : ∀ c < s.starts, (∀ id sess, s.sessionsById.lookup id = some sess → sess.waitCh ≠ c) →
    ∃ err, s.answers c = [err]
  unused : ∀ c, s.starts ≤ c → s.answers c = []
  numbered : ∀ id sess, s.sessionsById.lookup id = some sess →
    id ≤ s.sessionCounter ∧ sess.waitCh < s.starts
  channels : ∀ id id' sess sess', s.sessionsById.lookup id = some sess →
    s.sessionsById.lookup id' = some sess' → sess.waitCh = sess'.waitCh → id = id'
  loops : s.runningLoops = s.loops.length
  drained : s.phase ≠ .running → ∀ id, s.sessionsById.lookup id = none

namespace Consistent

variable {s : State}

theorem indexed (h : Consistent s) :
    Indexed Session.id Session.serverId s.sessionsById s.sessionsByServer :=
  ⟨h.byId, h.byServer, h.same⟩

theorem onePerServer (h : Consistent s) {id id' : Nat} {sess sess' : Session}
    (hs : s.sessionsById.lookup id = some sess) (hs' : s.sessionsById.lookup id' = some sess')
    (he : sess.serverId = sess'.serverId) : sess = sess' :=
  h.indexed.eq_of_attr hs hs' he

theorem start (servers : Servers) : Consistent (initial servers) := by
  constructor <;> simp [initial, State.answers]

/-! ### Closing a session -/

theorem closeSession_eq (h : Consistent s) {id : Nat} {sess : Session} (err : Answer)
    (hs : s.sessionsById.lookup id = some sess) : s.closeSession id err = { s with
        sessionsById := s.sessionsById.erase id
        sessionsByServer := s.sessionsByServer.erase sess.serverId
        sent := s.sent ++ [(sess.waitCh, err)] } := by
  unfold State.closeSession
  rw [hs]
  dsimp only
  rw [h.byId id sess hs]

theorem closeSession_byId (h : Consistent s) (id : Nat) (err : Answer) (k : Nat) :
    (s.closeSession id err).sessionsById.lookup k =
      if k = id then none else s.sessionsById.lookup k := by
  cases hs : s.sessionsById.lookup id with
  | none =>
    have heq : s.closeSession id err = s := by
      unfold State.closeSession
      rw [hs]
    rw [heq]
    by_cases hk : k = id
    · rw [if_pos hk, hk, hs]
    · rw [if_neg hk]
  | some sess =>
    rw [h.closeSession_eq err hs]
    exact lookup_erase_if _ _ _

theorem closeSession (h : Consistent s) (id : Nat) (err : Answer) :
    Consistent (s.closeSession id err) := by
  cases hs : s.sessionsById.lookup id with
  | none =>
    have heq : s.closeSession id err = s := by
      unfold State.closeSession
      rw [hs]
    rw [heq]
    exact h
  | some sess =>
    have hold : ∀ {k sess'}, (s.sessionsById.erase id).lookup k = some sess' →
        k ≠ id ∧ s.sessionsById.lookup k = some sess' := lookup_erase_eq_some.mp
    have hsent : (s.closeSession id err).sent = s.sent ++ [(sess.waitCh, err)] := by
      rw [h.closeSession_eq err hs]
    have hanswers := answers_append hsent
    have hindexed := h.indexed.erase hs
    rw [h.closeSession_eq err hs] at hanswers ⊢
    refine ⟨hindexed.key_eq, hindexed.attr_eq, hindexed.same, ?_, ?_, ?_, ?_, ?_, h.loops, ?_⟩
    · intro k sess' hk
      obtain ⟨hne, hk⟩ := hold hk
      rw [hanswers, if_neg fun he => hne (h.channels k id sess' sess hk hs he)]
      exact h.waiting k sess' hk
    · intro c hc hno
      rw [hanswers]
      by_cases hcs : c = sess.waitCh
      · rw [if_pos hcs, hcs, h.waiting id sess hs]
        exact ⟨err, rfl⟩
      · rw [if_neg hcs]
        refine h.answered c hc fun k sess' hk he => ?_
        have hne : k ≠ id := by
          rintro rfl
          rw [hs] at hk
          cases hk
          exact hcs he.symm
        exact hno k sess' (lookup_erase_eq_some.mpr ⟨hne, hk⟩) he
    · intro c hc
      have hlt := (h.numbered id sess hs).2
      have hne : c ≠ sess.waitCh := by
        intro he
        dsimp only at hc
        omega
      rw [hanswers, if_neg hne]
      exact h.unused c hc
    · intro k sess' hk
      exact h.numbered k sess' (hold hk).2
    · intro k k' sess₁ sess₂ hk hk' he
      exact h.channels k k' sess₁ sess₂ (hold hk).2 (hold hk').2 he
    · intro hphase k
      rw [lookup_erase_if, h.drained hphase k, ite_self]

theorem closeSession_frame (s : State) (id : Nat) (err : Answer) :
    (s.closeSession id err).phase = s.phase ∧ (s.closeSession id err).loops = s.loops := by
  unfold State.closeSession
  split <;> exact ⟨rfl, rfl⟩

theorem closeSessions_loops (s : State) (ids : List Nat) (err : Answer) :
    (s.closeSessions ids err).loops = s.loops := by
  induction ids generalizing s with
  | nil => rfl
  | cons id ids ih => exact (ih _).trans (closeSession_frame s id err).2

theorem closeSessions (h : Consistent s) (ids : List Nat) (err : Answer) :
    Consistent (s.closeSessions ids err) ∧ ∀ k, (s.closeSessions ids err).sessionsById.lookup k =
        if k ∈ ids then none else s.sessionsById.lookup k := by
  induction ids generalizing s with
  | nil => exact ⟨h, fun k => by simp [State.closeSessions]⟩
  | cons id ids ih =>
    obtain ⟨hc, hlookup⟩ := ih (h.closeSession id err)
    refine ⟨hc, fun k => ?_⟩
    have hk := hlookup k
    rw [h.closeSession_byId] at hk
    show ((s.closeSession id err).closeSessions ids err).sessionsById.lookup k = _
    rw [hk]
    by_cases hmem : k ∈ ids
    · simp [hmem]
    · by_cases hid : k = id
      · simp [hid]
      · simp [hmem, hid]

/-! ### Starting a session -/

theorem reject (h : Consistent s) (err : SessionError) : Consistent (s.reject err) := by
  have hanswers : ∀ k, (s.reject err).answers k =
      if k = s.starts then s.answers k ++ [some err] else s.answers k := answers_append rfl
  refine ⟨h.byId, h.byServer, h.same, ?_, ?_, ?_, ?_, h.channels, h.loops, h.drained⟩
  · intro id sess hs
    have hlt := (h.numbered id sess hs).2
    rw [hanswers, if_neg (by omega)]
    exact h.waiting id sess hs
  · intro c hc hno
    rw [hanswers]
    by_cases hcs : c = s.starts
    · rw [if_pos hcs, hcs, h.unused _ (Nat.le_refl _)]
      exact ⟨some err, rfl⟩
    · rw [if_neg hcs]
      have hlt : c < s.starts + 1 := hc
      exact h.answered c (by omega) hno
  · intro c hc
    have hle : s.starts + 1 ≤ c := hc
    rw [hanswers, if_neg (by omega)]
    exact h.unused c (by omega)
  · intro id sess hs
    obtain ⟨hle, hlt⟩ := h.numbered id sess hs
    exact ⟨hle, Nat.lt_succ_of_lt hlt⟩

theorem closeOld (h : Consistent s) (serverId : Nat) :
    Consistent (s.closeOld serverId) ∧ (s.closeOld serverId).phase = s.phase ∧
      ∀ id sess, (s.closeOld serverId).sessionsById.lookup id = some sess →
        sess.serverId ≠ serverId := by
  unfold State.closeOld
  cases hold : s.sessionsByServer.lookup serverId with
  | none =>
    refine ⟨h, rfl, fun id sess hs he => ?_⟩
    have hsrv := h.indexed.by_attr hs
    rw [he, hold] at hsrv
    cases hsrv
  | some old =>
    refine ⟨h.closeSession old.id none, (closeSession_frame _ _ _).1, fun id sess hs he => ?_⟩
    rw [h.closeSession_byId] at hs
    split at hs
    · cases hs
    next hne =>
    have hsrv := h.indexed.by_attr hs
    rw [he, hold] at hsrv
    cases hsrv
    exact hne (h.byId id _ hs).symm

theorem addSession (h : Consistent s) (hrun : s.phase = .running) {serverId : Nat}
    (serverAddress : String) (hno : ∀ id sess, s.sessionsById.lookup id = some sess →
      sess.serverId ≠ serverId) : Consistent (s.addSession serverId serverAddress) := by
  have hfresh : s.sessionsById.lookup (s.sessionCounter + 1) = none := by
    cases hs : s.sessionsById.lookup (s.sessionCounter + 1) with
    | none => rfl
    | some sess =>
      have hle := (h.numbered _ sess hs).1
      omega
  have hfree : s.sessionsByServer.lookup serverId = none := by
    cases hs : s.sessionsByServer.lookup serverId with
    | none => rfl
    | some sess => exact absurd (h.byServer serverId sess hs) (hno _ _ (h.indexed.by_key hs))
  have hindexed := h.indexed.insert
    (show s.sessionsById.lookup
      (Session.mk (s.sessionCounter + 1) serverId serverAddress s.starts).id = none from hfresh)
    hfree
  have hnew : ∀ {k sess}, (s.addSession serverId serverAddress).sessionsById.lookup k = some sess →
      k = s.sessionCounter + 1 ∧
          sess = ⟨s.sessionCounter + 1, serverId, serverAddress, s.starts⟩ ∨
        k ≠ s.sessionCounter + 1 ∧ s.sessionsById.lookup k = some sess :=
    lookup_insert_eq_some.mp
  refine ⟨hindexed.key_eq, hindexed.attr_eq, hindexed.same, ?_, ?_, ?_, ?_, ?_, ?_, ?_⟩
  · intro k sess hk
    rcases hnew hk with ⟨rfl, rfl⟩ | ⟨_, hold⟩
    · exact h.unused _ (Nat.le_refl _)
    · exact h.waiting k sess hold
  · intro c hc hopen
    have hlt : c < s.starts + 1 := hc
    have hne : c ≠ s.starts := fun he =>
      hopen _ _ (lookup_insert_eq_some.mpr (.inl ⟨rfl, rfl⟩)) he.symm
    refine h.answered c (by omega) fun k sess hk => hopen k sess ?_
    refine lookup_insert_eq_some.mpr (.inr ⟨?_, hk⟩)
    have hle := (h.numbered k sess hk).1
    omega
  · intro c hc
    have hle : s.starts + 1 ≤ c := hc
    exact h.unused c (by omega)
  · intro k sess hk
    rcases hnew hk with ⟨rfl, rfl⟩ | ⟨_, hold⟩
    · exact ⟨Nat.le_refl _, Nat.lt_succ_self _⟩
    · obtain ⟨hle, hlt⟩ := h.numbered k sess hold
      exact ⟨Nat.le_succ_of_le hle, Nat.lt_succ_of_lt hlt⟩
  · intro k k' sess sess' hk hk' he
    rcases hnew hk with ⟨rfl, rfl⟩ | ⟨_, hold⟩ <;> rcases hnew hk' with ⟨rfl, rfl⟩ | ⟨_, hold'⟩
    · rfl
    · have hlt := (h.numbered k' sess' hold').2
      dsimp only at he
      omega
    · have hlt := (h.numbered k sess hold).2
      dsimp only at he
      omega
    · exact h.channels k k' sess sess' hold hold' he
  · have hloops := h.loops
    unfold State.addSession
    rw [List.length_append, hloops]
    simp
  · intro hphase
    exact absurd hrun hphase

theorem startSession (h : Consistent s) (hrun : s.phase = .running) (serverId : Nat)
    (serverAddress : String) : Consistent (s.startSession serverId serverAddress) := by
  unfold State.startSession
  split
  · exact h.reject _
  split
  · exact h.reject _
  · obtain ⟨hc, hphase, hno⟩ := h.closeOld serverId
    exact hc.addSession (hphase.trans hrun) serverAddress hno

/-! ### The end of a loop -/

theorem loopDone (h : Consistent s) {l : Loop} (hl : l ∈ s.loops) : Consistent (s.loopDone l) := by
  refine ⟨h.byId, h.byServer, h.same, h.waiting, h.answered, h.unused, h.numbered, h.channels, ?_,
    h.drained⟩
  have hloops := h.loops
  have hpos := List.length_pos_of_mem hl
  show s.runningLoops - 1 = ((s.loops.erase l).length : Int)
  rw [List.length_erase_of_mem hl]
  omega

theorem setPhase (h : Consistent s) (phase : Phase) (hno : ∀ id, s.sessionsById.lookup id = none) :
    Consistent { s with phase := phase } :=
  ⟨h.byId, h.byServer, h.same, h.waiting, h.answered, h.unused, h.numbered, h.channels, h.loops,
    fun _ => hno⟩

theorem step {s' : State} {e : Event} (h : Consistent s) (hs : step s e = some s') :
    Consistent s' := by
  cases step_cases hs with
  | start hp => exact h.startSession hp _ _
  | startRejected _ => exact h.reject _
  | loopDone _ hl => exact (h.loopDone hl).closeSession _ _
  | loopDrained _ hl _ => exact h.loopDone hl
  | lastDrained hp hl _ => exact (h.loopDone hl).setPhase _ (h.drained (by simp [hp]))
  | message _ => exact h
  | sameServers _ => exact h
  | @newServers _ order _ _ =>
    have hc := (h.closeSessions order (some .notRegistered)).1
    exact ⟨hc.byId, hc.byServer, hc.same, hc.waiting, hc.answered, hc.unused, hc.numbered,
      hc.channels, hc.loops, hc.drained⟩
  | @shutdown order _ ho =>
    obtain ⟨hall, hlookup⟩ := h.closeSessions order none
    refine hall.setPhase _ fun id => ?_
    rw [hlookup]
    split
    · rfl
    · next hmem =>
      rw [AList.lookup_eq_none]
      exact fun hin => hmem (ho.mem_iff.mpr (AList.mem_keys.mp hin))

end Consistent

theorem run_consistent {servers : Servers} {es : List Event}
    (h : runSteps step (initial servers) es = some s) : Consistent s :=
  runSteps_preserves step Consistent (fun _ _ _ hi hs => hi.step hs) (.start servers) h

theorem loopDone_others {l : Loop} {err : Answer} (h : Consistent s)
    (hs : step s (.loopDone l err) = some s') {id : Nat} {sess : Session}
    (hopen : s.sessionsById.lookup id = some sess) (hne : id ≠ l.session) :
    s'.sessionsById.lookup id = some sess ∧ s'.sessionsByServer.lookup sess.serverId = some sess ∧
      s'.answers sess.waitCh = [] := by
  have hc := h.step hs
  have hstill : s'.sessionsById.lookup id = some sess := by
    cases step_cases hs with
    | loopDone _ hl =>
      rw [(h.loopDone hl).closeSession_byId, if_neg hne]
      exact hopen
    | loopDrained hp _ _ =>
      rw [h.drained (by simp [hp])] at hopen
      cases hopen
    | lastDrained hp _ _ =>
      rw [h.drained (by simp [hp])] at hopen
      cases hopen
  have hid := h.byId id sess hopen
  exact ⟨hstill, (hc.same sess).mp (hid.symm ▸ hstill), hc.waiting id sess hstill⟩

/-- **The bookkeeping of the sessions is consistent** in every state that is reached: both
maps have the same sessions, one for each server; a start has had one answer, or none
while its session is open; the counter is the number of loops that are not done. The end
of a loop never closes a session other than its own. -/
theorem bookkeeping_consistent {servers : Servers} {es : List Event} {s : State}
    (h : runSteps step (initial servers) es = some s) : Consistent s ∧
    (∀ id id' sess sess', s.sessionsById.lookup id = some sess →
      s.sessionsById.lookup id' = some sess' → sess.serverId = sess'.serverId → sess = sess') ∧
    ∀ l err s', step s (.loopDone l err) = some s' →
      ∀ id sess, s.sessionsById.lookup id = some sess → id ≠ l.session →
        s'.sessionsById.lookup id = some sess ∧
        s'.sessionsByServer.lookup sess.serverId = some sess ∧ s'.answers sess.waitCh = [] := by
  have hc := run_consistent h
  refine ⟨hc, ?_, ?_⟩
  · intro id id' sess sess' hs hs' he
    exact hc.onePerServer hs hs' he
  · intro l err s' hs id sess hopen hne
    exact loopDone_others hc hs hopen hne

def oneDataServer : Servers :=
  ⟨1, 1, .made ((∅ : AList fun _ : Nat => Server).insert 2 ⟨2, "d2", .data, [], 0, none, ""⟩), 2,
    .empty⟩

/-- A server connects again, and then the loops of its first session end. -/
def reconnect : List Event :=
  [.start 2 "a", .start 3 "b", .start 2 "c", .loopDone ⟨1, .recv⟩ none, .loopDone ⟨1, .send⟩ none]

theorem bookkeeping_consistent_reconnect :
    ∃ s, runSteps step (initial oneDataServer) reconnect = some s ∧ Consistent s ∧
      s.sessionsById.lookup 2 = some ⟨2, 2, "c", 2⟩ ∧ s.runningLoops = 2 ∧
      s.sent = [(1, some .notRegistered), (0, none)] := by
  have hrun : runSteps step (initial oneDataServer) reconnect = some _ := rfl
  exact ⟨_, hrun, (bookkeeping_consistent hrun).1, rfl, rfl, rfl⟩

/-! ## The drain -/

/-- All loops are done, and the main loop waits for a message. -/
def Hangs (s : State) : Prop := s.phase = .draining ∧ s.loops = []

/-- There is a message to come, or the main loop has returned. -/
def Drains (s : State) : Prop := s.phase = .draining ∧ s.loops ≠ [] ∨ s.phase = .returned

theorem runningLoops_eq_zero (h : Consistent s) : s.runningLoops = 0 ↔ s.loops = [] := by
  rw [h.loops, ← List.length_eq_zero_iff]
  omega

theorem drains_step {e : Event} (h : Consistent s) (hd : Drains s) (hs : step s e = some s') :
    Drains s' := by
  have hc := h.step hs
  have hrun : s.phase ≠ .running := by
    rcases hd with ⟨hp, _⟩ | hp <;> simp [hp]
  cases step_cases hs with
  | start hp => exact absurd hp hrun
  | startRejected _ => exact hd
  | loopDone hp _ => exact absurd hp hrun
  | loopDrained hp _ hn =>
    refine .inl ⟨hp, fun hnil => hn ?_⟩
    exact (runningLoops_eq_zero hc).mpr hnil
  | lastDrained _ _ _ => exact .inr rfl
  | message _ => exact hd
  | sameServers hp => exact absurd hp hrun
  | newServers hp _ => exact absurd hp hrun
  | shutdown hp _ => exact absurd hp hrun

theorem drains_run {es : List Event} (h : Consistent s) (hd : Drains s)
    (hrun : runSteps step s es = some s') : Drains s' := by
  have hboth := runSteps_preserves step (fun s => Consistent s ∧ Drains s)
    (fun _ _ _ hi hs => ⟨hi.1.step hs, drains_step hi.1 hi.2 hs⟩) ⟨h, hd⟩ hrun
  exact hboth.2

def dones (ls : List (Loop × Answer)) : List Event := ls.map fun x => .loopDone x.1 x.2

/-- The loops report in any order; with the last one the main loop returns. -/
theorem drain_returns (h : Consistent s) (hp : s.phase = .draining) {ls : List (Loop × Answer)}
    (hperm : (ls.map Prod.fst).Perm s.loops) (hne : s.loops ≠ []) :
    ∃ s', runSteps step s (dones ls) = some s' ∧ s'.phase = .returned := by
  induction ls generalizing s with
  | nil => exact absurd hperm.symm.eq_nil hne
  | cons x ls ih =>
    have hl : x.1 ∈ s.loops := hperm.mem_iff.mp (by simp)
    have hrest : (ls.map Prod.fst).Perm (s.loopDone x.1).loops :=
      (List.cons_perm_iff_perm_erase.mp hperm).2
    have hd := h.loopDone hl
    have hstep : step s (.loopDone x.1 x.2) = some (if (s.loopDone x.1).runningLoops = 0 then
        { s.loopDone x.1 with phase := .returned } else s.loopDone x.1) := by
      simp only [step, if_pos hl, hp]
    show ∃ s', (step s (.loopDone x.1 x.2)).bind _ = some s' ∧ _
    rw [hstep]
    by_cases hn : (s.loopDone x.1).runningLoops = 0
    · rw [if_pos hn]
      rw [runningLoops_eq_zero hd] at hn
      rw [hn] at hrest
      rw [List.map_eq_nil_iff.mp hrest.eq_nil]
      exact ⟨_, rfl, rfl⟩
    · rw [if_neg hn]
      exact ih hd hp hrest fun hnil => hn ((runningLoops_eq_zero hd).mpr hnil)

/-- **The drain comes to an end**, whatever arrives in whatever order, exactly if a loop is
running when the tracker is stopped. -/
theorem drain_ends_iff {servers : Servers} {es : List Event} {s s₁ : State} {order : List Nat}
    (h : runSteps step (initial servers) es = some s) (hs : step s (.shutdown order) = some s₁) :
    ((∀ es' s', runSteps step s₁ es' = some s' → ¬Hangs s') ∧
      ∀ ls : List (Loop × Answer), (ls.map Prod.fst).Perm s.loops →
        ∃ s', runSteps step s₁ (dones ls) = some s' ∧ s'.phase = .returned) ↔
      s.runningLoops ≠ 0 := by
  have hc := run_consistent h
  have hc₁ := hc.step hs
  have hs₁ : s₁.phase = .draining ∧ s₁.loops = s.loops := by
    cases step_cases hs with
    | shutdown _ _ => exact ⟨rfl, Consistent.closeSessions_loops _ _ _⟩
  rw [Ne, runningLoops_eq_zero hc]
  constructor
  · rintro ⟨hnever, _⟩ hnil
    exact hnever [] s₁ rfl ⟨hs₁.1, hs₁.2.trans hnil⟩
  · intro hne
    have hne₁ : s₁.loops ≠ [] := hs₁.2 ▸ hne
    constructor
    · intro es' s' hrun ⟨hp, hnil⟩
      rcases drains_run hc₁ (.inl ⟨hs₁.1, hne₁⟩) hrun with ⟨_, hne'⟩ | hp'
      · exact hne' hnil
      · rw [hp] at hp'
        cases hp'
    · intro ls hperm
      exact drain_returns hc₁ hs₁.1 (hs₁.2 ▸ hperm) hne₁

/-- A session is open when the tracker is stopped. -/
theorem drain_ends_iff_open : ∃ s s₁,
    runSteps step (initial oneDataServer) [.start 2 "a"] = some s ∧
    step s (.shutdown [1]) = some s₁ ∧ s.runningLoops ≠ 0 ∧
    ∀ es' s', runSteps step s₁ es' = some s' → ¬Hangs s' := by
  have hrun : runSteps step (initial oneDataServer) [.start 2 "a"] = some _ := rfl
  have hstop : step (((initial oneDataServer).closeOld 2).addSession 2 "a") (.shutdown [1]) =
      some _ := rfl
  have hne : (((initial oneDataServer).closeOld 2).addSession 2 "a").runningLoops ≠ 0 := by decide
  exact ⟨_, _, hrun, hstop, hne, ((drain_ends_iff hrun hstop).mpr hne).1⟩

/-- Without a session the drain waits for a message that nobody sends, and other messages
do not end it. -/
theorem drain_hangs : ∃ s₁ s₂, runSteps step (initial oneDataServer) [.shutdown []] = some s₁ ∧
    Hangs s₁ ∧ (∀ l err, step s₁ (.loopDone l err) = none) ∧
    step s₁ (.start 2 "a") = some s₂ ∧ Hangs s₂ :=
  ⟨_, _, rfl, ⟨rfl, rfl⟩, fun _ _ => rfl, rfl, rfl, rfl⟩

end Scout.Sessions.Bookkeeping
