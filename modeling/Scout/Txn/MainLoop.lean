import Scout.Lib.Channels
import Scout.Txn.Service

/-!
The loop of the writer (`writer.go`, `mainLoop`) and what it sends to the callers that
wait for a result. Commands of seven kinds are collected into one batch, with a list of
channels for each kind beside it. The batch goes to Raft when the timer fires or when it
is full, and its results are sent by index to the channels.

A place is a batch, a kind and an index. A command keeps the place that it gets when it
is accepted, and what its channel is sent is a function of the place.
-/

namespace Scout.Txn.MainLoop

open Data Mvcc Lib

inductive Kind where
  | autocommit
  | prepare
  | commit
  | abort
  | storeDecision
  | markTimedout
  | updateTimestamp
  deriving DecidableEq

/-- The payloads that the loop knows; it panics on others, which no caller sends. -/
inductive Payload where
  | cmd (c : Cmd)
  | updateTimestamp (timestamp : Nat)

def Cmd.kind : Cmd → Kind
  | .abort _ => .abort
  | .markTimedout _ => .markTimedout
  | .commit _ => .commit
  | .autocommit _ => .autocommit
  | .prepare _ => .prepare
  | .storeDecision _ => .storeDecision

def Payload.kind : Payload → Kind
  | .cmd c => Cmd.kind c
  | .updateTimestamp _ => .updateTimestamp

def cmds (b : TxnBatch) : Kind → List Cmd
  | .autocommit => b.autocommit.map .autocommit
  | .prepare => b.prepare.map .prepare
  | .commit => b.commit.map .commit
  | .abort => b.abort.map .abort
  | .storeDecision => b.storeDecision.map .storeDecision
  | .markTimedout => b.markTimedout.map .markTimedout
  | .updateTimestamp => []

def resultsOf (r : BatchResults) : Kind → List BatchResult
  | .autocommit => r.autocommit
  | .prepare => r.prepare
  | .commit => r.commit
  | .abort => r.abort
  | .storeDecision => r.storeDecision
  | .markTimedout => r.markTimedout
  | .updateTimestamp => []

/-- The lists of channels. A channel is named by the number of its command. -/
abbrev BatchWaiting := Kind → List Nat

def BatchWaiting.push (w : BatchWaiting) (k : Kind) (c : Nat) : BatchWaiting :=
  fun j => if j = k then w k ++ [c] else w j

/-- An error of the manager, or any other error of Raft. -/
inductive Failure where
  | err (e : Err)
  | raft (text : String)

/-- `BatchResult`; both fields may be nil. -/
abbrev Reply := Except Failure (Option TxnStatus)

def reply : BatchResult → Reply
  | .ok status => .ok (some status)
  | .error e => .error (.err e)

/-- The state in which the entry of a batch is applied, its index and the wall clock. -/
structure Applied where
  state : Manager × Store
  index : Nat
  now : Int

def Applied.results (a : Applied) (b : TxnBatch) : BatchResults :=
  (applyEntry a.state ⟨a.index, a.now, b⟩).2

/-- A batch that Raft has been given, with the `AsyncResult` if there is one. -/
structure Flight where
  batch : TxnBatch
  waiting : BatchWaiting
  answer : Option (Except Failure Applied)

structure State where
  clock : Clock
  batch : TxnBatch := {}
  waiting : BatchWaiting := fun _ => []
  batchSize : Nat := 0
  /-- The timer is running. -/
  armed : Bool := false
  /-- The loop has returned. -/
  done : Bool := false
  crashed : Bool := false
  /-- All commands received so far. -/
  accepted : List Payload := []
  sent : List Flight := []
  /-- All values sent to channels so far. -/
  outbox : List (Nat × Reply) := []

inductive Event where
  /-- A command is received; `drift` are the readings of the clock, should the batch be full. -/
  | apply (payload : Payload) (drift : List Nat)
  | timer (drift : List Nat)
  /-- The result of a batch arrives. -/
  | result (n : Nat) (answer : Except Failure Applied)
  /-- Others use the clock. -/
  | observe (timestamp : Nat)
  | shutdown

def resultKinds : List Kind :=
  [.autocommit, .prepare, .commit, .abort, .storeDecision, .markTimedout]

def sendBatchErr (w : BatchWaiting) (e : Failure) : List (Nat × Reply) :=
  (Kind.updateTimestamp :: resultKinds).flatMap fun k => (w k).map fun c => (c, .error e)

/-- An index out of range is a panic. -/
def waitBatchResult (f : Flight) : Except Failure Applied → Option (List (Nat × Reply))
  | .error e => some (sendBatchErr f.waiting e)
  | .ok a => do
    let sends ← resultKinds.mapM fun k =>
      sendAll (f.waiting k) ((resultsOf (a.results f.batch) k).map reply)
    return (f.waiting .updateTimestamp).map (fun c => (c, .ok none)) ++ sends.flatten

def State.nextBatch (s : State) (drift : List Nat) : State :=
  let r := prepareBatch s.clock drift s.batch
  { s with
    clock := r.1
    batch := {}
    waiting := fun _ => []
    batchSize := 0
    armed := false
    sent := s.sent ++ [⟨r.2, s.waiting, none⟩] }

def addPayload (b : TxnBatch) : Payload → TxnBatch
  | .cmd c => addCmd b c
  | .updateTimestamp t => { b with maxTimestamp := max b.maxTimestamp t }

def State.add (s : State) (p : Payload) : State :=
  { s with
    batch := addPayload s.batch p
    waiting := s.waiting.push p.kind s.accepted.length
    batchSize := s.batchSize + 1
    accepted := s.accepted ++ [p] }

def State.receive (s : State) (f : Flight) (n : Nat) (answer : Except Failure Applied) : State :=
  match waitBatchResult f answer with
  | none => { s with crashed := true }
  | some sends =>
    { s with
      sent := s.sent.set n { f with answer := some answer }
      outbox := s.outbox ++ sends }

def State.shutdown (s : State) : State :=
  { s with
    done := true
    outbox := s.outbox ++
      if s.batchSize = 0 then [] else sendBatchErr s.waiting (.err .unavailable) }

section Step

variable (maxBatchSize : Int)

/-- A batch of one command waits for the timer, whatever the limit is. -/
def State.accept (s : State) (p : Payload) (drift : List Nat) : State :=
  let s := s.add p
  if s.batchSize = 1 then { s with armed := true }
  else if (s.batchSize : Int) = maxBatchSize then s.nextBatch drift
  else s

/-- An event that cannot happen in the state leaves it alone. The results of batches are
also awaited after the loop has returned. -/
def step (s : State) : Event → State
  | .apply p drift => if s.done then s else s.accept maxBatchSize p drift
  | .timer drift => if s.done || !s.armed then s else s.nextBatch drift
  | .result n answer =>
    match s.sent[n]? with
    | none => s
    | some f => if f.answer.isSome then s else s.receive f n answer
  | .observe t => { s with clock := s.clock.update t }
  | .shutdown => if s.done then s else s.shutdown

def run (s : State) (es : List Event) : State := es.foldl (step maxBatchSize) s

end Step

/-! ## Places -/

structure Place where
  batch : Nat
  kind : Kind
  index : Nat
  deriving DecidableEq

/-- The lists of the batch with this number; the last one is not sent yet. -/
def State.waitingOf (s : State) (n : Nat) : BatchWaiting :=
  match s.sent[n]? with
  | some f => f.waiting
  | none => if n = s.sent.length then s.waiting else fun _ => []

def State.chanAt (s : State) (x : Place) : Option Nat :=
  (s.waitingOf x.batch x.kind)[x.index]?

/-- What the command at a place of the batch is to be sent. -/
def Flight.replies (f : Flight) (k : Kind) (i : Nat) : List Reply :=
  match f.answer with
  | none => []
  | some (.error e) => [.error e]
  | some (.ok a) =>
    if k = .updateTimestamp then [.ok none]
    else ((resultsOf (a.results f.batch) k)[i]?.map reply).toList

def State.due (s : State) (x : Place) : List Reply :=
  match s.sent[x.batch]? with
  | some f => f.replies x.kind x.index
  | none => if s.done then [.error (.err .unavailable)] else []

/-- The batch has the command there, as `R` says. -/
def Carries (R : Cmd → Cmd → Prop) (b : TxnBatch) (i : Nat) : Payload → Prop
  | .cmd c => ∃ d, (cmds b (Cmd.kind c))[i]? = some d ∧ R c d
  | .updateTimestamp t => t ≤ b.maxTimestamp

/-- The command with a timestamp set by `prepareBatch`. -/
def Stamped (c d : Cmd) : Prop := ∃ t, d = c.stamp t

structure Aligned (accepted : List Payload) (R : Cmd → Cmd → Prop) (b : TxnBatch)
    (w : BatchWaiting) : Prop where
  length : ∀ k, k ≠ .updateTimestamp → (w k).length = (cmds b k).length
  carries : ∀ k i c, (w k)[i]? = some c → ∃ p, accepted[c]? = some p ∧ p.kind = k ∧ Carries R b i p

structure Ordered (b : TxnBatch) : Prop where
  sorted : (stamps b).Pairwise (· < ·)
  stamp_le : ∀ t ∈ stamps b, t ≤ b.maxTimestamp
  commit_le : ∀ c ∈ b.commit, c.timestamp ≤ b.maxTimestamp

structure Inv (s : State) : Prop where
  alive : s.crashed = false
  idle : s.batchSize = 0 → ∀ k, s.waiting k = []
  current : Aligned s.accepted Eq s.batch s.waiting
  flights : ∀ f ∈ s.sent, Aligned s.accepted Stamped f.batch f.waiting ∧ Ordered f.batch
  placed : ∀ c, c < s.accepted.length → ∃ x, s.chanAt x = some c
  unique : ∀ x y c, s.chanAt x = some c → s.chanAt y = some c → x = y
  replies : ∀ x c, s.chanAt x = some c → valuesFor c s.outbox = s.due x
  silent : ∀ c, s.accepted.length ≤ c → valuesFor c s.outbox = []

theorem inv_init (clock : Clock) : Inv { clock } := by
  have hnone : ∀ x, State.chanAt { clock } x = none := by
    intro x
    unfold State.chanAt State.waitingOf
    simp
  constructor
  · rfl
  · exact fun _ _ => rfl
  · constructor
    · intro k _
      cases k <;> rfl
    · intro k i c h
      simp at h
  · nofun
  · nofun
  · intro x y c h
    rw [hnone] at h
    cases h
  · intro x c h
    rw [hnone] at h
    cases h
  · exact fun _ _ => rfl

/-! ## A command is accepted -/

variable {accepted : List Payload} {b : TxnBatch} {w : BatchWaiting}

theorem Aligned.mono {R : Cmd → Cmd → Prop} (h : Aligned accepted R b w) (p : Payload) :
    Aligned (accepted ++ [p]) R b w := by
  refine ⟨h.length, fun k i c hc => ?_⟩
  obtain ⟨q, hq, hrest⟩ := h.carries k i c hc
  obtain ⟨hlt, _⟩ := List.getElem?_eq_some_iff.mp hq
  exact ⟨q, by rw [List.getElem?_append_left hlt]; exact hq, hrest⟩

theorem cmds_addCmd (b : TxnBatch) (c : Cmd) (k : Kind) :
    cmds (addCmd b c) k = if k = Cmd.kind c then cmds b k ++ [c] else cmds b k := by
  cases c <;> cases k <;> simp [cmds, addCmd, Cmd.kind]

theorem cmds_updateTimestamp (b : TxnBatch) (t : Nat) (k : Kind) :
    cmds (addPayload b (.updateTimestamp t)) k = cmds b k := by
  cases k <;> rfl

theorem addCmd_maxTimestamp (b : TxnBatch) (c : Cmd) :
    (addCmd b c).maxTimestamp = b.maxTimestamp := by
  cases c <;> rfl

theorem Cmd.kind_ne (c : Cmd) : Cmd.kind c ≠ .updateTimestamp := by
  cases c <;> nofun

theorem Carries.add {i : Nat} {q : Payload} (h : Carries Eq b i q) (p : Payload) :
    Carries Eq (addPayload b p) i q := by
  cases q with
  | updateTimestamp t =>
    have h : t ≤ b.maxTimestamp := h
    cases p with
    | cmd c => exact h.trans_eq (addCmd_maxTimestamp b c).symm
    | updateTimestamp u => exact h.trans (le_max_left _ _)
  | cmd d =>
    obtain ⟨_, hd, rfl⟩ := h
    refine ⟨d, ?_, rfl⟩
    cases p with
    | updateTimestamp u => rw [cmds_updateTimestamp, hd]
    | cmd c =>
      show (cmds (addCmd b c) _)[i]? = _
      rw [cmds_addCmd]
      split
      · obtain ⟨hlt, _⟩ := List.getElem?_eq_some_iff.mp hd
        rw [List.getElem?_append_left hlt, hd]
      · exact hd

theorem push_self (w : BatchWaiting) (k : Kind) (c : Nat) : w.push k c k = w k ++ [c] := if_pos rfl

theorem push_of_ne (w : BatchWaiting) {j k : Kind} (c : Nat) (h : j ≠ k) : w.push k c j = w j :=
  if_neg h

theorem Aligned.add (h : Aligned accepted Eq b w) (p : Payload) :
    Aligned (accepted ++ [p]) Eq (addPayload b p) (w.push p.kind accepted.length) := by
  constructor
  · intro k hk
    have hlen := h.length k hk
    cases p with
    | updateTimestamp t =>
      rw [cmds_updateTimestamp, ← hlen]
      exact congrArg List.length (push_of_ne w _ hk)
    | cmd c =>
      show _ = (cmds (addCmd b c) k).length
      rw [cmds_addCmd]
      by_cases hkc : k = Cmd.kind c
      · rw [if_pos hkc, List.length_append, ← hlen, hkc]
        show (w.push (Cmd.kind c) _ (Cmd.kind c)).length = _
        rw [push_self, List.length_append]
        rfl
      · rw [if_neg hkc, ← hlen]
        exact congrArg List.length (push_of_ne w _ hkc)
  · intro k i c hc
    by_cases hk : k = p.kind
    · subst hk
      rw [push_self, List.getElem?_append] at hc
      split at hc
      · obtain ⟨q, hq, hqk, hcar⟩ := (h.mono p).carries p.kind i c hc
        exact ⟨q, hq, hqk, hcar.add p⟩
      · next hi =>
        -- the new channel, at the end of the list
        have hii : i = (w p.kind).length := by
          have := (List.getElem?_eq_some_iff.mp hc).1
          simp at this
          omega
        subst hii
        rw [Nat.sub_self] at hc
        cases hc
        refine ⟨p, by simp, rfl, ?_⟩
        cases p with
        | updateTimestamp t => exact le_max_right _ _
        | cmd d =>
          refine ⟨d, ?_, rfl⟩
          show (cmds (addCmd b d) _)[_]? = _
          rw [cmds_addCmd, if_pos rfl]
          show (cmds b (Cmd.kind d) ++ [d])[(w (Cmd.kind d)).length]? = _
          rw [h.length _ (Cmd.kind_ne d)]
          simp
    · rw [push_of_ne w _ hk] at hc
      obtain ⟨q, hq, hqk, hcar⟩ := (h.mono p).carries k i c hc
      exact ⟨q, hq, hqk, hcar.add p⟩

theorem waitingOf_current (s : State) : s.waitingOf s.sent.length = s.waiting := by
  unfold State.waitingOf
  simp

variable {s : State} {n : Nat} {f : Flight}

theorem waitingOf_flight (h : s.sent[n]? = some f) : s.waitingOf n = f.waiting := by
  unfold State.waitingOf
  rw [h]

theorem chanAt_flight (h : s.sent[n]? = some f) (k : Kind) (i : Nat) :
    s.chanAt ⟨n, k, i⟩ = (f.waiting k)[i]? := by
  unfold State.chanAt
  rw [waitingOf_flight h]

theorem add_chanAt (s : State) (p : Payload) (x : Place) : (s.add p).chanAt x =
    if x = ⟨s.sent.length, p.kind, (s.waiting p.kind).length⟩ then some s.accepted.length
    else s.chanAt x := by
  obtain ⟨n, k, i⟩ := x
  unfold State.chanAt
  simp only [Place.mk.injEq]
  by_cases hn : n = s.sent.length
  · subst hn
    have hnew : (s.add p).waitingOf s.sent.length = s.waiting.push p.kind s.accepted.length :=
      waitingOf_current (s.add p)
    rw [hnew, waitingOf_current]
    by_cases hk : k = p.kind
    · subst hk
      rw [push_self, List.getElem?_append]
      by_cases hi : i < (s.waiting p.kind).length
      · rw [if_pos hi, if_neg fun h => by omega]
      rw [if_neg hi]
      by_cases hi' : i = (s.waiting p.kind).length
      · simp [hi']
      · rw [if_neg fun h => hi' h.2.2, List.getElem?_eq_none (by simp; omega),
          List.getElem?_eq_none (by omega)]
    · rw [push_of_ne _ _ hk, if_neg fun h => hk h.2.1]
  · have hold : (s.add p).waitingOf n = s.waitingOf n := by
      unfold State.waitingOf
      show (match s.sent[n]? with
        | some f => f.waiting
        | none => if n = s.sent.length then _ else fun _ => []) = _
      cases s.sent[n]? with
      | some f => rfl
      | none => simp [hn]
    rw [hold, if_neg fun h => hn h.1]

variable {x : Place} {c : Nat}

theorem Inv.payload (h : Inv s) (hx : s.chanAt x = some c) :
    ∃ p, s.accepted[c]? = some p ∧ p.kind = x.kind := by
  unfold State.chanAt State.waitingOf at hx
  cases hf : s.sent[x.batch]? with
  | some f =>
    rw [hf] at hx
    obtain ⟨p, hp, hk, _⟩ := (h.flights f (List.mem_of_getElem? hf)).1.carries _ _ _ hx
    exact ⟨p, hp, hk⟩
  | none =>
    rw [hf] at hx
    dsimp only at hx
    split at hx
    · obtain ⟨p, hp, hk, _⟩ := h.current.carries _ _ _ hx
      exact ⟨p, hp, hk⟩
    · simp at hx

theorem Inv.chan_lt (h : Inv s) (hx : s.chanAt x = some c) : c < s.accepted.length := by
  obtain ⟨p, hp, _⟩ := h.payload hx
  exact (List.getElem?_eq_some_iff.mp hp).1

theorem Inv.add (h : Inv s) (hd : s.done = false) (p : Payload) : Inv (s.add p) := by
  constructor
  · exact h.alive
  · exact fun hz => absurd hz (Nat.succ_ne_zero _)
  · exact h.current.add p
  · exact fun f hf => ⟨(h.flights f hf).1.mono p, (h.flights f hf).2⟩
  · intro c hc
    by_cases hlt : c < s.accepted.length
    · obtain ⟨x, hx⟩ := h.placed c hlt
      refine ⟨x, ?_⟩
      rw [add_chanAt, if_neg, hx]
      rintro rfl
      unfold State.chanAt at hx
      rw [waitingOf_current, List.getElem?_eq_none (le_refl _)] at hx
      cases hx
    · have hlen : (s.add p).accepted.length = s.accepted.length + 1 := List.length_append
      refine ⟨_, (add_chanAt s p _).trans ((if_pos rfl).trans ?_)⟩
      rw [show c = s.accepted.length by omega]
  · intro x y c hx hy
    rw [add_chanAt] at hx hy
    split at hx
    · split at hy
      · simp_all
      · cases hx
        exact absurd (h.chan_lt hy) (Nat.lt_irrefl _)
    · split at hy
      · cases hy
        exact absurd (h.chan_lt hx) (Nat.lt_irrefl _)
      · exact h.unique x y c hx hy
  · intro x c hx
    rw [add_chanAt] at hx
    split at hx
    · next he =>
      cases hx
      have hdue : (s.add p).due x = [] := by
        rw [he]
        show (match s.sent[s.sent.length]? with
          | some f => f.replies _ _
          | none => if s.done then _ else []) = _
        simp [hd]
      rw [hdue]
      exact h.silent _ (le_refl _)
    · exact h.replies x c hx
  · intro c hc
    have hlen : (s.add p).accepted.length = s.accepted.length + 1 := List.length_append
    exact h.silent c (by omega)

/-! ## A batch is sent -/

theorem cmds_prepareBatch (clock : Clock) (drift : List Nat) (b : TxnBatch) (k : Kind) (i : Nat) :
    ∃ t, (cmds (prepareBatch clock drift b).2 k)[i]? = (cmds b k)[i]?.map (Cmd.stamp t) := by
  have stamped : ∀ {α : Type} (set : Nat → α → α) (wrap : α → Cmd) (s : Stamper) (xs : List α),
      (∀ t x, wrap (set t x) = (wrap x).stamp t) →
      ∃ t, ((stampAll set s xs).2.map wrap)[i]? = (xs.map wrap)[i]?.map (Cmd.stamp t) := by
    intro α set wrap s xs hwrap
    obtain ⟨t, ht⟩ := stampAll_getElem? set s xs i
    refine ⟨t, ?_⟩
    rw [List.getElem?_map, List.getElem?_map, ht, Option.map_map, Option.map_map]
    exact congrFun (congrArg Option.map (funext (hwrap t))) _
  cases k with
  | autocommit => exact stamped _ Cmd.autocommit _ _ fun _ _ => rfl
  | prepare => exact stamped _ Cmd.prepare _ _ fun _ _ => rfl
  | abort => exact stamped _ Cmd.abort _ _ fun _ _ => rfl
  | storeDecision => exact stamped _ Cmd.storeDecision _ _ fun _ _ => rfl
  | markTimedout => exact stamped _ Cmd.markTimedout _ _ fun _ _ => rfl
  | updateTimestamp => exact ⟨0, rfl⟩
  | commit =>
    refine ⟨0, ?_⟩
    show (b.commit.map Cmd.commit)[i]? = (b.commit.map Cmd.commit)[i]?.map (Cmd.stamp 0)
    rw [List.getElem?_map, Option.map_map]
    rfl

theorem cmds_prepareBatch_length (clock : Clock) (drift : List Nat) (b : TxnBatch) (k : Kind) :
    (cmds (prepareBatch clock drift b).2 k).length = (cmds b k).length := by
  cases k <;> simp [cmds, prepareBatch, stampAll]

theorem Aligned.prepare (h : Aligned accepted Eq b w) (clock : Clock) (drift : List Nat) :
    Aligned accepted Stamped (prepareBatch clock drift b).2 w := by
  constructor
  · intro k hk
    rw [cmds_prepareBatch_length]
    exact h.length k hk
  · intro k i c hc
    obtain ⟨p, hp, hk, hcar⟩ := h.carries k i c hc
    refine ⟨p, hp, hk, ?_⟩
    cases p with
    | updateTimestamp t =>
      have hle : t ≤ b.maxTimestamp := hcar
      exact hle.trans (prepareBatch_max clock drift b).1
    | cmd a =>
      obtain ⟨_, ha, rfl⟩ := hcar
      obtain ⟨t, ht⟩ := cmds_prepareBatch clock drift b (Cmd.kind a) i
      rw [ha] at ht
      exact ⟨a.stamp t, ht, t, rfl⟩

theorem prepareBatch_ordered (clock : Clock) (drift : List Nat) (b : TxnBatch) :
    Ordered (prepareBatch clock drift b).2 := by
  obtain ⟨_, _, h, _⟩ := prepareBatch_stampedBy clock drift b
  obtain ⟨_, hstamp, hcommit⟩ := prepareBatch_max clock drift b
  exact ⟨h.sorted, hstamp, hcommit⟩

theorem nextBatch_waitingOf (s : State) (drift : List Nat) (n : Nat) :
    (s.nextBatch drift).waitingOf n = s.waitingOf n := by
  unfold State.waitingOf State.nextBatch
  rcases Nat.lt_trichotomy n s.sent.length with hn | hn | hn
  · rw [List.getElem?_append_left hn, List.getElem?_eq_getElem hn]
  · subst hn
    simp
  · rw [List.getElem?_eq_none (by simp; omega), List.getElem?_eq_none hn.le]
    simp [hn.ne']

theorem nextBatch_due (hd : s.done = false) (drift : List Nat) (x : Place) :
    (s.nextBatch drift).due x = s.due x := by
  unfold State.due State.nextBatch
  rw [hd]
  rcases Nat.lt_trichotomy x.batch s.sent.length with hn | hn | hn
  · rw [List.getElem?_append_left hn]
  · rw [hn]
    simp [Flight.replies]
  · rw [List.getElem?_eq_none (by simp; omega), List.getElem?_eq_none hn.le]

theorem Inv.nextBatch (h : Inv s) (hd : s.done = false) (drift : List Nat) :
    Inv (s.nextBatch drift) := by
  have hchan : ∀ x, (s.nextBatch drift).chanAt x = s.chanAt x := by
    intro x
    unfold State.chanAt
    rw [nextBatch_waitingOf]
  constructor
  · exact h.alive
  · exact fun _ _ => rfl
  · refine ⟨fun k _ => ?_, fun k i c hc => ?_⟩
    · cases k <;> rfl
    · have hc : ([] : List Nat)[i]? = some c := hc
      simp at hc
  · intro f hf
    rcases List.mem_append.mp hf with hf | hf
    · exact h.flights f hf
    · cases List.mem_singleton.mp hf
      exact ⟨h.current.prepare s.clock drift, prepareBatch_ordered _ _ _⟩
  · intro c hc
    obtain ⟨x, hx⟩ := h.placed c hc
    exact ⟨x, (hchan x).trans hx⟩
  · intro x y c hx hy
    rw [hchan] at hx hy
    exact h.unique x y c hx hy
  · intro x c hx
    rw [hchan] at hx
    rw [nextBatch_due hd]
    exact h.replies x c hx
  · exact h.silent

/-! ## Results are sent -/

def Distinct (w : BatchWaiting) : Prop :=
  ∀ (k : Kind) (i : Nat) (j : Kind) (m c : Nat), (w k)[i]? = some c → (w j)[m]? = some c →
    k = j ∧ i = m

theorem Distinct.nodup (h : Distinct w) (k : Kind) : (w k).Nodup := by
  rw [List.nodup_iff_getElem?_ne_getElem?]
  intro i j hij hj he
  have hi := List.getElem?_eq_getElem (hij.trans hj)
  exact hij.ne (h k i k j _ hi (he ▸ hi)).2

def allKinds : List Kind := .updateTimestamp :: resultKinds

theorem mem_allKinds (k : Kind) : k ∈ allKinds := by
  cases k <;> decide

theorem valuesFor_kinds (hw : Distinct w) (vs : Kind → List Reply) {k : Kind} {i : Nat}
    (hc : (w k)[i]? = some c) :
    valuesFor c (allKinds.flatMap fun j => (w j).zip (vs j)) = (vs k)[i]?.toList := by
  rw [valuesFor_flatMap (k := k) (by decide) (mem_allKinds k)]
  · exact valuesFor_zip (hw.nodup k) (vs k) hc
  · intro j _ hj
    refine valuesFor_of_not_mem fun x hx hxc => ?_
    have hmem := (List.of_mem_zip (a := x.1) (b := x.2) hx).1
    obtain ⟨m, hm⟩ := List.mem_iff_getElem?.mp hmem
    exact hj (hw j m k i c (hxc ▸ hm) hc).1

theorem valuesFor_kinds_of_not_mem {vs : Kind → List Reply}
    (h : ∀ (k : Kind) (i : Nat), (w k)[i]? ≠ some c) :
    valuesFor c (allKinds.flatMap fun j => (w j).zip (vs j)) = [] := by
  refine valuesFor_of_not_mem fun x hx hxc => ?_
  obtain ⟨j, _, hx⟩ := List.mem_flatMap.mp hx
  have hmem := (List.of_mem_zip (a := x.1) (b := x.2) hx).1
  obtain ⟨m, hm⟩ := List.mem_iff_getElem?.mp hmem
  exact h j m (hxc ▸ hm)

theorem sendBatchErr_eq (w : BatchWaiting) (e : Failure) : sendBatchErr w e =
    allKinds.flatMap fun k => (w k).zip (List.replicate (w k).length (.error e)) := by
  unfold sendBatchErr
  simp only [map_eq_zip]
  rfl

/-- **The results of a batch are index-aligned**: those of a kind are the answers to the
commands of the kind in order. -/
theorem resultsOf_eq (a : Applied) (b : TxnBatch) (k : Kind) :
    ∃ m : Manager, resultsOf (a.results b) k =
      (m.runCmds a.state.2 (cmds b k)).2.map Outcome.result := by
  cases k with
  | updateTimestamp => exact ⟨a.state.1, rfl⟩
  | _ => exact ⟨_, rfl⟩

theorem resultsOf_length (a : Applied) (b : TxnBatch) (k : Kind) :
    (resultsOf (a.results b) k).length = (cmds b k).length := by
  obtain ⟨m, hm⟩ := resultsOf_eq a b k
  rw [hm, List.length_map]
  exact loop_length _ _ _

def Flight.values (f : Flight) (answer : Except Failure Applied) (k : Kind) : List Reply :=
  match answer with
  | .error e => List.replicate (f.waiting k).length (.error e)
  | .ok a =>
    if k = .updateTimestamp then List.replicate (f.waiting k).length (.ok none)
    else (resultsOf (a.results f.batch) k).map reply

theorem waitBatchResult_eq (h : Aligned accepted Stamped f.batch f.waiting)
    (answer : Except Failure Applied) : waitBatchResult f answer =
      some (allKinds.flatMap fun k => (f.waiting k).zip (f.values answer k)) := by
  cases answer with
  | error e => exact congrArg some (sendBatchErr_eq f.waiting e)
  | ok a =>
    have hsends : resultKinds.mapM (fun k =>
        sendAll (f.waiting k) ((resultsOf (a.results f.batch) k).map reply)) =
        some (resultKinds.map fun k => (f.waiting k).zip (f.values (.ok a) k)) := by
      refine mapM_eq_map fun k hk => ?_
      have hne : k ≠ .updateTimestamp := by
        rintro rfl
        revert hk
        decide
      have hlen : ((resultsOf (a.results f.batch) k).map reply).length ≤ (f.waiting k).length := by
        rw [List.length_map, resultsOf_length, h.length k hne]
      rw [sendAll_eq_zip hlen]
      unfold Flight.values
      dsimp only
      rw [if_neg hne]
    unfold waitBatchResult
    dsimp only
    rw [hsends, map_eq_zip]
    rfl

theorem values_replies (answer : Except Failure Applied) {k : Kind} {i : Nat}
    (hc : (f.waiting k)[i]? = some c) :
    (f.values answer k)[i]?.toList = { f with answer := some answer }.replies k i := by
  have hi := (List.getElem?_eq_some_iff.mp hc).1
  unfold Flight.values Flight.replies
  cases answer with
  | error e => simp [hi]
  | ok a =>
    dsimp only
    split
    · simp [hi]
    · rw [List.getElem?_map]

theorem Inv.distinct (h : Inv s) (n : Nat) : Distinct (s.waitingOf n) := by
  intro k i j m c hk hj
  have he := h.unique ⟨n, k, i⟩ ⟨n, j, m⟩ c hk hj
  rw [Place.mk.injEq] at he
  exact he.2

/-- Values that are sent by index to the channels of one batch reach its commands only. -/
theorem Inv.valuesFor_batch (h : Inv s) (n : Nat) (vs : Kind → List Reply)
    (hx : s.chanAt x = some c) :
    valuesFor c (allKinds.flatMap fun k => (s.waitingOf n k).zip (vs k)) =
      if x.batch = n then (vs x.kind)[x.index]?.toList else [] := by
  by_cases hb : x.batch = n
  · subst hb
    rw [if_pos rfl]
    exact valuesFor_kinds (h.distinct x.batch) vs hx
  · rw [if_neg hb]
    exact valuesFor_kinds_of_not_mem fun k i hk =>
      hb (congrArg Place.batch (h.unique x ⟨n, k, i⟩ c hx hk))

theorem Inv.valuesFor_unused (h : Inv s) (n : Nat) (vs : Kind → List Reply)
    (hc : s.accepted.length ≤ c) :
    valuesFor c (allKinds.flatMap fun k => (s.waitingOf n k).zip (vs k)) = [] :=
  valuesFor_kinds_of_not_mem fun k i hk =>
    Nat.not_lt.mpr hc (h.chan_lt (show s.chanAt ⟨n, k, i⟩ = some c from hk))

theorem receive_eq (hf : s.sent[n]? = some f) (hal : Aligned accepted Stamped f.batch f.waiting)
    (answer : Except Failure Applied) : s.receive f n answer = { s with
        sent := s.sent.set n { f with answer := some answer }
        outbox := s.outbox ++
          allKinds.flatMap fun k => (s.waitingOf n k).zip (f.values answer k) } := by
  unfold State.receive
  rw [waitBatchResult_eq hal, waitingOf_flight hf]

section Answer

variable {s : State} {n : Nat} {f : Flight} (hf : s.sent[n]? = some f)
  (answer : Except Failure Applied) (outbox : List (Nat × Reply))

include hf

theorem answer_getElem? (m : Nat) : (s.sent.set n { f with answer := some answer })[m]? =
    if m = n then some { f with answer := some answer } else s.sent[m]? := by
  rw [List.getElem?_set]
  by_cases hm : m = n
  · rw [if_pos hm.symm, if_pos (List.getElem?_eq_some_iff.mp hf).1, if_pos hm]
  · rw [if_neg (Ne.symm hm), if_neg hm]

theorem answer_chanAt (x : Place) : State.chanAt { s with
    sent := s.sent.set n { f with answer := some answer }, outbox := outbox } x = s.chanAt x := by
  unfold State.chanAt State.waitingOf
  rw [answer_getElem? hf, List.length_set]
  by_cases hb : x.batch = n
  · subst hb
    rw [if_pos rfl, hf]
  · rw [if_neg hb]

theorem answer_due (hnone : f.answer = none) {x : Place} {c : Nat} (hx : s.chanAt x = some c) :
    State.due { s with
      sent := s.sent.set n { f with answer := some answer }, outbox := outbox } x =
        s.due x ++ if x.batch = n then (f.values answer x.kind)[x.index]?.toList else [] := by
  unfold State.due
  rw [answer_getElem? hf]
  by_cases hb : x.batch = n
  · subst hb
    have hbefore : f.replies x.kind x.index = [] := by
      unfold Flight.replies
      rw [hnone]
    have hw : (f.waiting x.kind)[x.index]? = some c := (chanAt_flight hf _ _).symm.trans hx
    rw [if_pos rfl, if_pos rfl, hf, values_replies answer hw]
    dsimp only
    rw [hbefore, List.nil_append]
  · rw [if_neg hb, if_neg hb, List.append_nil]

end Answer

theorem Inv.receive (h : Inv s) (hf : s.sent[n]? = some f) (hnone : f.answer = none)
    (answer : Except Failure Applied) : Inv (s.receive f n answer) := by
  have hflight := h.flights f (List.mem_of_getElem? hf)
  rw [receive_eq hf hflight.1]
  constructor
  · exact h.alive
  · exact h.idle
  · exact h.current
  · intro g hg
    rcases List.mem_or_eq_of_mem_set hg with hg | rfl
    · exact h.flights g hg
    · exact hflight
  · intro c hc
    obtain ⟨x, hx⟩ := h.placed c hc
    exact ⟨x, (answer_chanAt hf answer _ x).trans hx⟩
  · intro x y c hx hy
    rw [answer_chanAt hf] at hx hy
    exact h.unique x y c hx hy
  · intro x c hx
    rw [answer_chanAt hf] at hx
    rw [valuesFor_append, h.replies x c hx, h.valuesFor_batch n _ hx]
    exact (answer_due hf answer _ hnone hx).symm
  · intro c hc
    rw [valuesFor_append, h.silent c hc, h.valuesFor_unused n _ hc]
    rfl

/-! ## The loop returns -/

/-- A batch that is empty has no channels, so that the check of its size makes no difference. -/
theorem shutdown_eq (h : Inv s) : s.shutdown = { s with
      done := true
      outbox := s.outbox ++ allKinds.flatMap fun k => (s.waitingOf s.sent.length k).zip
        (List.replicate (s.waiting k).length (.error (.err .unavailable))) } := by
  unfold State.shutdown
  rw [waitingOf_current]
  split
  · next hz => simp [h.idle hz]
  · rw [sendBatchErr_eq]

theorem shutdown_due (hd : s.done = false) (outbox : List (Nat × Reply))
    (hx : s.chanAt x = some c) : State.due { s with done := true, outbox := outbox } x =
      s.due x ++ if x.batch = s.sent.length then
        (List.replicate (s.waiting x.kind).length (.error (.err .unavailable)))[x.index]?.toList
        else [] := by
  unfold State.due
  rw [hd]
  cases hf : s.sent[x.batch]? with
  | some f =>
    have hlt := (List.getElem?_eq_some_iff.mp hf).1
    rw [if_neg hlt.ne, List.append_nil]
  | none =>
    unfold State.chanAt State.waitingOf at hx
    rw [hf] at hx
    dsimp only at hx
    split at hx
    · next hb =>
      rw [if_pos hb]
      simp [(List.getElem?_eq_some_iff.mp hx).1]
    · simp at hx

theorem Inv.shutdown (h : Inv s) (hd : s.done = false) : Inv s.shutdown := by
  rw [shutdown_eq h]
  refine ⟨h.alive, h.idle, h.current, h.flights, h.placed, h.unique, ?_, ?_⟩
  · intro x c hx
    have hx : s.chanAt x = some c := hx
    rw [valuesFor_append, h.replies x c hx, h.valuesFor_batch s.sent.length _ hx]
    exact (shutdown_due hd _ hx).symm
  · intro c hc
    rw [valuesFor_append, h.silent c hc, h.valuesFor_unused s.sent.length _ hc]
    rfl

/-! ## Every run -/

theorem Inv.step (h : Inv s) (maxBatchSize : Int) (e : Event) : Inv (step maxBatchSize s e) := by
  cases e with
  | apply p drift =>
    unfold MainLoop.step
    dsimp only
    split
    · exact h
    next hd =>
    have hd := Bool.eq_false_of_not_eq_true hd
    have hadd := h.add hd p
    unfold State.accept
    dsimp only
    split
    · exact ⟨hadd.alive, hadd.idle, hadd.current, hadd.flights, hadd.placed, hadd.unique,
        hadd.replies, hadd.silent⟩
    · split
      · exact hadd.nextBatch hd drift
      · exact hadd
  | timer drift =>
    unfold MainLoop.step
    dsimp only
    split
    · exact h
    · next hd =>
      simp only [Bool.or_eq_true, Bool.not_eq_true', not_or] at hd
      exact h.nextBatch (Bool.eq_false_of_not_eq_true hd.1) drift
  | result n answer =>
    unfold MainLoop.step
    dsimp only
    cases hf : s.sent[n]? with
    | none => exact h
    | some f =>
      dsimp only
      split
      · exact h
      · next hn => exact h.receive hf (Option.not_isSome_iff_eq_none.mp hn) answer
  | observe t =>
    exact ⟨h.alive, h.idle, h.current, h.flights, h.placed, h.unique, h.replies, h.silent⟩
  | shutdown =>
    unfold MainLoop.step
    dsimp only
    split
    · exact h
    · next hd => exact h.shutdown (Bool.eq_false_of_not_eq_true hd)

theorem Inv.run (h : Inv s) (maxBatchSize : Int) (es : List Event) :
    Inv (run maxBatchSize s es) := by
  induction es generalizing s with
  | nil => exact h
  | cons e es ih => exact ih (h.step maxBatchSize e)

def Event.payload : Event → Option Payload
  | .apply p _ => some p
  | _ => none

def Event.isShutdown : Event → Bool
  | .shutdown => true
  | _ => false

def received (es : List Event) : List Payload :=
  (es.takeWhile fun e => !e.isShutdown).filterMap Event.payload

theorem result_accepted (maxBatchSize : Int) (s : State) (n : Nat)
    (answer : Except Failure Applied) :
    (step maxBatchSize s (.result n answer)).accepted = s.accepted ∧
      (step maxBatchSize s (.result n answer)).done = s.done := by
  unfold step State.receive
  dsimp only
  cases s.sent[n]? with
  | none => exact ⟨rfl, rfl⟩
  | some f =>
    dsimp only
    split
    · exact ⟨rfl, rfl⟩
    · split <;> exact ⟨rfl, rfl⟩

theorem accept_accepted (maxBatchSize : Int) (s : State) (p : Payload) (drift : List Nat) :
    (s.accept maxBatchSize p drift).accepted = s.accepted ++ [p] ∧
      (s.accept maxBatchSize p drift).done = s.done := by
  unfold State.accept
  dsimp only
  split
  · exact ⟨rfl, rfl⟩
  · split <;> exact ⟨rfl, rfl⟩

theorem step_accepted (maxBatchSize : Int) (s : State) (e : Event) :
    (step maxBatchSize s e).accepted = s.accepted ++ (if s.done then [] else e.payload.toList) ∧
      (step maxBatchSize s e).done = (s.done || e.isShutdown) := by
  cases e with
  | apply p drift =>
    obtain ⟨hacc, hdone⟩ := accept_accepted maxBatchSize s p drift
    cases hd : s.done <;> simp [step, hd, hacc, hdone, Event.payload, Event.isShutdown]
  | timer drift =>
    simp only [step, Event.payload, Event.isShutdown]
    split <;> simp [State.nextBatch]
  | result n answer =>
    obtain ⟨hacc, hdone⟩ := result_accepted maxBatchSize s n answer
    simp [hacc, hdone, Event.payload, Event.isShutdown]
  | observe t => simp [step, Event.payload, Event.isShutdown]
  | shutdown =>
    cases hd : s.done <;> simp [step, hd, State.shutdown, Event.payload, Event.isShutdown]

theorem run_accepted (maxBatchSize : Int) (s : State) (es : List Event) :
    (run maxBatchSize s es).accepted = s.accepted ++ if s.done then [] else received es := by
  induction es generalizing s with
  | nil =>
    unfold run received
    simp
  | cons e es ih =>
    obtain ⟨hacc, hdone⟩ := step_accepted maxBatchSize s e
    show (run maxBatchSize (step maxBatchSize s e) es).accepted = _
    rw [ih, hacc, hdone]
    cases hd : s.done with
    | true => simp
    | false =>
      unfold received
      cases he : e.isShutdown with
      | true =>
        have hnone : e.payload = none := by
          cases e <;> first | rfl | cases he
        simp [he, hnone]
      | false => cases hp : e.payload <;> simp [he, hp]

/-- What the channel of the command at a place has been sent. -/
inductive Gets (s : State) (x : Place) : Payload → List Reply → Prop
  | pending (p : Payload) (hb : x.batch = s.sent.length) (hd : s.done = false) : Gets s x p []
  | shutdown (p : Payload) (hb : x.batch = s.sent.length) (hd : s.done = true) :
    Gets s x p [.error (.err .unavailable)]
  | inFlight (p : Payload) (f : Flight) (hf : s.sent[x.batch]? = some f)
    (ha : f.answer = none) : Gets s x p []
  | failed (p : Payload) (f : Flight) (e : Failure) (hf : s.sent[x.batch]? = some f)
    (ha : f.answer = some (.error e)) : Gets s x p [.error e]
  | bumped (t : Nat) (f : Flight) (a : Applied) (hf : s.sent[x.batch]? = some f)
    (ha : f.answer = some (.ok a)) : Gets s x (.updateTimestamp t) [.ok none]
  /-- The entry of the results at the place. It is the answer of some state of the manager to
  the command, after the commands of its kind before it. -/
  | applied (c : Cmd) (f : Flight) (a : Applied) (t : Nat) (r : BatchResult) (m : Manager)
    (hf : s.sent[x.batch]? = some f) (ha : f.answer = some (.ok a))
    (hc : (cmds f.batch x.kind)[x.index]? = some (c.stamp t))
    (hr : (resultsOf (a.results f.batch) x.kind)[x.index]? = some r)
    (hm : r = ((m.runCmds a.state.2 ((cmds f.batch x.kind).take x.index)).1.applyCmd a.state.2
      (c.stamp t)).2.result) : Gets s x (.cmd c) [reply r]

/-- Every command that was accepted is at one place, and its channel has been sent one
result, unless it still waits for it. -/
structure Routed (s : State) : Prop where
  alive : s.crashed = false
  current : Aligned s.accepted Eq s.batch s.waiting
  flights : ∀ f ∈ s.sent, Aligned s.accepted Stamped f.batch f.waiting ∧ Ordered f.batch
  once : ∀ (c : Nat) (p : Payload), s.accepted[c]? = some p → ∃ x, s.chanAt x = some c ∧
    (∀ y, s.chanAt y = some c → y = x) ∧ x.kind = p.kind ∧ Gets s x p (valuesFor c s.outbox)

theorem Inv.gets (h : Inv s) {p : Payload} (hx : s.chanAt x = some c)
    (hp : s.accepted[c]? = some p) : Gets s x p (s.due x) := by
  unfold State.due
  cases hf : s.sent[x.batch]? with
  | none =>
    have hb : x.batch = s.sent.length := by
      unfold State.chanAt State.waitingOf at hx
      rw [hf] at hx
      by_contra hne
      rw [if_neg hne] at hx
      simp at hx
    cases hd : s.done with
    | false => exact .pending p hb hd
    | true => exact .shutdown p hb hd
  | some f =>
    dsimp only
    have hal := (h.flights f (List.mem_of_getElem? hf)).1
    have hw : (f.waiting x.kind)[x.index]? = some c := (chanAt_flight hf _ _).symm.trans hx
    obtain ⟨q, hq, hkind, hcar⟩ := hal.carries _ _ _ hw
    cases hp.symm.trans hq
    unfold Flight.replies
    cases ha : f.answer with
    | none => exact .inFlight p f hf ha
    | some answer =>
      cases answer with
      | error e => exact .failed p f e hf ha
      | ok a =>
        dsimp only
        cases p with
        | updateTimestamp t =>
          have hk : x.kind = .updateTimestamp := hkind.symm
          rw [if_pos hk]
          exact .bumped t f a hf ha
        | cmd d =>
          have hk : Cmd.kind d = x.kind := hkind
          rw [if_neg (hk ▸ Cmd.kind_ne d)]
          obtain ⟨_, hd, t, rfl⟩ := hcar
          rw [hk] at hd
          obtain ⟨m, hm⟩ := resultsOf_eq a f.batch x.kind
          have hr : (resultsOf (a.results f.batch) x.kind)[x.index]? =
              some ((m.runCmds a.state.2 ((cmds f.batch x.kind).take x.index)).1.applyCmd a.state.2
                (d.stamp t)).2.result := by
            rw [hm, List.getElem?_map, Manager.runCmds, loop_getElem?, hd]
            rfl
          rw [hr]
          exact .applied d f a t _ m hf ha hd hr rfl

/-- **The writer batches and routes correctly**, for every limit, every sequence of commands,
timer fires, results of Raft and shutdown: the commands before the shutdown are accepted,
each of them gets one place in one batch, and one result once there is one. -/
theorem mainLoop_routes (maxBatchSize : Int) (clock : Clock) (es : List Event) :
    (run maxBatchSize { clock } es).accepted = received es ∧
      Routed (run maxBatchSize { clock } es) := by
  have h := (inv_init clock).run maxBatchSize es
  refine ⟨?_, h.alive, h.current, h.flights, ?_⟩
  · rw [run_accepted]
    rfl
  · intro c p hp
    obtain ⟨x, hx⟩ := h.placed c (List.getElem?_eq_some_iff.mp hp).1
    obtain ⟨q, hq, hk⟩ := h.payload hx
    cases hp.symm.trans hq
    refine ⟨x, hx, fun y hy => h.unique y x c hy hx, hk.symm, ?_⟩
    rw [h.replies x c hx]
    exact h.gets hx hp

end Scout.Txn.MainLoop
