import Scout.TwoPhase.History

/-!
The parties that send requests: the coordinator, and the watchdog with its
resolvers. Every `Commit` they send rests on a stored decision, every `Abort` on
a time-out or on the coordinator's `abort`.
-/

namespace Scout.TwoPhase

open Data Mvcc Txn Lib

/-! ## The coordinator -/

def Sent (requests : List Request) : Prop := ∃ d, .storeDecision d ∈ requests

theorem sent_append {qs qs' : List Request} : Sent (qs ++ qs') ↔ Sent qs ∨ Sent qs' := by
  constructor
  · rintro ⟨d, hd⟩
    exact (List.mem_append.mp hd).imp (fun h => ⟨d, h⟩) (fun h => ⟨d, h⟩)
  · rintro (⟨d, hd⟩ | ⟨d, hd⟩)
    · exact ⟨d, List.mem_append.mpr (.inl hd)⟩
    · exact ⟨d, List.mem_append.mpr (.inr hd)⟩

/-- What allows a request to be sent, the decision itself apart. -/
def Justified (id : TxnId) (aborting : Prop) (R : List (Nat × State)) : Request → Prop
  | .commit _ _ => Decided id R
  | .abort _ => aborting ∨ TimedOut id R
  | .storeDecision _ => False
  | .prepare _ | .markTimedout _ => True

def PhaseOk (id : TxnId) (c : Coordinator) (R : List (Nat × State)) (sent : Prop) : Prop :=
  match c.phase with
  | .start | .preparePrincipal | .prepare => ¬sent ∧ c.cause = none
  | .storeDecision _ => c.cause = none
  | .commit _ | .commitPrincipal _ => Decided id R
  | .abort | .abortPrincipal => c.cause ≠ none
  | .returned => True

/-- What the coordinator and the requests in flight depend on. -/
structure Steered (id : TxnId) (c : Coordinator) (R : List (Nat × State))
    (requests : List Request) : Prop where
  consistent : Consistent id (c.cause ≠ none) (Sent requests) R
  commits : ∀ p ts, .commit p ts ∈ requests → Decided id R
  aborts : ∀ p, .abort p ∈ requests → c.cause ≠ none ∨ TimedOut id R
  phase : PhaseOk id c R (Sent requests)
  cause : Sent requests → c.cause = none ∨ c.cause = some .storeDecision

variable {id : TxnId} {R : List (Nat × State)}

theorem Consistent.change {aborting aborting' sent sent' : Prop}
    (h : Consistent id aborting sent R) (ha : aborting → aborting') (hs : sent → sent')
    (hd : Decided id R → aborting' → aborting) : Consistent id aborting' sent' R where
  committed := h.committed
  aborted := fun p hp => (h.aborted p hp).imp_left ha
  timedout := h.timedout
  decided := fun p hp => ⟨(h.decided p hp).1, hs (h.decided p hp).2⟩
  one_outcome := h.one_outcome
  not_aborting := fun k k' => h.not_aborting k (hd k k')

theorem steered_nil (id : TxnId) : Steered id {} [] [] where
  consistent := consistent_nil _ _ _
  commits := fun p ts hq => by cases hq
  aborts := fun p hq => by cases hq
  phase := by
    refine ⟨?_, rfl⟩
    rintro ⟨d, hd⟩
    cases hd
  cause := fun _ => .inl rfl

namespace Steered

variable {id : TxnId} {c c' : Coordinator} {R : List (Nat × State)} {requests sends : List Request}

theorem send (h : Steered id c R requests) (hc : c'.cause = c.cause)
    (hp : PhaseOk id c' R (Sent requests)) (hs : ∀ q ∈ sends, Justified id (c.cause ≠ none) R q) :
    Steered id c' R (requests ++ sends) := by
  have hsent : Sent (requests ++ sends) ↔ Sent requests := by
    rw [sent_append]
    refine ⟨fun k => k.resolve_right ?_, .inl⟩
    rintro ⟨d, hd⟩
    exact hs _ hd
  refine ⟨?_, ?_, ?_, ?_, ?_⟩
  · rw [hc, hsent]
    exact h.consistent
  · intro p ts hq
    rcases List.mem_append.mp hq with hq | hq
    · exact h.commits p ts hq
    · exact hs _ hq
  · intro p hq
    rw [hc]
    rcases List.mem_append.mp hq with hq | hq
    · exact h.aborts p hq
    · exact hs _ hq
  · rwa [hsent]
  · rw [hsent, hc]
    exact h.cause

theorem abort (h : Steered id c R requests) {cause : Cause}
    (hcause : Sent requests → cause = .storeDecision) (hnd : ¬Decided id R)
    (hc : c'.cause = some cause) (hp : c'.phase = .abort ∨ c'.phase = .abortPrincipal)
    (hs : ∀ q ∈ sends, ∃ pid, q = .abort pid) : Steered id c' R (requests ++ sends) := by
  have hab : c'.cause ≠ none := by simp [hc]
  have hsent : Sent (requests ++ sends) → Sent requests := by
    intro k
    refine (sent_append.mp k).resolve_right ?_
    rintro ⟨d, hd⟩
    obtain ⟨pid, hq⟩ := hs _ hd
    cases hq
  refine ⟨?_, ?_, fun _ _ => .inl hab, ?_, ?_⟩
  · exact h.consistent.change (fun _ => hab) (fun k => sent_append.mpr (.inl k))
      (fun k => absurd k hnd)
  · intro p ts hq
    rcases List.mem_append.mp hq with hq | hq
    · exact h.commits p ts hq
    · obtain ⟨pid, hq⟩ := hs _ hq
      cases hq
  · unfold PhaseOk
    rcases hp with hp | hp <;> simpa [hp] using hab
  · intro k
    rw [hc, hcause (hsent k)]
    exact .inr rfl

theorem decide (h : Steered id c R requests) {d : Decision} (hph : c.phase = .prepare)
    (hc : c'.cause = c.cause) (hp : c'.phase = .storeDecision d) :
    Steered id c' R (requests ++ [.storeDecision d]) := by
  have hno : c.cause = none := by
    have := h.phase
    rw [PhaseOk, hph] at this
    exact this.2
  refine ⟨?_, ?_, ?_, ?_, fun _ => .inl (hc.trans hno)⟩
  · exact h.consistent.change (by simp [hc]) (fun k => sent_append.mpr (.inl k)) (by simp [hc])
  · intro p ts hq
    exact h.commits p ts (by simpa using hq)
  · intro p hq
    rw [hc]
    exact h.aborts p (by simpa using hq)
  · rw [PhaseOk, hp]
    exact hc.trans hno

/-- **Step** of the coordinator. A decided answer means that the principal has
stored the decision; an error means that it has not. -/
theorem moves {t : MultiTxn} {r : BatchResult} (h : Steered id c R requests)
    (hm : Moves t c r c' sends)
    (hr : (∃ d, c.phase = .storeDecision d) → isState .decided r = true → Decided id R)
    (hsafe : (∃ d, c.phase = .storeDecision d) → isError r = true → ¬Decided id R) :
    Steered id c' R (requests ++ sends) := by
  have hph := h.phase
  unfold PhaseOk at hph
  cases hm with
  | returned hp hc =>
    refine h.send hc ?_ (by simp)
    simp [PhaseOk, hp]
  | collect hp hc =>
    refine h.send hc ?_ (by simp)
    unfold PhaseOk
    rw [hp, hc]
    exact hph
  | prepare hq hp hc =>
    rw [hq] at hph
    refine h.send hc ?_ (by simp [Justified])
    rw [PhaseOk, hp, hc]
    exact hph
  | decided d hq hp hc => exact h.decide hq hc hp
  | abort cause _ hq hp hc hs =>
    rcases hq with ⟨hq, _⟩ | ⟨hq, he, rfl⟩
    · -- no decision was sent, so none can be stored
      rw [hq] at hph
      exact h.abort (fun k => absurd k hph.1) (fun k => hph.1 (h.consistent.decided _ k).2) hc hp hs
    · exact h.abort (fun _ => rfl) (hsafe hq he) hc hp hs
  | commit d hq hd hp hc =>
    have hdec := hr ⟨d, hq⟩ hd
    refine h.send hc ?_ (by simpa [Justified] using fun _ _ => hdec)
    rw [PhaseOk, hp]
    exact hdec
  | commitPrincipal d hq hp hc =>
    rw [hq] at hph
    refine h.send hc ?_ (by simpa [Justified] using hph)
    rw [PhaseOk, hp]
    exact hph
  | abortPrincipal hq hp hc =>
    rw [hq] at hph
    refine h.send hc ?_ (by simpa [Justified] using .inl hph)
    rw [PhaseOk, hp, hc]
    exact hph

theorem reports {R' : List (Nat × State)} (h : Steered id c R requests)
    (hR : ∀ x ∈ R, x ∈ R') (hcons : Consistent id (c.cause ≠ none) (Sent requests) R') :
    Steered id c R' requests := by
  refine ⟨hcons, fun p ts hq => hR _ (h.commits p ts hq),
    fun p hq => (h.aborts p hq).imp_right (hR _), ?_, h.cause⟩
  have hp := h.phase
  unfold PhaseOk at hp ⊢
  cases hc : c.phase with
  | commit d =>
    rw [hc] at hp
    exact hR _ hp
  | commitPrincipal d =>
    rw [hc] at hp
    exact hR _ hp
  | _ =>
    rw [hc] at hp
    exact hp

end Steered

/-! ## The resolvers -/

namespace Resolution

/-- The resolver acts on `G` once it contacts the participants; only `abort` has
to wait before it does. -/
structure Acts (G : Resolver → Running → Prop) (w : Resolution) : Prop where
  marking : w.stage = .markTimedout → w.kind = .abort
  grounds : w.stage = .fanOut → G w.kind w.txn

theorem Acts.mono {G G' : Resolver → Running → Prop} {w : Resolution} (h : w.Acts G)
    (hG : ∀ k r, G k r → G' k r) : w.Acts G' := ⟨h.marking, fun hs => hG _ _ (h.grounds hs)⟩

/-- The requests that a resolver sends: `MarkTimedout` at the principal, or the
call of its kind once it has grounds for it. -/
def Sends (G : Resolver → Running → Prop) (w : Resolution) (q : Request) : Prop :=
  (∃ b, q = .markTimedout b) ∨ ∃ pid, q = w.call pid ∧ G w.kind w.txn

variable {G : Resolver → Running → Prop} {w : Resolution}

theorem last_sends (hg : G w.kind w.txn) : w.Sends G w.last := by
  unfold last
  cases hk : w.kind with
  | abort => exact .inl ⟨true, rfl⟩
  | commit => exact .inr ⟨_, rfl, hg⟩

theorem proceed_acts (hs : w.stage = .fanOut) (hg : G w.kind w.txn) :
    Acts G w.proceed.1 ∧ ∀ q ∈ w.proceed.2, w.Sends G q := by
  unfold proceed
  split
  · refine ⟨⟨fun k => (by cases k), fun k => (by cases k)⟩, ?_⟩
    intro q hq
    rw [List.mem_singleton.mp hq]
    exact last_sends hg
  · refine ⟨⟨fun k => ?_, fun _ => hg⟩, fun q hq => by cases hq⟩
    rw [hs] at k
    cases k

theorem fanOut_acts (hg : G w.kind w.txn) : Acts G w.fanOut.1 ∧ ∀ q ∈ w.fanOut.2, w.Sends G q := by
  have hp := @proceed_acts G { w with stage := .fanOut, waiting := w.targets } rfl hg
  refine ⟨hp.1, ?_⟩
  intro q hq
  rcases List.mem_append.mp hq with hq | hq
  · obtain ⟨pid, _, rfl⟩ := List.mem_map.mp hq
    exact .inr ⟨pid, rfl, hg⟩
  · exact hp.2 q hq

/-- **Start** of a resolver: `commit` goes on only with a commit decision. -/
theorem start_acts {kind : Resolver} {txn : Running}
    (hk : kind = .commit → (txn.decision.map Decision.commit).getD false = true → G .commit txn) :
    Acts G (start kind txn).1 ∧ ∀ q ∈ (start kind txn).2, (start kind txn).1.Sends G q := by
  cases kind with
  | abort =>
    refine ⟨⟨fun _ => rfl, fun k => by cases k⟩, ?_⟩
    intro q hq
    exact .inl ⟨false, List.mem_singleton.mp hq⟩
  | commit =>
    unfold start
    dsimp only
    split
    · rename_i hc
      have hf := @fanOut_acts G { kind := .commit, txn, stage := .fanOut } (hk rfl hc)
      refine ⟨hf.1, ?_⟩
      intro q hq
      have hkeep : (fanOut { kind := .commit, txn, stage := .fanOut }).1.kind = .commit ∧
          (fanOut { kind := .commit, txn, stage := .fanOut }).1.txn = txn := by
        unfold fanOut proceed
        split <;> exact ⟨rfl, rfl⟩
      unfold Sends call at hf ⊢
      rw [hkeep.1, hkeep.2]
      exact hf.2 q hq
    · exact ⟨⟨fun k => (by cases k), fun k => (by cases k)⟩, fun q hq => by cases hq⟩

/-- **Step** of a resolver. -/
theorem handle_acts {q : Request} {r : BatchResult} {x : Resolution × List Request}
    (h : w.Acts G) (hx : w.handle q r = some x)
    (hmark : ∀ s, q = .markTimedout false → r = .ok s → G .abort w.txn) :
    Acts G x.1 ∧ ∀ q ∈ x.2, w.Sends G q := by
  unfold handle at hx
  split at hx
  · rename_i hs
    split at hx
    · cases hx
    rename_i hq
    split at hx
    · cases hx
      refine fanOut_acts ?_
      rw [h.marking hs]
      exact hmark _ (not_not.mp hq) rfl
    · split at hx
      · cases hx
        exact ⟨⟨fun k => (by cases k), fun k => (by cases k)⟩, fun q hq => by cases hq⟩
      · cases hx
  · rename_i hs
    split at hx
    · cases hx
    split at hx
    · cases hx
      exact proceed_acts hs (h.grounds hs)
    · cases hx
  · cases hx

end Resolution

/-- What a resolver acts on once it contacts the participants. -/
def Grounds (id : TxnId) (R : List (Nat × State)) : Resolver → Prop
  | .abort => TimedOut id R
  | .commit => Decided id R

structure ResolutionOk (id : TxnId) (R : List (Nat × State)) (w : Resolution) : Prop where
  marking : w.stage = .markTimedout → w.kind = .abort
  grounds : w.stage = .fanOut → Grounds id R w.kind

theorem ResolutionOk.mono {R' : List (Nat × State)} {w : Resolution} (h : ResolutionOk id R w)
    (hR : ∀ x ∈ R, x ∈ R') : ResolutionOk id R' w := by
  refine ⟨h.marking, fun hs => ?_⟩
  have hg := h.grounds hs
  cases hk : w.kind <;> rw [hk] at hg <;> exact hR _ hg

namespace Resolution

variable {id : TxnId} {aborting : Prop} {R : List (Nat × State)} {w : Resolution}

theorem sends_justified {q : Request} (h : w.Sends (fun k _ => Grounds id R k) q) :
    Justified id aborting R q := by
  rcases h with ⟨b, rfl⟩ | ⟨pid, rfl, hg⟩
  · trivial
  unfold call
  cases hk : w.kind with
  | abort =>
    rw [hk] at hg
    exact .inr hg
  | commit =>
    rw [hk] at hg
    exact hg

theorem start_ok {kind : Resolver} {txn : Running} (hk : kind = .commit → Decided id R) :
    ResolutionOk id R (start kind txn).1 ∧ ∀ q ∈ (start kind txn).2, Justified id aborting R q := by
  have h := @start_acts (fun k _ => Grounds id R k) kind txn (fun e _ => hk e)
  exact ⟨⟨h.1.marking, h.1.grounds⟩, fun q hq => sends_justified (h.2 q hq)⟩

theorem handle_ok {q : Request} {r : BatchResult} {x : Resolution × List Request}
    (h : ResolutionOk id R w) (hx : w.handle q r = some x)
    (hmark : ∀ s, q = .markTimedout false → r = .ok s → TimedOut id R) :
    ResolutionOk id R x.1 ∧ ∀ q ∈ x.2, Justified id aborting R q := by
  have h := @handle_acts (fun k _ => Grounds id R k) w q r x ⟨h.marking, h.grounds⟩ hx hmark
  exact ⟨⟨h.1.marking, h.1.grounds⟩, fun q hq => sends_justified (h.2 q hq)⟩

end Resolution

/-! ## The watchdog -/

/-- What the watchdog knows about the txn was reported by the principal. -/
structure Informed (id : TxnId) (R : List (Nat × State)) (l : Leader) : Prop where
  records : ∀ r, (r ∈ l.requestCh ∨ r ∈ l.dog.prepared ∨ r ∈ l.dog.decided) → r.id = id →
    (id.principalPid, r.state) ∈ R
  decided : ∀ r ∈ l.dog.decided, r.state = .decided

theorem getRunning_status {m : Manager} {r : Running} (h : r ∈ m.getRunning) :
    ∃ s, m.status.lookup r.id = some s ∧ s.state = r.state := by
  obtain ⟨e, _, hr⟩ := List.mem_filterMap.mp h
  split at hr
  · cases hr
  · obtain ⟨s, hs, rfl⟩ := Option.map_eq_some_iff.mp hr
    exact ⟨s, hs, rfl⟩

theorem dog_decided {times : Timeouts} {d : Dog} (e : DogEvent)
    (h : ∀ r ∈ d.decided, r.state = .decided) :
    (∀ r ∈ (d.step times e).1.decided, r.state = .decided) ∧
      ∀ r, (.commit, r) ∈ (d.step times e).2 → r ∈ d.decided := by
  cases e with
  | status x =>
    obtain ⟨_, h2, h3⟩ := @step_status_queues times d x
    rw [h2, h3]
    refine ⟨?_, fun r hr => by cases hr⟩
    intro r hr
    split at hr
    · rename_i hx
      rcases List.mem_append.mp hr with hr | hr
      · exact h r hr
      · rw [List.mem_singleton.mp hr]
        exact hx.2
    · exact h r hr
  | tickerPhase1 now =>
    refine ⟨h, fun r hr => ?_⟩
    obtain ⟨x, _, hx⟩ := List.mem_map.mp hr
    cases hx
  | tickerPhase2 now =>
    refine ⟨fun r hr => h r ((checkTimedout_suffix _ _ _ _).subset hr), fun r hr => ?_⟩
    obtain ⟨x, hx, he⟩ := List.mem_map.mp hr
    cases he
    exact checkTimedout_mem _ _ _ _ _ hx

variable {l : Leader}

/-- Between applied entries the queue of decided txns holds only such, and `commit`
is called with what was in it. -/
theorem leader_between_decided (times : Timeouts) (h : ∀ r ∈ l.dog.decided, r.state = .decided)
    (e : LeaderEvent) (hne : ∀ entry, e ≠ .applied entry) :
    (∀ r ∈ (l.step times e).1.dog.decided, r.state = .decided) ∧
      ∀ r, (.commit, r) ∈ (l.step times e).2 → r ∈ l.dog.decided := by
  rcases leader_step_cases times l e hne with ⟨d, rest, _, _, he⟩ | he | he
  · rw [he]
    exact dog_decided d h
  · rw [he]
    exact ⟨h, fun r hr => by cases hr⟩
  · rw [he]
    refine ⟨?_, fun r hr => by cases hr⟩
    intro r hr
    have hr := (List.mem_insertionSort _).mp hr
    simpa using (List.mem_filter.mp hr).2

/-- **Step** of the watchdog, with what it hands to `commit`. -/
theorem Informed.between (times : Timeouts) (h : Informed id R l) (e : LeaderEvent)
    (hne : ∀ entry, e ≠ .applied entry)
    (hseen : ∀ s, l.state.1.status.lookup id = some s → (id.principalPid, s.state) ∈ R) :
    Informed id R (l.step times e).1 ∧
      ∀ r, (.commit, r) ∈ (l.step times e).2 → r.id = id → Decided id R := by
  have hrec : l.Records fun r => r.id = id → (id.principalPid, r.state) ∈ R := h.records
  obtain ⟨h1, _⟩ := hrec.between times e hne fun r hr hid => by
    obtain ⟨s, hs, hst⟩ := getRunning_status hr
    rw [← hst]
    exact hseen s (hid ▸ hs)
  obtain ⟨hdec, hout⟩ := leader_between_decided times h.decided e hne
  refine ⟨⟨h1, hdec⟩, ?_⟩
  intro r hr hid
  have hq := hout r hr
  have hk := h.records r (.inr (.inr hq)) hid
  rwa [h.decided r hq] at hk

theorem Informed.applied {R' : List (Nat × State)} (times : Timeouts) (h : Informed id R l)
    (e : Entry) (hids : StatusIds l.state.1) (hR : ∀ x ∈ R, x ∈ R')
    (hnew : ∀ x ∈ reportsOf id.principalPid
      (answersTo id (batchCmds e.batch) (applyEntry l.state e).2.all), x ∈ R') :
    Informed id R' (l.step times (.applied e)).1 := by
  refine ⟨?_, h.decided⟩
  rintro r (hr | hr) hid
  · simp only [Leader.step, List.append_assoc, List.mem_append] at hr
    rcases hr with hr | hr
    · exact hR _ (h.records r (.inl hr) hid)
    obtain ⟨c, st, hx, hrid, hrst⟩ := reports_answer hr
    have hc : c.id = id := (applyEntry_result_id hids hx rfl).symm.trans (hrid.symm.trans hid)
    rw [hrst]
    refine hnew _ (List.mem_filterMap.mpr ⟨(c, .ok st), ?_, rfl⟩)
    exact List.mem_filter.mpr ⟨hx, by simpa using hc⟩
  · exact hR _ (h.records r (.inr hr) hid)

end Scout.TwoPhase
