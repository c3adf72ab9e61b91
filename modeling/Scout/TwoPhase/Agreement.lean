import Scout.TwoPhase.Steering

/-!
Agreement of the participants: no participant commits the txn while another one
aborts it or times it out. The coordinator's `abort` after a failed
`StoreDecision` is the one abort that the principal has no say in, and a txn that
the principal has forgotten can be prepared a second time.
-/

namespace Scout.TwoPhase

open Data Mvcc Txn Lib

/-! ## The invariant of the system -/

/-- The coordinator waits for the answer to `StoreDecision`. -/
def Coordinator.storing (c : Coordinator) : Bool :=
  match c.phase with
  | .storeDecision _ => true
  | _ => false

/-- The steps that keep agreement. The coordinator takes an error of
`StoreDecision` for a failure only if the principal has not stored the decision;
the principal stores no decision that the coordinator has given up; and it does
not prepare the txn anew once it has forgotten it. -/
def Safe (t : MultiTxn) (s : System) : Step → Prop
  | .coordinator _ r => s.coordinator.storing = true → isError r = true →
      ¬Decided t.id s.reported
  | .apply pid e => pid = t.principal →
      let status := (s.partition t pid).1.status.lookup t.id
      (storesDecision t.id (batchCmds e.batch) = true →
        s.coordinator.cause = some .storeDecision →
        status = none ∧ prepares t.id (batchCmds e.batch) = false ∨
          (status.map fun x => x.state.isFinal) = some true) ∧
      (prepares t.id (batchCmds e.batch) = true → status = none →
        ∀ x ∈ s.reported, x.1 = pid → x.2 = .failed)
  | _ => True

instance (t : MultiTxn) (s : System) (a : Step) : Decidable (Safe t s a) :=
  match a with
  | .begin => isTrue trivial
  | .coordinator _ _ => inferInstanceAs (Decidable (_ → _ → ¬_))
  | .apply pid _ => inferInstanceAs (Decidable (pid = t.principal → (_ → _ → _ ∨ _) ∧ (_ → _ → _)))
  | .watchdog _ => isTrue trivial
  | .resolution _ _ _ => isTrue trivial

structure Inv (t : MultiTxn) (s : System) : Prop where
  pids : ∀ p, (s.partition t p).1.pid = p
  ids : StatusIds s.principal.state.1
  steered : Steered t.id s.coordinator s.reported s.requests
  seen : ∀ p st, (s.partition t p).1.status.lookup t.id = some st → (p, st.state) ∈ s.reported
  undecided : ∀ st, (s.partition t t.principal).1.status.lookup t.id = some st →
    st.state = .prepared → ¬Decided t.id s.reported ∧ ¬TimedOut t.id s.reported
  responses : ∀ q st, (q, .ok st) ∈ s.responses →
    (q.target t.principal, st.state) ∈ s.reported ∧ ∀ b, q = .markTimedout b → st.state = .timedout
  informed : Informed t.id s.reported s.principal
  resolutions : ∀ w ∈ s.resolutions, ResolutionOk t.id s.reported w

theorem inv_initial (t : MultiTxn) (cleanAfter : Int) : Inv t (System.initial t cleanAfter) := by
  have hpart := System.initial_partition t cleanAfter
  have hno : ∀ p, ((System.initial t cleanAfter).partition t p).1.status.lookup t.id = none := by
    intro p
    rw [hpart]
    rfl
  refine ⟨?_, ?_, steered_nil t.id, ?_, ?_, ?_, ⟨?_, ?_⟩, ?_⟩
  · intro p
    rw [hpart]
    rfl
  · intro id s hs
    cases hs
  · intro p st hs
    rw [hno] at hs
    cases hs
  · intro st hs
    rw [hno] at hs
    cases hs
  · intro q st hq
    cases hq
  · rintro r (hr | hr | hr) <;> cases hr
  · intro r hr
    cases hr
  · intro w hw
    cases hw

namespace Inv

variable {t : MultiTxn} {times : Timeouts} {s : System}

theorem begin {x : Coordinator × List Request} (h : Inv t s) (hx : s.coordinator.begin t = some x) :
    Inv t { s with coordinator := x.1, requests := s.requests ++ x.2 } := by
  refine ⟨h.pids, h.ids, ?_, h.seen, h.undecided, h.responses, h.informed, h.resolutions⟩
  have hph := h.steered.phase
  unfold Coordinator.begin at hx
  split at hx
  · rename_i hs
    cases hx
    rw [PhaseOk, hs] at hph
    refine h.steered.send rfl hph ?_
    intro q hq
    rw [List.mem_singleton.mp hq]
    trivial
  · cases hx

theorem coordinator {pid : Nat} {r : BatchResult} {q : Request} {x : Coordinator × List Request}
    (h : Inv t s) (hsafe : Safe t s (.coordinator pid r))
    (hq : s.coordinator.phase.call pid = some q)
    (hr : (q, r) ∈ s.responses ∨ r = .error .unavailable)
    (hx : s.coordinator.handle t pid r = some x) :
    Inv t { s with coordinator := x.1, requests := s.requests ++ x.2 } := by
  refine ⟨h.pids, h.ids, ?_, h.seen, h.undecided, h.responses, h.informed, h.resolutions⟩
  refine h.steered.moves (handle_moves hx) ?_ ?_
  · rintro ⟨d, hd⟩ hst
    rw [hd] at hq
    cases hq
    rcases hr with hr | rfl
    · cases r with
      | error e => cases hst
      | ok st =>
        have hrep := (h.responses _ st hr).1
        rwa [show st.state = .decided by simpa [isState] using hst] at hrep
    · cases hst
  · rintro ⟨d, hd⟩ he
    exact hsafe (by rw [Coordinator.storing, hd]) he

theorem within (h : Inv t s) {pid : Nat} {e : Entry} (hsafe : Safe t s (.apply pid e))
    (hback : Backed t s.requests pid (batchCmds e.batch)) :
    Within t.id (s.coordinator.cause ≠ none) (Sent s.requests)
      (pid = t.principal ∧ s.coordinator.cause = some .storeDecision ∧
        storesDecision t.id (batchCmds e.batch) = true)
      pid (batchCmds e.batch) s.reported (s.partition t pid).1 := by
  refine ⟨h.pids pid, h.steered.consistent, ?_, h.seen pid, ?_, ?_, ?_⟩
  · intro c hc hid
    obtain ⟨q, hq, hcarried⟩ := hback c hc hid
    cases c with
    | commit x =>
      cases hcarried
      exact h.steered.commits _ _ hq
    | abort x =>
      cases hcarried
      exact h.steered.aborts _ hq
    | storeDecision x =>
      rw [carriedOut_storeDecision hcarried] at hq
      exact ⟨_, hq⟩
    | autocommit x => cases hcarried
    | prepare x => trivial
    | markTimedout x => trivial
  · rintro rfl
    exact h.undecided
  · intro hp
    exact (hsafe hp).2
  · rintro ⟨hp, hcause, hstore⟩
    refine ((hsafe hp).1 hstore hcause).imp_right ?_
    intro hst
    obtain ⟨st, hs, hf⟩ := Option.map_eq_some_iff.mp hst
    exact ⟨st, hs, hf⟩

theorem sent_of_stores {pid : Nat} {cs : List Cmd} (hback : Backed t s.requests pid cs)
    (hstore : storesDecision t.id cs = true) : Sent s.requests := by
  obtain ⟨c, hc, hm⟩ := List.any_eq_true.mp hstore
  obtain ⟨hkind, hid⟩ := Bool.and_eq_true_iff.mp hm
  dsimp only at hkind
  split at hkind
  · obtain ⟨q, hq, hcarried⟩ := hback _ hc (by simpa using hid)
    rw [carriedOut_storeDecision hcarried] at hq
    exact ⟨_, hq⟩
  · cases hkind

end Inv

theorem reportsOf_pid {pid : Nat} {as : List (Cmd × BatchResult)} {x : Nat × State}
    (h : x ∈ reportsOf pid as) : x.1 = pid := by
  obtain ⟨y, _, hy⟩ := List.mem_filterMap.mp h
  split at hy
  · cases hy
    rfl
  · cases hy

theorem markTimedout_answer {db : Store} {m m' : Manager} {c : MarkTimedout} {o : Outcome}
    (h : Change db m (.markTimedout c) m' o) {s : TxnStatus} (hs : o.result = .ok s) :
    s.state = .timedout := by
  cases h with
  | idle c r hi =>
    cases hi with
    | missing => cases hs
    | refused => cases hs
    | repeated s' _ hr =>
      cases hs
      simpa [Cmd.repeats] using hr
    | failed _ hnew => cases hnew
  | markTimedout =>
    cases hs
    rfl
  | release c s' p _ _ _ hst =>
    cases hs
    exact hst

theorem responsesOf_ok {t : MultiTxn} {pid : Nat} {p : Manager × Store} {e : Entry}
    {q : Request} {st : TxnStatus} (h : (q, .ok st) ∈ responsesOf t pid
      (answersTo t.id (batchCmds e.batch) (applyEntry p e).2.all)) :
    (q.target t.principal, st.state) ∈ reportsOf pid
        (answersTo t.id (batchCmds e.batch) (applyEntry p e).2.all) ∧
      ∀ b, q = .markTimedout b → st.state = .timedout := by
  obtain ⟨⟨c, r⟩, hx, hq⟩ := List.mem_filterMap.mp h
  obtain ⟨q', hcarried, he⟩ := Option.map_eq_some_iff.mp hq
  cases he
  refine ⟨?_, ?_⟩
  · rw [carriedOut_target hcarried]
    exact List.mem_filterMap.mpr ⟨_, hx, rfl⟩
  · rintro b rfl
    obtain ⟨pre, _, _, hr⟩ := mem_applyEntry_zip (List.mem_of_mem_filter hx)
    cases c with
    | markTimedout x => exact markTimedout_answer (applyCmd_change p.2 _ (.markTimedout x)) hr.symm
    | _ => exact (carriedOut_kind hcarried).elim

theorem Informed.mono {id : TxnId} {R R' : List (Nat × State)} {l : Leader}
    (h : Informed id R l) (hR : ∀ x ∈ R, x ∈ R') : Informed id R' l :=
  ⟨fun r hr hid => hR _ (h.records r hr hid), h.decided⟩

namespace Inv

variable {t : MultiTxn} {times : Timeouts} {s : System}

theorem apply (h : Inv t s) {pid : Nat} {e : Entry} (hsafe : Safe t s (.apply pid e))
    (hback : Backed t s.requests pid (batchCmds e.batch)) : Inv t (s.apply t times pid e) := by
  have hw := (h.within hsafe hback).runCmds (s.partition t pid).2 ?_
  · rw [← applyEntry_results] at hw
    have hR : ∀ x ∈ s.reported, x ∈ (s.apply t times pid e).reported :=
      fun x hx => List.mem_append.mpr (.inl hx)
    refine ⟨?_, ?_, h.steered.reports hR hw.consistent, ?_, ?_, ?_, ?_, ?_⟩
    · intro p
      rw [System.apply_partition]
      split
      · rename_i hp
        rw [applyEntry_pid, h.pids, hp]
      · exact h.pids p
    · unfold System.apply
      split
      · exact h.ids.entry e
      · exact h.ids
    · intro p st hs
      rw [System.apply_partition] at hs
      split at hs
      · rename_i hp
        rw [hp]
        exact hw.seen st (applyEntry_status hs)
      · exact hR _ (h.seen p st hs)
    · intro st hs hst
      rw [System.apply_partition] at hs
      split at hs
      · rename_i hp
        exact hw.undecided hp.symm st (applyEntry_status hs) hst
      · -- reports of another partition tell nothing about the principal
        rename_i hp
        have old : ∀ x, (t.principal, x) ∈ (s.apply t times pid e).reported →
            (t.principal, x) ∈ s.reported := fun x hx =>
          (List.mem_append.mp hx).resolve_right fun k => hp (reportsOf_pid k)
        obtain ⟨h1, h2⟩ := h.undecided st hs hst
        exact ⟨fun k => h1 (old _ k), fun k => h2 (old _ k)⟩
    · intro q st hq
      rcases List.mem_append.mp hq with hq | hq
      · exact ⟨hR _ (h.responses q st hq).1, (h.responses q st hq).2⟩
      · exact ⟨List.mem_append.mpr (.inr (responsesOf_ok hq).1), (responsesOf_ok hq).2⟩
    · by_cases hp : pid = t.principal
      · have hi := h.informed.applied times e h.ids hR fun x hx => by
          refine List.mem_append.mpr (.inr ?_)
          rw [hp, System.partition_principal]
          exact hx
        simpa only [System.apply, hp, if_true] using hi
      · simpa only [System.apply, hp, if_false] using h.informed.mono hR
    · intro w hw'
      exact (h.resolutions w hw').mono hR
  · intro hstore hp hcause
    refine ⟨hp, ?_, hstore⟩
    exact (h.steered.cause (sent_of_stores hback hstore)).resolve_left hcause

theorem watchdog (h : Inv t s) {e : LeaderEvent} (hne : ∀ entry, e ≠ .applied entry) :
    Inv t (s.watch t times e) := by
  have hpart := System.watch_partition t times s hne
  obtain ⟨hinf, hhand⟩ := h.informed.between times e hne fun st hs =>
    h.seen t.principal st (by rw [System.partition_principal]; exact hs)
  have hspawn : ∀ y ∈ System.spawned t (s.principal.step times e).2,
      ResolutionOk t.id s.reported y.1 ∧
        ∀ q ∈ y.2, Justified t.id (s.coordinator.cause ≠ none) s.reported q := by
    intro y hy
    obtain ⟨x, hx, rfl⟩ := List.mem_map.mp hy
    obtain ⟨hx, hid⟩ := List.mem_filter.mp hx
    refine Resolution.start_ok fun hk => ?_
    exact hhand x.2 (hk ▸ hx) (by simpa using hid)
  refine ⟨?_, ?_, ?_, ?_, ?_, h.responses, hinf, ?_⟩
  · intro p
    rw [hpart]
    exact h.pids p
  · rw [← System.partition_principal t, hpart, System.partition_principal]
    exact h.ids
  · refine h.steered.send rfl h.steered.phase ?_
    intro q hq
    obtain ⟨y, hy, hq⟩ := List.mem_flatMap.mp hq
    exact (hspawn y hy).2 q hq
  · intro p st hs
    rw [hpart] at hs
    exact h.seen p st hs
  · intro st hs
    rw [hpart] at hs
    exact h.undecided st hs
  · intro w hw
    rcases List.mem_append.mp hw with hw | hw
    · exact h.resolutions w hw
    · obtain ⟨y, hy, rfl⟩ := List.mem_map.mp hw
      exact (hspawn y hy).1

theorem resolution (h : Inv t s) {i : Nat} {w : Resolution} {q : Request} {r : BatchResult}
    {x : Resolution × List Request} (hw : s.resolutions[i]? = some w) (hq : (q, r) ∈ s.responses)
    (hx : w.handle q r = some x) :
    Inv t { s with resolutions := s.resolutions.set i x.1, requests := s.requests ++ x.2 } := by
  have hok := @Resolution.handle_ok t.id (s.coordinator.cause ≠ none) s.reported w q r x
    (h.resolutions w (List.mem_of_getElem? hw)) hx ?_
  · refine ⟨h.pids, h.ids, h.steered.send rfl h.steered.phase hok.2, h.seen, h.undecided,
      h.responses, h.informed, ?_⟩
    intro w' hw'
    rcases List.mem_or_eq_of_mem_set hw' with hw' | rfl
    · exact h.resolutions w' hw'
    · exact hok.1
  · rintro st rfl rfl
    obtain ⟨hrep, hst⟩ := h.responses _ st hq
    rwa [hst false rfl] at hrep

/-- **Every safe step keeps the invariant.** -/
theorem step {s' : System} {a : Step} (h : Inv t s) (hsafe : Safe t s a)
    (hs : s.step t times a = some s') : Inv t s' := by
  cases System.step_moves hs with
  | begin x hx => exact h.begin hx
  | coordinator pid r q x hq hr hx => exact h.coordinator hsafe hq hr hx
  | apply pid e hback => exact h.apply hsafe hback
  | watchdog e hne => exact h.watchdog hne
  | resolution i q r w x hw hq hx => exact h.resolution hw hq hx

end Inv

/-! ## Agreement -/

/-- No participant has committed the txn if any has aborted it or timed it out. -/
def Agreement (s : System) : Prop :=
  ∀ a b, (a, .committed) ∈ s.reported →
    (b, .aborted) ∉ s.reported ∧ (b, .timedout) ∉ s.reported

theorem Inv.agreement {t : MultiTxn} {s : System} (h : Inv t s) : Agreement s := by
  intro a b ha
  have hc := h.steered.consistent
  have hd := hc.committed a ha
  have hto : ¬TimedOut t.id s.reported := hc.one_outcome hd
  refine ⟨?_, ?_⟩
  · intro hb
    rcases hc.aborted b hb with k | k
    · exact hc.not_aborting hd k
    · exact hto k
  · intro hb
    have hp := hc.timedout b hb
    subst hp
    exact hto hb

/-- **Two-phase commit agreement.** In every run of safe steps the participants
agree on the outcome. -/
theorem participants_agree (t : MultiTxn) (times : Timeouts) (cleanAfter : Int)
    (steps : List Step) (s : System)
    (hsafe : StepsMeet (System.step t times) (Safe t) (System.initial t cleanAfter) steps)
    (hrun : runSteps (System.step t times) (System.initial t cleanAfter) steps = some s) :
    Agreement s :=
  (runSteps_invariant (System.step t times) (Inv t)
    (fun _ _ _ h hok hs => h.step hok hs) (inv_initial t cleanAfter) hsafe hrun).agreement

/-! ## A decision whose answer is lost -/

/-- Both participants prepare and the principal stores the decision. -/
def decidePair : List Step :=
  [.begin,
    .apply 1 ⟨1, 0, { prepare := [⟨2, pair.txnFor 1⟩], maxTimestamp := 2 }⟩,
    .coordinator 1 (.ok (newStatus pair.id 2 .prepared)),
    .apply 2 ⟨1, 0, { prepare := [⟨3, pair.txnFor 2⟩], maxTimestamp := 3 }⟩,
    .coordinator 2 (.ok (newStatus pair.id 3 .prepared)),
    .apply 1 ⟨2, 0, { storeDecision := [⟨4, ⟨pair.id, true, 3⟩⟩], maxTimestamp := 4 }⟩]

def commitPair : List Step := decidePair ++
  [.coordinator 1 (.ok (newStatus pair.id 4 .decided)),
    .apply 2 ⟨2, 0, { commit := [⟨3, pair.id⟩], maxTimestamp := 5 }⟩]

/-- The answer to `StoreDecision` is lost: the coordinator aborts partition 2, and
after a leader change the watchdog commits the principal. -/
def abortDecided : List Step := decidePair ++
  [.coordinator 1 (.error .unavailable),
    .apply 2 ⟨2, 0, { abort := [⟨5, pair.id⟩], maxTimestamp := 5 }⟩,
    .watchdog .newLeader,
    .watchdog (.tickerPhase2 10),
    .apply 1 ⟨3, 0, { commit := [⟨3, pair.id⟩], maxTimestamp := 5 }⟩]

theorem abortDecided_reported :
    (runSteps (System.step pair ⟨5, 5⟩) (System.initial pair 0) abortDecided).map System.reported =
      some [(1, .prepared), (2, .prepared), (1, .decided), (2, .aborted), (1, .committed)] := by
  decide

theorem participants_disagree :
    ¬ ∀ (t : MultiTxn) (times : Timeouts) (cleanAfter : Int) (steps : List Step) (s : System),
      runSteps (System.step t times) (System.initial t cleanAfter) steps = some s →
      Agreement s := by
  intro h
  obtain ⟨s, hs, hrep⟩ := Option.map_eq_some_iff.mp abortDecided_reported
  have hag := h pair ⟨5, 5⟩ 0 abortDecided s hs 1 2 (by rw [hrep]; decide)
  exact hag.1 (by rw [hrep]; decide)

theorem participants_agree_commitPair :
    ∃ s, runSteps (System.step pair ⟨5, 5⟩) (System.initial pair 0) commitPair = some s ∧
      StepsMeet (System.step pair ⟨5, 5⟩) (Safe pair) (System.initial pair 0) commitPair ∧
      (2, .committed) ∈ s.reported ∧ Agreement s := by
  have hmap : (runSteps (System.step pair ⟨5, 5⟩) (System.initial pair 0) commitPair).map
      System.reported =
      some [(1, .prepared), (2, .prepared), (1, .decided), (2, .committed)] := by decide
  obtain ⟨s, hs, hrep⟩ := Option.map_eq_some_iff.mp hmap
  have hsafe : StepsMeet (System.step pair ⟨5, 5⟩) (Safe pair) (System.initial pair 0)
      commitPair := by decide
  exact ⟨s, hs, hsafe, by rw [hrep]; decide,
    participants_agree pair ⟨5, 5⟩ 0 commitPair s hsafe hs⟩

end Scout.TwoPhase
