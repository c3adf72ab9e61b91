import Scout.Lib.Runs
import Scout.TwoPhase.Coordinator

/-!
`processor2PC.Process` as its callers and the participants see it: the calls it
makes, in order, with the answers it gets, and what it returns. The answers of a
fan-out come in any order, and any of them may be an error.
-/

namespace Scout.TwoPhase

open Data Txn Lib

/-! ## What `Process` returns -/

structure TxnResult where
  id : TxnId
  timestamp : Nat
  success : Bool
  actionStatus : AList (fun _ : Nat => ActionStatus)

/-- `utils.AppendMap`. -/
def appendMap (dest : AList (fun _ : Nat => ActionStatus)) (source : List (Nat × ActionStatus)) :
    AList (fun _ : Nat => ActionStatus) :=
  source.foldl (fun m kv => m.insert kv.1 kv.2) dest

def aggregateResults (decision : Decision) (status : List (Nat × TxnStatus)) : TxnResult where
  id := decision.id
  timestamp := if decision.commit then decision.commitTimestamp else 0
  success := decision.commit
  actionStatus := status.foldl (fun m s => appendMap m (s.2.actionStatus.getD [])) ∅

/-- How `Process` ends: with an error, with the status of a principal that failed,
or with the results of a status map. -/
inductive Ending where
  | error
  | principal (s : TxnStatus)
  | results (decision : Decision) (status : List (Nat × TxnStatus))
  deriving DecidableEq

/-- The results that the caller may get: a status map is read in any order. -/
inductive Ending.Yields (t : MultiTxn) : Ending → TxnResult → Prop
  | principal (s : TxnStatus) : Yields t (.principal s)
      { id := t.id, timestamp := s.timestamp, success := false,
        actionStatus := appendMap ∅ (s.actionStatus.getD []) }
  | results (decision : Decision) (status order : List (Nat × TxnStatus))
      (h : order.Perm status) :
      Yields t (.results decision status) (aggregateResults decision order)

/-! ## The machine -/

/-- The coordinator with its local `status` map. -/
structure Process where
  coordinator : Coordinator := {}
  status : List (Nat × TxnStatus) := []
  ending : Option Ending := none

namespace Process

variable (t : MultiTxn) (p : Process)

/-- The status map after a result: that of `prepare`, then that of `commit`. -/
def nextStatus (pid : Nat) (r : BatchResult) : List (Nat × TxnStatus) :=
  match p.coordinator.phase, r with
  | .preparePrincipal, .ok s | .prepare, .ok s => p.status ++ [(pid, s)]
  | .storeDecision _, .ok s => if s.state = .decided then [] else p.status
  | .commit _, .ok s | .commitPrincipal _, .ok s =>
    if s.state = .committed then p.status ++ [(pid, s)] else p.status
  | _, _ => p.status

def afterAbort : Ending :=
  match p.coordinator.cause with
  | some .decide => .results { id := t.id, commit := false, commitTimestamp := 0 } p.status
  | _ => .error

def endsWith (pid : Nat) (r : BatchResult) : Option Ending :=
  match p.coordinator.phase with
  | .preparePrincipal =>
    match r with
    | .ok s => some (.principal s)
    | .error _ => some .error
  | .commitPrincipal d =>
    if isState .committed r then some (.results d (p.nextStatus pid r)) else some .error
  | .abort => some (p.afterAbort t)
  | .abortPrincipal =>
    match r with
    -- the error and a nil go to a channel that has room for one: `Process` hangs
    | .error e => if e = .notFound then some (p.afterAbort t) else none
    | .ok _ => some (p.afterAbort t)
  | _ => some .error

end Process

inductive Input where
  | begin
  /-- The result of the call to `pid` arrives. -/
  | result (pid : Nat) (r : BatchResult)

inductive CallEvent where
  | sent (q : Request)
  | answered (q : Request) (r : BatchResult)

namespace Process

variable (t : MultiTxn) (p : Process)

def step (p : Process) : Input → Option Process
  | .begin => (p.coordinator.begin t).map fun x => { p with coordinator := x.1 }
  | .result pid r => (p.coordinator.handle t pid r).map fun x =>
      { coordinator := x.1
        status := p.nextStatus pid r
        ending := if x.1.phase = .returned then p.endsWith t pid r else none }

/-- The answer that is handled, and the calls that follow it. -/
def calls : Input → List CallEvent
  | .begin =>
    match p.coordinator.begin t with
    | some x => x.2.map .sent
    | none => []
  | .result pid r =>
    match p.coordinator.phase.call pid, p.coordinator.handle t pid r with
    | some q, some x => .answered q r :: x.2.map .sent
    | _, _ => []

end Process

def answers (H : List CallEvent) : List (Request × BatchResult) :=
  H.filterMap fun e =>
    match e with
    | .sent _ => none
    | .answered q r => some (q, r)

def sents (H : List CallEvent) : List Request :=
  H.filterMap fun e =>
    match e with
    | .sent q => some q
    | .answered _ _ => none

theorem answers_append (H K : List CallEvent) : answers (H ++ K) = answers H ++ answers K :=
  List.filterMap_append

theorem sents_append (H K : List CallEvent) : sents (H ++ K) = sents H ++ sents K :=
  List.filterMap_append

@[simp] theorem answers_sent (qs : List Request) : answers (qs.map .sent) = [] := by
  simp [answers, List.filterMap_map]

@[simp] theorem sents_sent (qs : List Request) : sents (qs.map .sent) = qs := by
  simp [sents, List.filterMap_map]

/-! ## What has to be answered before a call -/

section Order

variable (t : MultiTxn) (A : List (Request × BatchResult))

/-- Every participant answered `Prepared`, and the decision has the maximum of
their timestamps. -/
structure AllPrepared (d : Decision) : Prop where
  prepared : ∀ pid ∈ t.participants, ∃ s, (.prepare pid, .ok s) ∈ A ∧ s.state = .prepared
  upper : ∀ pid s, (.prepare pid, .ok s) ∈ A → s.timestamp ≤ d.commitTimestamp
  attained : ∃ pid s, (.prepare pid, .ok s) ∈ A ∧ s.timestamp = d.commitTimestamp

/-- The principal answered `Decided`. -/
def DecisionStored (d : Decision) : Prop :=
  ∃ s, (.storeDecision d, .ok s) ∈ A ∧ s.state = .decided

/-- There is nothing left to abort at the participant: it was aborted, does not
know the txn, or answered `Prepare` with a final state. -/
def NothingToAbort (pid : Nat) : Prop :=
  (∃ r, (.abort pid, r) ∈ A ∧ abortDone r = true) ∨
    ∃ s, (.prepare pid, .ok s) ∈ A ∧ s.state.isFinal = true

/-- The calls that may be made after the answers `A`. -/
def InTurn : Request → Prop
  | .prepare pid => pid = t.principal ∨
      ∃ s, (.prepare t.principal, .ok s) ∈ A ∧ s.state = .prepared
  | .storeDecision d => AllPrepared t A d
  | .commit pid ts => (∃ d, DecisionStored A d ∧ ts = d.commitTimestamp) ∧
      (pid = t.principal → ∀ p ∈ t.rest, ∃ s, (.commit p ts, .ok s) ∈ A ∧ s.state = .committed)
  | .abort pid => pid = t.principal → ∀ p ∈ t.rest, NothingToAbort A p
  | .markTimedout _ => False

/-- The results of a fan-out are the answers to its calls, and those that have not
answered are waited for. -/
structure Collected (call : Nat → Request) (pids : List Nat) (c : Coordinator) : Prop where
  results : ∀ pid r, (pid, r) ∈ c.results ↔ (call pid, r) ∈ A
  cover : ∀ pid ∈ pids, pid ∈ c.waiting ∨ ∃ r, (pid, r) ∈ c.results

/-- What is known in each phase. -/
def PhaseFacts (c : Coordinator) : Prop :=
  match c.phase with
  | .start | .preparePrincipal => A = []
  | .prepare => Collected A .prepare t.participants c ∧
      (∃ s, (.prepare t.principal, .ok s) ∈ A ∧ s.state = .prepared) ∧
      ∀ pid ts r, (.commit pid ts, r) ∉ A
  | .storeDecision _ => (∀ pid r, (pid, r) ∈ c.results → (.prepare pid, r) ∈ A) ∧
      ∀ pid ts r, (.commit pid ts, r) ∉ A
  | .commit d => DecisionStored A d ∧
      Collected A (fun pid => .commit pid d.commitTimestamp) t.rest c
  | .commitPrincipal d => DecisionStored A d ∧
      (∀ pid r, (pid, r) ∈ c.results ↔ (.commit pid d.commitTimestamp, r) ∈ A) ∧
      ∀ pid ∈ t.rest, ∃ s, (pid, .ok s) ∈ c.results ∧ s.state = .committed
  | .abort => (∀ pid r, (pid, r) ∈ c.results → (.abort pid, r) ∈ A) ∧
      ∀ pid ∈ t.rest, pid ∈ c.waiting ∨ (∃ r, (pid, r) ∈ c.results) ∨ NothingToAbort A pid
  | .abortPrincipal | .returned => True

end Order

section Answers

variable {t : MultiTxn} {A : List (Request × BatchResult)} {r : BatchResult}

theorem isState_ok {state : State} (h : isState state r = true) :
    ∃ s, r = .ok s ∧ s.state = state := by
  cases r with
  | error e => cases h
  | ok s => exact ⟨s, rfl, beq_iff_eq.mp h⟩

theorem DecisionStored.more {d : Decision} (h : DecisionStored A d) (x : Request × BatchResult) :
    DecisionStored (A ++ [x]) d := by
  obtain ⟨s, hs, hst⟩ := h
  exact ⟨s, List.mem_append.mpr (.inl hs), hst⟩

variable {pid : Nat}

theorem NothingToAbort.more (h : NothingToAbort A pid) (x : Request × BatchResult) :
    NothingToAbort (A ++ [x]) pid := by
  rcases h with ⟨r, hr, hd⟩ | ⟨s, hs, hf⟩
  · exact .inl ⟨r, List.mem_append.mpr (.inl hr), hd⟩
  · exact .inr ⟨s, List.mem_append.mpr (.inl hs), hf⟩

variable {c : Coordinator}

theorem mem_waiting_erase {x : Nat} (h : x ∈ c.waiting ∨ ∃ r', (x, r') ∈ c.results) :
    x ∈ c.waiting.erase pid ∨ ∃ r', (x, r') ∈ c.results ++ [(pid, r)] := by
  rcases h with h | ⟨r', h⟩
  · by_cases hx : x = pid
    · subst hx
      exact .inr ⟨r, by simp⟩
    · exact .inl ((List.mem_erase_of_ne hx).mpr h)
  · exact .inr ⟨r', by simp [h]⟩

theorem Collected.collect {call : Nat → Request} {pids : List Nat} (h : Collected A call pids c)
    (hinj : ∀ a b, call a = call b → a = b) (pid : Nat) (r : BatchResult) :
    Collected (A ++ [(call pid, r)]) call pids
      { c with results := c.results ++ [(pid, r)], waiting := c.waiting.erase pid } where
  results := by
    intro x r'
    simp only [List.mem_append, List.mem_singleton, Prod.mk.injEq, h.results x r']
    refine or_congr_right (and_congr_left fun _ => ⟨fun e => by rw [e], hinj x pid⟩)
  cover := fun x hx => mem_waiting_erase (h.cover x hx)

theorem Collected.all {call : Nat → Request} {pids : List Nat} (h : Collected A call pids c)
    (hw : c.waiting.isEmpty = true) : ∀ pid ∈ pids, ∃ r, (pid, r) ∈ c.results := by
  intro pid hp
  rcases h.cover pid hp with hp | hp
  · rw [List.isEmpty_iff.mp hw] at hp
    cases hp
  · exact hp

/-! ## The decision -/

theorem foldl_max_timestamps (rs : List (Nat × BatchResult)) (init : Nat) :
    let m := rs.foldl (fun ts r => match r.2 with
      | .ok s => max ts s.timestamp
      | .error _ => ts) init
    init ≤ m ∧ (∀ pid s, (pid, .ok s) ∈ rs → s.timestamp ≤ m) ∧
      (m = init ∨ ∃ pid s, (pid, .ok s) ∈ rs ∧ s.timestamp = m) := by
  induction rs generalizing init with
  | nil => exact ⟨le_rfl, by simp, .inl rfl⟩
  | cons x rs ih =>
    obtain ⟨pid, r⟩ := x
    rw [List.foldl_cons]
    cases r with
    | error e =>
      obtain ⟨h1, h2, h3⟩ := ih init
      refine ⟨h1, ?_, h3.imp_right fun ⟨p, s, hs, e⟩ => ⟨p, s, by simp [hs], e⟩⟩
      intro p s hs
      exact h2 p s (by simpa using hs)
    | ok s₀ =>
      obtain ⟨h1, h2, h3⟩ := ih (max init s₀.timestamp)
      dsimp only at h1 h2 h3 ⊢
      refine ⟨by omega, ?_, ?_⟩
      · intro p s hs
        rcases List.mem_cons.mp hs with e | hs
        · cases e
          omega
        · exact h2 p s hs
      · rcases h3 with h3 | ⟨p, s, hs, e⟩
        · rcases Nat.le_total init s₀.timestamp with hle | hle
          · exact .inr ⟨pid, s₀, by simp, by rw [h3]; omega⟩
          · exact .inl (by rw [h3]; omega)
        · exact .inr ⟨p, s, by simp [hs], e⟩

/-- **A commit decision** is made on answers that are all `Prepared`. -/
theorem decide_allPrepared (h : Collected A .prepare t.participants c)
    (hw : c.waiting.isEmpty = true) (hc : (Coordinator.decide t c.results).commit = true) :
    AllPrepared t A (Coordinator.decide t c.results) := by
  unfold Coordinator.decide at hc ⊢
  split
  · rename_i hall
    rw [List.all_eq_true] at hall
    obtain ⟨_, hup, hatt⟩ := foldl_max_timestamps c.results 0
    have prepared : ∀ pid ∈ t.participants, ∃ s, (.prepare pid, .ok s) ∈ A ∧
        s.state = .prepared := by
      intro pid hp
      obtain ⟨r, hr⟩ := h.all hw pid hp
      obtain ⟨s, rfl, hst⟩ := isState_ok (hall _ hr)
      exact ⟨s, (h.results pid _).mp hr, hst⟩
    refine ⟨prepared, fun pid s hs => hup pid s ((h.results pid _).mpr hs), ?_⟩
    rcases hatt with hzero | ⟨pid, s, hs, e⟩
    · -- all timestamps are zero, that of the principal among them
      obtain ⟨s, hs, _⟩ := prepared t.principal t.principal_mem
      have hle := hup t.principal s ((h.results _ _).mpr hs)
      rw [hzero] at hle
      exact ⟨t.principal, s, hs, (Nat.le_zero.mp hle).trans hzero.symm⟩
    · exact ⟨pid, s, (h.results pid _).mp hs, e⟩
  · rename_i hall
    rw [if_neg hall] at hc
    cases hc

/-! ## The next calls -/

theorem mem_of_lookup {rs : List (Nat × BatchResult)} (h : rs.lookup pid = some r) :
    (pid, r) ∈ rs := by
  obtain ⟨l₁, l₂, he, _⟩ := List.lookup_eq_some_iff.mp h
  rw [he]
  simp

/-- `abort` after answers to `Prepare`: those that are not contacted are final. -/
theorem startAbort_inTurn (cause : Cause)
    (h : ∀ pid r, (pid, r) ∈ c.results → (.prepare pid, r) ∈ A) :
    PhaseFacts t A (c.startAbort t cause).1 ∧ ∀ q ∈ (c.startAbort t cause).2, InTurn t A q := by
  have skipped : ∀ pid ∈ t.rest, pid ∉ Coordinator.abortTargets t c.results →
      NothingToAbort A pid := by
    intro pid hp hn
    unfold Coordinator.abortTargets at hn
    rw [List.mem_filter, not_and] at hn
    have hn := hn hp
    split at hn
    · rename_i s hs
      exact .inr ⟨s, h pid _ (mem_of_lookup hs), by simpa using hn⟩
    · simp at hn
  unfold Coordinator.startAbort
  dsimp only
  split
  · rename_i he
    refine ⟨trivial, ?_⟩
    intro q hq
    rw [List.mem_singleton.mp hq]
    intro _ pid hp
    refine skipped pid hp ?_
    rw [List.isEmpty_iff.mp he]
    simp
  · refine ⟨⟨by simp, ?_⟩, ?_⟩
    · intro pid hp
      by_cases ht : pid ∈ Coordinator.abortTargets t c.results
      · exact .inl ht
      · exact .inr (.inr (skipped pid hp ht))
    · intro q hq
      obtain ⟨pid, hpid, rfl⟩ := List.mem_map.mp hq
      intro hprin
      -- the principal is not one of the targets
      have hrest := (List.mem_filter.mp (List.mem_filter.mp hpid).1).2
      simp [hprin] at hrest

theorem conclude_inTurn (h : PhaseFacts t A c)
    (hph : c.phase = .prepare ∨ (∃ d, c.phase = .commit d) ∨ c.phase = .abort)
    (hw : c.waiting.isEmpty = true) :
    PhaseFacts t A (c.conclude t).1 ∧ ∀ q ∈ (c.conclude t).2, InTurn t A q := by
  have stops : PhaseFacts t A c.finish ∧ ∀ q ∈ ([] : List Request), InTurn t A q :=
    ⟨trivial, by simp⟩
  unfold PhaseFacts at h
  unfold Coordinator.conclude
  rcases hph with hph | ⟨d, hph⟩ | hph <;> rw [hph] at h ⊢ <;> dsimp only at h ⊢
  · obtain ⟨hcol, _, hnone⟩ := h
    have hres := fun pid r => (hcol.results pid r).mp
    split
    · exact startAbort_inTurn _ hres
    split
    · rename_i hc
      refine ⟨⟨hres, hnone⟩, ?_⟩
      intro q hq
      rw [List.mem_singleton.mp hq]
      exact decide_allPrepared hcol hw hc
    · exact startAbort_inTurn _ hres
  · obtain ⟨hdec, hcol⟩ := h
    split
    · rename_i hall
      rw [List.all_eq_true] at hall
      have committed : ∀ pid ∈ t.rest, ∃ s, (pid, .ok s) ∈ c.results ∧ s.state = .committed := by
        intro pid hp
        obtain ⟨r, hr⟩ := hcol.all hw pid hp
        obtain ⟨s, rfl, hst⟩ := isState_ok (hall _ hr)
        exact ⟨s, hr, hst⟩
      refine ⟨⟨hdec, hcol.results, committed⟩, ?_⟩
      intro q hq
      rw [List.mem_singleton.mp hq]
      refine ⟨⟨d, hdec, rfl⟩, ?_⟩
      intro _ pid hp
      obtain ⟨s, hs, hst⟩ := committed pid hp
      exact ⟨s, (hcol.results pid _).mp hs, hst⟩
    · exact stops
  · obtain ⟨hres, hcover⟩ := h
    split
    · rename_i hall
      rw [List.all_eq_true] at hall
      refine ⟨trivial, ?_⟩
      intro q hq
      rw [List.mem_singleton.mp hq]
      intro _ pid hp
      rcases hcover pid hp with hwait | ⟨r, hr⟩ | hdone
      · rw [List.isEmpty_iff.mp hw] at hwait
        cases hwait
      · exact .inl ⟨r, hres pid r hr, hall _ hr⟩
      · exact hdone
    · exact stops

theorem PhaseFacts.collect (h : PhaseFacts t A c)
    (hph : c.phase = .prepare ∨ (∃ d, c.phase = .commit d) ∨ c.phase = .abort) {q : Request}
    (hq : c.phase.call pid = some q) (r : BatchResult) : PhaseFacts t (A ++ [(q, r)])
      { c with results := c.results ++ [(pid, r)], waiting := c.waiting.erase pid } := by
  obtain ⟨phase, results, waiting, cause⟩ := c
  rcases hph with rfl | ⟨d, rfl⟩ | rfl <;> cases hq
  · obtain ⟨hcol, ⟨s, hs, hst⟩, hnone⟩ := h
    refine ⟨hcol.collect (fun a b e => by injection e) pid r, ⟨s, by simp [hs], hst⟩, ?_⟩
    intro p ts r' hm
    rcases List.mem_append.mp hm with hm | hm
    · exact hnone p ts r' hm
    · cases List.mem_singleton.mp hm
  · obtain ⟨hdec, hcol⟩ := h
    exact ⟨hdec.more _, hcol.collect (fun a b e => by injection e) pid r⟩
  · obtain ⟨hres, hcover⟩ := h
    refine ⟨?_, ?_⟩
    · intro x r' hm
      rcases List.mem_append.mp hm with hm | hm
      · exact List.mem_append.mpr (.inl (hres x r' hm))
      · cases List.mem_singleton.mp hm
        simp
    · intro x hx
      rcases hcover x hx with hw | hr | hdone
      · exact (mem_waiting_erase (.inl hw)).imp_right .inl
      · exact (mem_waiting_erase (.inr hr)).imp_right .inl
      · exact .inr (.inr (hdone.more _))

theorem collect_inTurn (h : PhaseFacts t A c)
    (hph : c.phase = .prepare ∨ (∃ d, c.phase = .commit d) ∨ c.phase = .abort) {q : Request}
    (hq : c.phase.call pid = some q) (r : BatchResult) :
    PhaseFacts t (A ++ [(q, r)]) (c.collect t pid r).1 ∧
      ∀ q' ∈ (c.collect t pid r).2, InTurn t (A ++ [(q, r)]) q' := by
  have h' := h.collect hph hq r
  unfold Coordinator.collect
  dsimp only
  split
  · exact conclude_inTurn h' hph (by assumption)
  · exact ⟨h', by simp⟩

variable {x : Coordinator × List Request}

theorem preparePrincipal_inTurn (hph : c.phase = .preparePrincipal)
    (hx : c.handle t t.principal r = some x) : PhaseFacts t [(.prepare t.principal, r)] x.1 ∧
      ∀ q ∈ x.2, InTurn t [(.prepare t.principal, r)] q := by
  unfold Coordinator.handle at hx
  rw [hph] at hx
  dsimp only at hx
  rw [if_neg (not_not_intro rfl)] at hx
  split at hx
  · cases hx
    exact ⟨trivial, by simp⟩
  · rename_i hr
    cases hx
    have hprep : isState .prepared r = true := by
      by_contra hn
      simp [hn] at hr
    obtain ⟨s, rfl, hst⟩ := isState_ok hprep
    refine ⟨⟨⟨by simp, ?_⟩, ⟨s, by simp, hst⟩, by simp⟩, ?_⟩
    · intro p hp
      by_cases he : p = t.principal
      · subst he
        exact .inr ⟨_, List.mem_singleton.mpr rfl⟩
      · exact .inl (List.mem_filter.mpr ⟨hp, by simpa using he⟩)
    · intro q' hq'
      obtain ⟨p, _, rfl⟩ := List.mem_map.mp hq'
      exact .inr ⟨s, by simp, hst⟩

theorem storeDecision_inTurn {d : Decision} (hph : c.phase = .storeDecision d)
    (h : PhaseFacts t A c) (hx : c.handle t pid r = some x) :
    PhaseFacts t (A ++ [(.storeDecision d, r)]) x.1 ∧
      ∀ q ∈ x.2, InTurn t (A ++ [(.storeDecision d, r)]) q := by
  unfold PhaseFacts at h
  unfold Coordinator.handle at hx
  rw [hph] at h hx
  dsimp only at hx
  obtain ⟨hres, hnone⟩ := h
  split at hx
  · cases hx
  split at hx
  · cases hx
    exact startAbort_inTurn _ fun p r' hm => List.mem_append.mpr (.inl (hres p r' hm))
  · split at hx
    · rename_i hd
      cases hx
      obtain ⟨s, rfl, hst⟩ := isState_ok hd
      have hdec : DecisionStored (A ++ [(.storeDecision d, .ok s)]) d := ⟨s, by simp, hst⟩
      refine ⟨⟨hdec, by simp [hnone], fun p hp => .inl hp⟩, ?_⟩
      intro q' hq'
      obtain ⟨p, hp, rfl⟩ := List.mem_map.mp hq'
      refine ⟨⟨d, hdec, rfl⟩, ?_⟩
      intro he
      have hrest := (List.mem_filter.mp hp).2
      simp [he] at hrest
    · cases hx
      exact ⟨trivial, by simp⟩

theorem principal_of_handle
    (hph : c.phase = .preparePrincipal ∨ (∃ d, c.phase = .commitPrincipal d) ∨
      c.phase = .abortPrincipal) (hx : c.handle t pid r = some x) : pid = t.principal := by
  by_contra hn
  unfold Coordinator.handle at hx
  rcases hph with hph | ⟨d, hph⟩ | hph <;> rw [hph] at hx <;> dsimp only at hx <;>
    rw [if_pos hn] at hx <;> cases hx

theorem collects_of_handle
    (hph : c.phase = .prepare ∨ (∃ d, c.phase = .commit d) ∨ c.phase = .abort)
    (hx : c.handle t pid r = some x) : x = c.collect t pid r := by
  unfold Coordinator.handle at hx
  rcases hph with hph | ⟨d, hph⟩ | hph <;> rw [hph] at hx <;> dsimp only at hx <;>
    split at hx <;> cases hx <;> rfl

theorem returns_of_handle (hph : (∃ d, c.phase = .commitPrincipal d) ∨ c.phase = .abortPrincipal)
    (hx : c.handle t pid r = some x) : x = (c.finish, []) := by
  unfold Coordinator.handle at hx
  rcases hph with ⟨d, hph⟩ | hph <;> rw [hph] at hx <;> dsimp only at hx <;>
    split at hx <;> cases hx <;> rfl

/-- **Every call comes in its turn**, whatever the answer was. -/
theorem handle_inTurn (h : PhaseFacts t A c) {q : Request} (hq : c.phase.call pid = some q)
    (hx : c.handle t pid r = some x) :
    PhaseFacts t (A ++ [(q, r)]) x.1 ∧ ∀ q' ∈ x.2, InTurn t (A ++ [(q, r)]) q' := by
  have collects : (c.phase = .prepare ∨ (∃ d, c.phase = .commit d) ∨ c.phase = .abort) →
      PhaseFacts t (A ++ [(q, r)]) x.1 ∧ ∀ q' ∈ x.2, InTurn t (A ++ [(q, r)]) q' := by
    intro hph
    rw [collects_of_handle hph hx]
    exact collect_inTurn h hph hq r
  have returns : ((∃ d, c.phase = .commitPrincipal d) ∨ c.phase = .abortPrincipal) →
      PhaseFacts t (A ++ [(q, r)]) x.1 ∧ ∀ q' ∈ x.2, InTurn t (A ++ [(q, r)]) q' := by
    intro hph
    rw [returns_of_handle hph hx]
    exact ⟨trivial, by simp⟩
  cases hph : c.phase with
  | start | returned =>
    rw [hph] at hq
    cases hq
  | preparePrincipal =>
    have hp := principal_of_handle (.inl hph) hx
    subst hp
    unfold PhaseFacts at h
    rw [hph] at h hq
    cases h
    cases hq
    exact preparePrincipal_inTurn hph hx
  | prepare => exact collects (.inl hph)
  | storeDecision d =>
    rw [hph] at hq
    cases hq
    exact storeDecision_inTurn hph h hx
  | commit d => exact collects (.inr (.inl ⟨d, hph⟩))
  | commitPrincipal d => exact returns (.inl ⟨d, hph⟩)
  | abort => exact collects (.inr (.inr hph))
  | abortPrincipal => exact returns (.inr hph)

end Answers

end Scout.TwoPhase
