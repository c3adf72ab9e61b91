import Scout.TwoPhase.Process

/-!
What a whole call of `processor2PC.Process` keeps: its calls come in their turn,
commits and aborts exclude each other, and a successful result is complete.
-/

namespace Scout.TwoPhase

open Data Txn Lib

/-! ## Commits and aborts exclude each other -/

section Moves

variable {t : MultiTxn}

/-- What may have been sent when the coordinator is in a phase. -/
def NotBoth (phase : Phase) (S : List Request) : Prop :=
  match phase with
  | .start | .preparePrincipal | .prepare | .storeDecision _ =>
    (∀ pid ts, .commit pid ts ∉ S) ∧ ∀ pid, .abort pid ∉ S
  | .commit _ | .commitPrincipal _ => ∀ pid, .abort pid ∉ S
  | .abort | .abortPrincipal => ∀ pid ts, .commit pid ts ∉ S
  | .returned => (∀ pid ts, .commit pid ts ∉ S) ∨ ∀ pid, .abort pid ∉ S

theorem NotBoth.either {phase : Phase} {S : List Request} (h : NotBoth phase S) :
    (∀ pid ts, .commit pid ts ∉ S) ∨ ∀ pid, .abort pid ∉ S := by
  cases phase with
  | start | preparePrincipal | prepare | storeDecision d => exact .inl h.1
  | commit d | commitPrincipal d => exact .inr h
  | abort | abortPrincipal => exact .inl h
  | returned => exact h

theorem NotBoth.move {c c' : Coordinator} {r : BatchResult} {sent S : List Request}
    (hm : Moves t c r c' sent) (h : NotBoth c.phase S) : NotBoth c'.phase (S ++ sent) := by
  cases hm with
  | returned hp hc =>
    rw [hp, List.append_nil]
    exact h.either
  | collect hp hc =>
    rw [hp, List.append_nil]
    exact h
  | prepare hph hp hc =>
    rw [hph] at h
    rw [hp]
    exact ⟨fun pid ts => by simp [h.1 pid ts], fun pid => by simp [h.2 pid]⟩
  | decided d hph hp hc =>
    rw [hph] at h
    rw [hp]
    exact ⟨fun pid ts => by simp [h.1 pid ts], fun pid => by simp [h.2 pid]⟩
  | abort cause _ hph hp hc hs =>
    have hnone : ∀ pid ts, .commit pid ts ∉ S := by
      rcases hph with ⟨hph, _⟩ | ⟨⟨d, hph⟩, _⟩ <;> rw [hph] at h <;> exact h.1
    have hnone' : ∀ pid ts, Request.commit pid ts ∉ S ++ sent := by
      intro pid ts hmem
      rcases List.mem_append.mp hmem with hmem | hmem
      · exact hnone pid ts hmem
      · obtain ⟨p, e⟩ := hs _ hmem
        cases e
    rcases hp with hp | hp <;> rw [hp] <;> exact hnone'
  | commit d hph hr hp hc =>
    rw [hph] at h
    rw [hp]
    exact fun pid => by simp [h.2 pid]
  | commitPrincipal d hph hp hc =>
    rw [hph] at h
    rw [hp]
    exact fun pid => by simp [h pid]
  | abortPrincipal hph hp hc =>
    rw [hph] at h
    rw [hp]
    exact fun pid ts => by simp [h pid ts]

/-! ## The statuses of the commits -/

theorem collect_commit_results {c : Coordinator} {d : Decision} (hph : c.phase = .commit d)
    (pid : Nat) (r : BatchResult) : (c.collect t pid r).1.results = c.results ++ [(pid, r)] := by
  unfold Coordinator.collect Coordinator.conclude
  rw [hph]
  dsimp only
  split
  · split <;> rfl
  · rfl

theorem handle_commit {c c' : Coordinator} {pid : Nat} {r : BatchResult} {sent : List Request}
    (hx : c.handle t pid r = some (c', sent)) {d : Decision}
    (hd : c'.phase = .commit d ∨ c'.phase = .commitPrincipal d) :
    (c.phase = .storeDecision d ∧ isState .decided r = true ∧ c'.results = []) ∨
      c.phase = .commit d ∧ c'.results = c.results ++ [(pid, r)] := by
  have hm : Moves t c r c' sent := handle_moves hx
  have inCommit : ∀ d', c.phase = .commit d' → c'.results = c.results ++ [(pid, r)] := by
    intro d' hph
    rw [← collect_commit_results hph pid r,
      ← collects_of_handle (.inr (.inl ⟨d', hph⟩)) hx]
  cases hm with
  | returned hp hc => simp [hp] at hd
  | collect hp hc =>
    rw [hp] at hd
    rcases hd with hd | hd
    · exact .inr ⟨hd, inCommit d hd⟩
    · cases returns_of_handle (.inl ⟨d, hd⟩) hx
      simp [Coordinator.finish, hd] at hp
  | prepare hph hp hc => simp [hp] at hd
  | decided d' hph hp hc => simp [hp] at hd
  | abort cause _ hph hp hc hs => rcases hp with hp | hp <;> simp [hp] at hd
  | commit d' hph hr hp hc =>
    obtain rfl : d' = d := by simpa [hp] using hd
    refine .inl ⟨hph, hr, ?_⟩
    obtain ⟨s, rfl, _⟩ := isState_ok hr
    unfold Coordinator.handle at hx
    rw [hph] at hx
    dsimp only [isError] at hx
    split at hx
    · cases hx
    · rw [if_neg (by simp)] at hx
      cases hx
      rfl
  | commitPrincipal d' hph hp hc =>
    obtain rfl : d' = d := by simpa [hp] using hd
    exact .inr ⟨hph, inCommit d' hph⟩
  | abortPrincipal hph hp hc => simp [hp] at hd

end Moves

/-- The local status map holds the results that say `Committed`. -/
def StatusKept (p : Process) : Prop :=
  ∀ d, p.coordinator.phase = .commit d ∨ p.coordinator.phase = .commitPrincipal d →
    ∀ pid s, (pid, s) ∈ p.status ↔ (pid, .ok s) ∈ p.coordinator.results ∧ s.state = .committed

theorem mem_nextStatus {p : Process} {d : Decision}
    (hph : p.coordinator.phase = .commit d ∨ p.coordinator.phase = .commitPrincipal d)
    {pid x : Nat} {r : BatchResult} {s : TxnStatus} : (x, s) ∈ p.nextStatus pid r ↔
      (x, s) ∈ p.status ∨ x = pid ∧ r = .ok s ∧ s.state = .committed := by
  unfold Process.nextStatus
  cases r with
  | error e => rcases hph with hph | hph <;> simp [hph]
  | ok s₀ =>
    have kept : (x, s) ∈ (if s₀.state = .committed then p.status ++ [(pid, s₀)] else p.status) ↔
        (x, s) ∈ p.status ∨ x = pid ∧ (.ok s₀ : BatchResult) = .ok s ∧ s.state = .committed := by
      simp only [Except.ok.injEq]
      split
      · rename_i hst
        rw [List.mem_append, List.mem_singleton, Prod.mk.injEq]
        refine or_congr_right (and_congr_right fun _ => ⟨?_, fun h => h.1.symm⟩)
        rintro rfl
        exact ⟨rfl, hst⟩
      · rename_i hst
        refine ⟨.inl, ?_⟩
        rintro (h | ⟨_, rfl, h⟩)
        · exact h
        · exact absurd h hst
    rcases hph with hph | hph <;> rw [hph] <;> exact kept

/-! ## The whole call -/

/-- The status map of a successful call: every participant is in it, with what it
answered to `Commit`. -/
structure Complete (t : MultiTxn) (A : List (Request × BatchResult)) (d : Decision)
    (status : List (Nat × TxnStatus)) : Prop where
  everyone : ∀ pid ∈ t.participants, ∃ s, (pid, s) ∈ status
  mem_iff : ∀ pid s, (pid, s) ∈ status ↔
    (.commit pid d.commitTimestamp, .ok s) ∈ A ∧ s.state = .committed

/-- Every call comes after the answers that it needs. -/
def CallsInTurn (t : MultiTxn) (H : List CallEvent) : Prop :=
  ∀ l q r, H = l ++ .sent q :: r → InTurn t (answers l) q

structure Process.Ok (t : MultiTxn) (p : Process) (H : List CallEvent) : Prop where
  turn : CallsInTurn t H
  facts : PhaseFacts t (answers H) p.coordinator
  notBoth : NotBoth p.coordinator.phase (sents H)
  status : StatusKept p
  complete : ∀ d status, p.ending = some (.results d status) → d.commit = true →
    Complete t (answers H) d status

section Turn

variable {t : MultiTxn} {H : List CallEvent}

theorem CallsInTurn.sent (h : CallsInTurn t H) {qs : List Request}
    (hqs : ∀ q ∈ qs, InTurn t (answers H) q) : CallsInTurn t (H ++ qs.map .sent) := by
  intro l q r he
  rcases append_eq_split he with ⟨r', hH⟩ | ⟨l', rfl, hl'⟩
  · exact h l q r' hH
  -- only calls were added before this one
  obtain ⟨l₁, l₂, hsplit, rfl, hl₂⟩ := List.map_eq_append_iff.mp hl'
  obtain ⟨q', _, rfl, hq', _⟩ := List.map_eq_cons_iff.mp hl₂
  cases hq'
  rw [answers_append, answers_sent, List.append_nil]
  exact hqs q (by simp [hsplit])

theorem CallsInTurn.answered (h : CallsInTurn t H) (q : Request) (r : BatchResult) :
    CallsInTurn t (H ++ [.answered q r]) := by
  intro l q' r' he
  rcases append_eq_split he with ⟨r'', hH⟩ | ⟨l', rfl, hl'⟩
  · exact h l q' r'' hH
  · rcases List.singleton_eq_append_iff.mp hl' with ⟨_, e⟩ | ⟨_, e⟩ <;> cases e

end Turn

section Steps

variable {t : MultiTxn} {p p' : Process} {H : List CallEvent}

theorem Process.Ok.init (t : MultiTxn) : Process.Ok t {} [] where
  turn := by simp [CallsInTurn]
  facts := rfl
  notBoth := by simp [NotBoth, sents]
  status := by simp [StatusKept]
  complete := by simp

theorem Process.Ok.start (h : p.Ok t H) (hs : p.step t .begin = some p') :
    p'.Ok t (H ++ p.calls t .begin) := by
  obtain ⟨x, hx, rfl⟩ := Option.map_eq_some_iff.mp hs
  unfold Process.calls
  rw [hx]
  unfold Coordinator.begin at hx
  split at hx
  · rename_i hph
    cases hx
    have hA : answers (H ++ [Request.prepare t.principal].map .sent) = answers H := by
      rw [answers_append, answers_sent, List.append_nil]
    have hfacts := h.facts
    have hboth := h.notBoth
    unfold PhaseFacts at hfacts
    rw [hph] at hfacts hboth
    refine ⟨?_, hA.trans hfacts, ?_, by simp [StatusKept], ?_⟩
    · refine h.turn.sent ?_
      intro q hq
      rw [List.mem_singleton.mp hq]
      exact .inl rfl
    · rw [sents_append, sents_sent]
      exact ⟨fun pid ts => by simp [hboth.1 pid ts], fun pid => by simp [hboth.2 pid]⟩
    · rw [hA]
      exact h.complete
  · cases hx

variable {pid : Nat} {r : BatchResult}

theorem statusKept_result (h : StatusKept p) {c' : Coordinator} {sent : List Request}
    (hx : p.coordinator.handle t pid r = some (c', sent)) (ending : Option Ending) :
    StatusKept ⟨c', p.nextStatus pid r, ending⟩ := by
  intro d hd x s
  dsimp only at hd ⊢
  rcases handle_commit hx hd with ⟨hph, hr, hres⟩ | ⟨hph, hres⟩
  · obtain ⟨s₀, rfl, hst⟩ := isState_ok hr
    simp [Process.nextStatus, hph, hst, hres]
  · rw [mem_nextStatus (.inl hph), hres, h d (.inl hph) x s, List.mem_append,
      List.mem_singleton, Prod.mk.injEq, or_and_right, and_assoc, eq_comm (a := r)]

theorem endsWith_results {d : Decision} {status : List (Nat × TxnStatus)}
    (h : p.endsWith t pid r = some (.results d status)) (hd : d.commit = true) :
    p.coordinator.phase = .commitPrincipal d ∧
      isState .committed r = true ∧ status = p.nextStatus pid r := by
  have aborted : ∀ e, some (p.afterAbort t) = some e → e ≠ .results d status := by
    intro e he
    cases he
    unfold Process.afterAbort
    split
    · intro e
      cases e
      cases hd
    · simp
  unfold Process.endsWith at h
  split at h
  · split at h <;> cases h
  · rename_i hph
    split at h
    · rename_i hr
      cases h
      exact ⟨hph, hr, rfl⟩
    · cases h
  · exact absurd rfl (aborted _ h)
  · split at h
    · split at h
      · exact absurd rfl (aborted _ h)
      · cases h
    · exact absurd rfl (aborted _ h)
  · cases h

theorem call_of_handle {c : Coordinator} {x : Coordinator × List Request}
    (hx : c.handle t pid r = some x) : ∃ q, c.phase.call pid = some q := by
  unfold Coordinator.handle at hx
  cases hph : c.phase with
  | start | returned =>
    rw [hph] at hx
    cases hx
  | preparePrincipal | prepare | storeDecision d | commit d | commitPrincipal d | abort
  | abortPrincipal => exact ⟨_, rfl⟩

theorem complete_result (h : p.Ok t H) {q : Request} {d : Decision}
    (hph : p.coordinator.phase = .commitPrincipal d) (hq : p.coordinator.phase.call pid = some q)
    (hp : pid = t.principal) (hr : isState .committed r = true) :
    Complete t (answers H ++ [(q, r)]) d (p.nextStatus pid r) := by
  have hfacts := h.facts
  unfold PhaseFacts at hfacts
  rw [hph] at hq hfacts
  cases hq
  obtain ⟨_, hres, hrest⟩ := hfacts
  have hstatus := h.status d (.inr hph)
  obtain ⟨s₀, rfl, hst₀⟩ := isState_ok hr
  have hmem : ∀ x s, (x, s) ∈ p.nextStatus pid (.ok s₀) ↔
      (.commit x d.commitTimestamp, .ok s) ∈
        answers H ++ [(Request.commit pid d.commitTimestamp, .ok s₀)] ∧ s.state = .committed := by
    intro x s
    rw [mem_nextStatus (.inr hph), hstatus, hres, List.mem_append, List.mem_singleton,
      Prod.mk.injEq, or_and_right, and_assoc, Request.commit.injEq]
    simp [eq_comm]
  refine ⟨?_, hmem⟩
  intro x hx
  by_cases he : x = t.principal
  · exact ⟨s₀, (mem_nextStatus (.inr hph)).mpr (.inr ⟨he.trans hp.symm, rfl, hst₀⟩)⟩
  · obtain ⟨s, hs, hst⟩ := hrest x (List.mem_filter.mpr ⟨hx, by simpa using he⟩)
    exact ⟨s, (mem_nextStatus (.inr hph)).mpr (.inl ((hstatus x s).mpr ⟨hs, hst⟩))⟩

theorem Process.Ok.result (h : p.Ok t H) (hs : p.step t (.result pid r) = some p') :
    p'.Ok t (H ++ p.calls t (.result pid r)) := by
  obtain ⟨⟨c', sent⟩, hx, rfl⟩ := Option.map_eq_some_iff.mp hs
  obtain ⟨q, hq⟩ := call_of_handle hx
  have hcalls : H ++ p.calls t (.result pid r) = (H ++ [.answered q r]) ++ sent.map .sent := by
    simp [Process.calls, hq, hx]
  have hA : answers (H ++ [.answered q r]) = answers H ++ [(q, r)] := answers_append _ _
  have hA' : answers (H ++ [.answered q r] ++ sent.map .sent) = answers H ++ [(q, r)] := by
    rw [answers_append, answers_sent, List.append_nil, hA]
  obtain ⟨hfacts, hturn⟩ := handle_inTurn h.facts hq hx
  rw [hcalls]
  refine ⟨?_, ?_, ?_, statusKept_result h.status hx _, ?_⟩
  · refine (h.turn.answered q r).sent ?_
    rw [hA]
    exact hturn
  · rw [hA']
    exact hfacts
  · rw [sents_append, sents_sent, sents_append]
    exact NotBoth.move (handle_moves hx) (by simpa [sents] using h.notBoth)
  · intro d status he hd
    split at he
    · obtain ⟨hph, hr, rfl⟩ := endsWith_results he hd
      rw [hA']
      exact complete_result h hph hq (principal_of_handle (.inr (.inl ⟨d, hph⟩)) hx) hr
    · cases he

end Steps

/-! ## The union of the action statuses -/

theorem appendMap_cons (m : AList fun _ : Nat => ActionStatus) (kv : Nat × ActionStatus)
    (source : List (Nat × ActionStatus)) :
    appendMap m (kv :: source) = appendMap (m.insert kv.1 kv.2) source := rfl

variable {m : AList fun _ : Nat => ActionStatus} {k : Nat}

theorem lookup_appendMap {source : List (Nat × ActionStatus)} {v : ActionStatus}
    (h : (appendMap m source).lookup k = some v) : (k, v) ∈ source ∨ m.lookup k = some v := by
  induction source generalizing m with
  | nil => exact .inr h
  | cons kv source ih =>
    rw [appendMap_cons] at h
    rcases ih h with hk | hk
    · exact .inl (List.mem_cons_of_mem _ hk)
    by_cases he : k = kv.1
    · subst he
      rw [AList.lookup_insert] at hk
      cases hk
      exact .inl (by simp)
    · rw [AList.lookup_insert_ne he] at hk
      exact .inr hk

theorem mem_appendMap {source : List (Nat × ActionStatus)} (h : k ∈ m ∨ ∃ v, (k, v) ∈ source) :
    k ∈ appendMap m source := by
  induction source generalizing m with
  | nil => exact h.resolve_right (by simp)
  | cons kv source ih =>
    rw [appendMap_cons]
    refine ih ?_
    rcases h with h | ⟨v, h⟩
    · exact .inl ((AList.mem_insert m).mpr (.inr h))
    · rcases List.mem_cons.mp h with rfl | h
      · exact .inl ((AList.mem_insert m).mpr (.inl rfl))
      · exact .inr ⟨v, h⟩

theorem lookup_aggregate {status : List (Nat × TxnStatus)} {v : ActionStatus}
    (h : (status.foldl (fun m s => appendMap m (s.2.actionStatus.getD [])) m).lookup k = some v) :
    (∃ x ∈ status, (k, v) ∈ x.2.actionStatus.getD []) ∨ m.lookup k = some v := by
  induction status generalizing m with
  | nil => exact .inr h
  | cons x status ih =>
    rw [List.foldl_cons] at h
    rcases ih h with ⟨y, hy, hk⟩ | hk
    · exact .inl ⟨y, List.mem_cons_of_mem _ hy, hk⟩
    · exact (lookup_appendMap hk).imp_left fun hk => ⟨x, by simp, hk⟩

theorem mem_aggregate {status : List (Nat × TxnStatus)}
    (h : k ∈ m ∨ ∃ x ∈ status, ∃ v, (k, v) ∈ x.2.actionStatus.getD []) :
    k ∈ status.foldl (fun m s => appendMap m (s.2.actionStatus.getD [])) m := by
  induction status generalizing m with
  | nil => simpa using h
  | cons x status ih =>
    rw [List.foldl_cons]
    refine ih ?_
    rcases h with h | ⟨y, hy, v, hk⟩
    · exact .inl (mem_appendMap (.inl h))
    · rcases List.mem_cons.mp hy with rfl | hy
      · exact .inl (mem_appendMap (.inr ⟨v, hk⟩))
      · exact .inr ⟨y, hy, v, hk⟩

/-- A participant answered `Committed` with this status of an action. -/
def Reported (A : List (Request × BatchResult)) (ts k : Nat) (v : ActionStatus) : Prop :=
  ∃ pid s, (.commit pid ts, .ok s) ∈ A ∧ s.state = .committed ∧ (k, v) ∈ s.actionStatus.getD []

/-- The map holds what was reported, and nothing else. Two participants that report
the same action leave one of their statuses. -/
structure IsUnion (A : List (Request × BatchResult)) (ts : Nat)
    (m : AList fun _ : Nat => ActionStatus) : Prop where
  reported : ∀ k v, m.lookup k = some v → Reported A ts k v
  present : ∀ k v, Reported A ts k v → k ∈ m
  kept : ∀ k v, Reported A ts k v → (∀ w, Reported A ts k w → w = v) → m.lookup k = some v

theorem Complete.isUnion {t : MultiTxn} {A : List (Request × BatchResult)} {d : Decision}
    {status order : List (Nat × TxnStatus)} (h : Complete t A d status) (hp : order.Perm status) :
    IsUnion A d.commitTimestamp (aggregateResults d order).actionStatus := by
  have reported : ∀ k v, (aggregateResults d order).actionStatus.lookup k = some v →
      Reported A d.commitTimestamp k v := by
    intro k v hk
    rcases lookup_aggregate hk with ⟨⟨pid, s⟩, hx, hk⟩ | hk
    · obtain ⟨hA, hst⟩ := (h.mem_iff pid s).mp (hp.mem_iff.mp hx)
      exact ⟨pid, s, hA, hst, hk⟩
    · cases hk
  have present : ∀ k v, Reported A d.commitTimestamp k v →
      k ∈ (aggregateResults d order).actionStatus := by
    rintro k v ⟨pid, s, hA, hst, hk⟩
    exact mem_aggregate (.inr ⟨(pid, s),
      hp.mem_iff.mpr ((h.mem_iff pid s).mpr ⟨hA, hst⟩), v, hk⟩)
  refine ⟨reported, present, ?_⟩
  intro k v hv hone
  obtain ⟨w, hw⟩ := Option.isSome_iff_exists.mp (AList.lookup_isSome.mpr (present k v hv))
  rw [hw, hone w (reported k w hw)]

/-- **Coordinator ordering.** For every txn, every combination of answers and errors and
every order in which they arrive: each call of `Process` comes after the answers that it
needs, never are both a `Commit` and an `Abort` sent, and a result with `Success` is
returned only when every participant answered `Committed`, with the union of their action
statuses. -/
theorem coordinator_ordering (t : MultiTxn) (inputs : List Input) (p : Process)
    (hrun : runSteps (Process.step t) {} inputs = some p) :
    let H := runHistory (Process.step t) (Process.calls t) {} inputs
    CallsInTurn t H ∧
    (∀ pid ts pid', .commit pid ts ∈ sents H → .abort pid' ∉ sents H) ∧
    ∀ ending result, p.ending = some ending → ending.Yields t result → result.success = true →
      (∀ pid ∈ t.participants, ∃ s,
        (.commit pid result.timestamp, .ok s) ∈ answers H ∧ s.state = .committed) ∧
      IsUnion (answers H) result.timestamp result.actionStatus := by
  intro H
  have h : p.Ok t H := by
    refine runSteps_history (Process.step t) (Process.calls t) (Process.Ok t) ?_
      (Process.Ok.init t) hrun
    intro p₁ i p₂ K hok hs
    cases i with
    | begin => exact hok.start hs
    | result pid r => exact hok.result hs
  refine ⟨h.turn, ?_, ?_⟩
  · intro pid ts pid' hc ha
    rcases h.notBoth.either with hnone | hnone
    · exact hnone pid ts hc
    · exact hnone pid' ha
  · intro ending result he hy hsuccess
    cases hy with
    | principal s => cases hsuccess
    | results d status order hperm =>
      have hcomplete := h.complete d status he hsuccess
      have hts : (aggregateResults d order).timestamp = d.commitTimestamp := if_pos hsuccess
      rw [hts]
      refine ⟨?_, hcomplete.isUnion hperm⟩
      intro pid hp
      obtain ⟨s, hs⟩ := hcomplete.everyone pid hp
      exact ⟨s, (hcomplete.mem_iff pid s).mp hs⟩

/-- What partition 1 or 2 answers when it commits `pair`. -/
def committedPairStatus (pid : Nat) : TxnStatus :=
  { newStatus pair.id 3 .committed with
    actionStatus := some [(pid - 1, { id := pid - 1, code := .success })] }

/-- Both participants of `pair` prepare and commit. -/
def committedPair : List Input :=
  [.begin,
    .result 1 (.ok (newStatus pair.id 2 .prepared)),
    .result 2 (.ok (newStatus pair.id 3 .prepared)),
    .result 1 (.ok (newStatus pair.id 4 .decided)),
    .result 2 (.ok (committedPairStatus 2)),
    .result 1 (.ok (committedPairStatus 1))]

theorem coordinator_ordering_committedPair :
    ∃ p, runSteps (Process.step pair) {} committedPair = some p ∧
      let H := runHistory (Process.step pair) (Process.calls pair) {} committedPair
      let result := aggregateResults ⟨pair.id, true, 3⟩
        [(2, committedPairStatus 2), (1, committedPairStatus 1)]
      sents H = [.prepare 1, .prepare 2, .storeDecision ⟨pair.id, true, 3⟩, .commit 2 3,
        .commit 1 3] ∧
      CallsInTurn pair H ∧ IsUnion (answers H) 3 result.actionStatus := by
  have hmap : (runSteps (Process.step pair) {} committedPair).map Process.ending =
      some (some (.results ⟨pair.id, true, 3⟩
        [(2, committedPairStatus 2), (1, committedPairStatus 1)])) := by decide
  obtain ⟨p, hp, hending⟩ := Option.map_eq_some_iff.mp hmap
  obtain ⟨hturn, _, hsuccess⟩ := coordinator_ordering pair committedPair p hp
  have hunion := (hsuccess _ _ hending (.results _ _ _ (List.Perm.refl _)) rfl).2
  exact ⟨p, hp, by decide, hturn, hunion⟩

end Scout.TwoPhase
