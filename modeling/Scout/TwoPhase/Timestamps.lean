import Scout.TwoPhase.Agreement
import Scout.Txn.Trace

/-!
The commit timestamp of a txn. The coordinator sends one decision; every `Commit`,
whether it comes from the coordinator or from a resolver of the watchdog, is sent
after the principal has stored that decision and carries its timestamp. This holds
in every run, also in those in which the participants do not agree on the outcome.
-/

namespace Scout.TwoPhase

open Data Mvcc Txn Lib

/-! ## Histories of all partitions -/

/-- The micro-steps of all partitions, each with the partition that takes it. -/
abbrev Trace := List (Nat × MicroStep)

def System.observe (t : MultiTxn) (s : System) : Step → Trace
  | .apply pid e => (entryTrace (s.partition t pid) e).map (Prod.mk pid)
  | .begin | .coordinator _ _ | .watchdog _ | .resolution _ _ _ => []

def Stored (t : MultiTxn) (H : Trace) (d : Decision) : Prop :=
  ∃ x, (t.principal, x) ∈ H ∧ x.Stores t.id d

variable {t : MultiTxn} {H : Trace} {H' : Trace}

theorem Stored.mono {d : Decision} (h : Stored t H d) (hH : ∀ x ∈ H, x ∈ H') : Stored t H' d := by
  obtain ⟨x, hx, hs⟩ := h
  exact ⟨x, hH _ hx, hs⟩

/-! ## Requests -/

/-- What a request rests on, the decision itself apart. -/
def RestsOn (t : MultiTxn) (H : Trace) : Request → Prop
  | .commit _ ts => ∃ d, Stored t H d ∧ ts = d.commitTimestamp
  | .storeDecision _ => False
  | _ => True

structure Requested (t : MultiTxn) (H : Trace) (requests : List Request) : Prop where
  unique : ∀ d d', .storeDecision d ∈ requests → .storeDecision d' ∈ requests → d = d'
  stored : ∀ d, Stored t H d → .storeDecision d ∈ requests
  commits : ∀ p ts, .commit p ts ∈ requests → ∃ d, Stored t H d ∧ ts = d.commitTimestamp

namespace Requested

variable {t : MultiTxn} {H H' : Trace} {requests sends : List Request} {d : Decision}

theorem send (h : Requested t H requests) (hs : ∀ q ∈ sends, RestsOn t H q) :
    Requested t H (requests ++ sends) where
  unique := by
    have old : ∀ d, .storeDecision d ∈ requests ++ sends → .storeDecision d ∈ requests := by
      intro d hd
      exact (List.mem_append.mp hd).resolve_right fun k => hs _ k
    intro d d' hd hd'
    exact h.unique d d' (old d hd) (old d' hd')
  stored := fun d hd => List.mem_append.mpr (.inl (h.stored d hd))
  commits := by
    intro p ts hq
    rcases List.mem_append.mp hq with hq | hq
    · exact h.commits p ts hq
    · exact hs _ hq

theorem decide (h : Requested t H requests) (hno : ¬Sent requests) :
    Requested t H (requests ++ [.storeDecision d]) where
  unique := by
    have new : ∀ d', .storeDecision d' ∈ requests ++ [Request.storeDecision d] → d' = d := by
      intro d' hd'
      rcases List.mem_append.mp hd' with hd' | hd'
      · exact absurd ⟨d', hd'⟩ hno
      · cases List.mem_singleton.mp hd'
        rfl
    intro d₁ d₂ h₁ h₂
    rw [new d₁ h₁, new d₂ h₂]
  stored := fun d hd => List.mem_append.mpr (.inl (h.stored d hd))
  commits := fun p ts hq => h.commits p ts (by simpa using hq)

theorem grow (h : Requested t H requests) (hH : ∀ x ∈ H, x ∈ H')
    (hnew : ∀ d, Stored t H' d → Stored t H d ∨ .storeDecision d ∈ requests) :
    Requested t H' requests where
  unique := h.unique
  stored := fun d hd => (hnew d hd).elim (h.stored d) id
  commits := by
    intro p ts hq
    obtain ⟨d, hd, hts⟩ := h.commits p ts hq
    exact ⟨d, hd.mono hH, hts⟩

end Requested

/-! ## The coordinator -/

def PhaseKnows (t : MultiTxn) (H : Trace) (requests : List Request) (c : Coordinator) : Prop :=
  match c.phase with
  | .start | .preparePrincipal | .prepare => ¬Sent requests
  | .commit d | .commitPrincipal d => Stored t H d
  | _ => True

variable {requests : List Request} {c : Coordinator}

theorem PhaseKnows.send {sends : List Request} (h : PhaseKnows t H requests c)
    (hs : ∀ q ∈ sends, RestsOn t H q) : PhaseKnows t H (requests ++ sends) c := by
  have unsent : ¬Sent requests → ¬Sent (requests ++ sends) := by
    intro hno hsent
    rcases sent_append.mp hsent with k | ⟨d, hd⟩
    · exact hno k
    · exact hs _ hd
  unfold PhaseKnows at h ⊢
  cases hc : c.phase <;> rw [hc] at h <;> first
    | exact h
    | exact unsent h

theorem PhaseKnows.mono (h : PhaseKnows t H requests c) (hH : ∀ x ∈ H, x ∈ H') :
    PhaseKnows t H' requests c := by
  unfold PhaseKnows at h ⊢
  cases hc : c.phase <;> rw [hc] at h <;> first
    | exact h
    | exact h.mono hH

/-- **Step** of the coordinator. An answer `Decided` means that the decision is
stored. -/
theorem Requested.moves {sends : List Request} {c' : Coordinator} {r : BatchResult}
    (h : Requested t H requests) (hph : PhaseKnows t H requests c) (hm : Moves t c r c' sends)
    (hr : ∀ d, c.phase = .storeDecision d → isState .decided r = true → Stored t H d) :
    Requested t H (requests ++ sends) ∧ PhaseKnows t H (requests ++ sends) c' := by
  -- no decision is sent by a move that sends only prepares
  have unsent : ∀ qs : List Request, ¬Sent requests → (∀ d, .storeDecision d ∉ qs) →
      ¬Sent (requests ++ qs) := by
    intro qs hno hqs hsent
    rcases sent_append.mp hsent with k | ⟨d, hd⟩
    · exact hno k
    · exact hqs d hd
  unfold PhaseKnows at hph ⊢
  cases hm with
  | returned hp hc => exact ⟨h.send (by simp), by rw [hp]; trivial⟩
  | collect hp hc =>
    refine ⟨h.send (by simp), ?_⟩
    rw [hp, List.append_nil]
    exact hph
  | prepare hq hp hc =>
    rw [hq] at hph
    refine ⟨h.send (by simp [RestsOn]), ?_⟩
    rw [hp]
    exact unsent _ hph (by simp)
  | decided d hq hp hc =>
    rw [hq] at hph
    exact ⟨h.decide hph, by rw [hp]; trivial⟩
  | abort cause _ hq hp hc hs =>
    refine ⟨h.send ?_, ?_⟩
    · intro q hqs
      obtain ⟨pid, rfl⟩ := hs q hqs
      trivial
    · rcases hp with hp | hp <;> rw [hp] <;> trivial
  | commit d hq hd hp hc =>
    have hst := hr d hq hd
    refine ⟨h.send ?_, by rw [hp]; exact hst⟩
    intro q hqs
    obtain ⟨pid, _, rfl⟩ := List.mem_map.mp hqs
    exact ⟨d, hst, rfl⟩
  | commitPrincipal d hq hp hc =>
    rw [hq] at hph
    refine ⟨h.send ?_, by rw [hp]; exact hph⟩
    intro q hqs
    rw [List.mem_singleton.mp hqs]
    exact ⟨d, hph, rfl⟩
  | abortPrincipal hq hp hc =>
    refine ⟨h.send ?_, by rw [hp]; trivial⟩
    intro q hqs
    rw [List.mem_singleton.mp hqs]
    trivial

/-! ## The watchdog and its resolvers -/

/-- The decisions that the principal's leader works with are stored. -/
structure Knows (t : MultiTxn) (H : Trace) (l : Leader) : Prop where
  entry : ∀ p d, l.state.1.prepared.lookup t.id = some p → p.decision = some d → Stored t H d
  records : l.Records fun r => r.id = t.id → r.state = .decided → ∀ d, r.decision = some d →
    Stored t H d
  decided : ∀ r ∈ l.dog.decided, r.state = .decided

theorem Knows.mono {l : Leader} (h : Knows t H l) (hH : ∀ x ∈ H, x ∈ H') : Knows t H' l :=
  ⟨fun p d hp hd => (h.entry p d hp hd).mono hH,
    fun r hr hid hst d hd => (h.records r hr hid hst d hd).mono hH, h.decided⟩

/-- A resolver that commits knows the stored decision. -/
def Deciding (t : MultiTxn) (H : Trace) (kind : Resolver) (txn : Running) : Prop :=
  kind = .commit → ∃ d, txn.decision = some d ∧ Stored t H d

theorem sends_restsOn {w : Resolution} {q : Request} (h : w.Sends (Deciding t H) q) :
    RestsOn t H q := by
  rcases h with ⟨b, rfl⟩ | ⟨pid, rfl, hg⟩
  · trivial
  unfold Resolution.call
  cases hk : w.kind with
  | abort => trivial
  | commit =>
    obtain ⟨d, hd, hst⟩ := hg hk
    exact ⟨d, hst, by simp [hd]⟩

theorem getRunning_decision {m : Manager} {r : Running} (h : r ∈ m.getRunning) :
    ∃ p, m.prepared.lookup r.id = some p ∧ p.decision = r.decision := by
  obtain ⟨e, he, hr⟩ := List.mem_filterMap.mp h
  split at hr
  · cases hr
  · obtain ⟨s, hs, rfl⟩ := Option.map_eq_some_iff.mp hr
    exact ⟨e.2, (mem_entries_iff _ _ _).mp he, rfl⟩

/-- **Step** of the watchdog, with what it hands to `commit`. -/
theorem Knows.between {l : Leader} (times : Timeouts) (h : Knows t H l) (e : LeaderEvent)
    (hne : ∀ entry, e ≠ .applied entry) : Knows t H (l.step times e).1 ∧
      ∀ r, (.commit, r) ∈ (l.step times e).2 → r.id = t.id → ∀ d, r.decision = some d →
        Stored t H d := by
  obtain ⟨h1, _⟩ := h.records.between times e hne fun r hr hid _ d hd => by
    obtain ⟨p, hp, hpd⟩ := getRunning_decision hr
    exact h.entry p d (hid ▸ hp) (hpd.trans hd)
  obtain ⟨hdec, hout⟩ := leader_between_decided times h.decided e hne
  refine ⟨⟨?_, h1, hdec⟩, ?_⟩
  · rw [(leader_between_state times l e hne).1]
    exact h.entry
  · intro r hr hid
    have hq := hout r hr
    exact h.records r (.inr (.inr hq)) hid (h.decided r hq)

/-! ## A batch at one partition -/

theorem storeDecision_answer {db : Store} {m m' : Manager} {c : StoreDecision} {o : Outcome}
    {st : TxnStatus} (h : Change db m (.storeDecision c) m' o) (hok : o.result = .ok st) :
    m'.status.lookup c.decision.id = some st := by
  cases h with
  | idle _ r hi =>
    cases hi with
    | missing => cases hok
    | refused => cases hok
    | repeated s hs =>
      cases hok
      exact hs
    | failed _ hnew => cases hnew
  | storeDecision =>
    cases hok
    exact AList.lookup_insert _

section Batch

variable {t : MultiTxn} {H : Trace} {requests : List Request} {pid : Nat} {p : Manager × Store}
  {e : Entry} {d : Decision}

theorem stores_backed (hback : Backed t requests pid (batchCmds e.batch)) {x : MicroStep}
    (hx : x ∈ entryTrace p e) (hs : x.Stores t.id d) :
    pid = t.principal ∧ .storeDecision d ∈ requests := by
  obtain ⟨c, o, _, _, hexec, rfl, hid, _⟩ := hs
  obtain ⟨q, hq, hcarried⟩ := hback _ (mem_entryTrace hx hexec) hid
  have htarget := carriedOut_target hcarried
  rw [carriedOut_storeDecision hcarried] at hq htarget
  exact ⟨htarget.symm, hq⟩

theorem stored_append (hback : Backed t requests pid (batchCmds e.batch))
    (hs : Stored t (H ++ (entryTrace p e).map (Prod.mk pid)) d) :
    Stored t H d ∨ .storeDecision d ∈ requests := by
  obtain ⟨x, hx, hst⟩ := hs
  rcases List.mem_append.mp hx with hx | hx
  · exact .inl ⟨x, hx, hst⟩
  · obtain ⟨y, hy, he⟩ := List.mem_map.mp hx
    cases he
    exact .inr (stores_backed hback hy hst).2

theorem kept_stored (hkept : Kept p.1)
    (hentry : pid = t.principal → ∀ x d, p.1.prepared.lookup t.id = some x →
      x.decision = some d → Stored t H d) {l r : List MicroStep} (hl : entryTrace p e = l ++ r)
    (hp : pid = t.principal) {x : Prepared} (hx : (endState p.1 l).prepared.lookup t.id = some x)
    (hd : x.decision = some d) : Stored t (H ++ (entryTrace p e).map (Prod.mk pid)) d := by
  have hlink := (entryTrace_linked hkept e).1
  rw [hl, linked_append] at hlink
  rcases hlink.1.decision_source hx hd with ⟨y, hy, hyd⟩ | ⟨y, hy, hst⟩
  · exact (hentry hp y d hy hyd).mono fun z hz => List.mem_append.mpr (.inl hz)
  · refine ⟨y, List.mem_append.mpr (.inr (List.mem_map.mpr ⟨y, ?_, by rw [hp]⟩)), hst⟩
    rw [hl]
    exact List.mem_append.mpr (.inl hy)

/-- **An answer `Decided` means that the decision is stored.** -/
theorem decided_stored (h : Requested t H requests) (hkept : Kept p.1)
    (hback : Backed t requests pid (batchCmds e.batch))
    (hentry : pid = t.principal → ∀ x d, p.1.prepared.lookup t.id = some x →
      x.decision = some d → Stored t H d) {c : StoreDecision} {st : TxnStatus}
    (hmem : (.storeDecision c, .ok st) ∈ (batchCmds e.batch).zip (applyEntry p e).2.all)
    (hid : c.decision.id = t.id) (hst : st.state = .decided) :
    Stored t (H ++ (entryTrace p e).map (Prod.mk pid)) c.decision := by
  obtain ⟨pre, post, hcs, hres⟩ := mem_applyEntry_zip hmem
  obtain ⟨q, hq, hcarried⟩ := hback (.storeDecision c) (by rw [hcs]; simp) hid
  have hp := carriedOut_target hcarried
  rw [carriedOut_storeDecision hcarried] at hq hp
  -- after the command the txn is decided, so its entry has a decision
  have hk := hkept.runCmds p.2 (pre ++ [.storeDecision c])
  have hstatus : (p.1.runCmds p.2 (pre ++ [.storeDecision c])).1.status.lookup t.id = some st := by
    rw [runCmds_append, ← hid]
    exact storeDecision_answer (applyCmd_change p.2 _ (.storeDecision c)) hres.symm
  obtain ⟨x, hx⟩ := (hk.coherent.record t.id).has_entry st hstatus (by rw [hst]; rfl)
  obtain ⟨d, hd, _⟩ := (hk.coherent.record t.id).decided_ts x st hx hstatus hst
  have htrace : entryTrace p e = cmdTrace p.2 p.1 (pre ++ [.storeDecision c]) ++
      (cmdTrace p.2 (p.1.runCmds p.2 (pre ++ [.storeDecision c])).1 post ++
        [⟨(p.1.runCmds p.2 (batchCmds e.batch)).1, (applyEntry p e).1.1, none⟩]) := by
    rw [entryTrace, hcs, ← List.append_assoc, ← cmdTrace_append, List.append_assoc]
    rfl
  rw [← (cmdTrace_linked hkept p.2 (pre ++ [Cmd.storeDecision c])).2] at hx
  have hstored := kept_stored hkept hentry htrace hp.symm hx hd
  -- and that is the only one that was sent
  have hsent : .storeDecision d ∈ requests := (stored_append hback hstored).elim (h.stored d) id
  rw [h.unique _ _ hq hsent]
  exact hstored

/-- **Every commit of the batch rests on a stored decision.** -/
theorem commits_stored (h : Requested t H requests) (hkept : Kept p.1)
    (hback : Backed t requests pid (batchCmds e.batch)) {x : MicroStep}
    (hx : x ∈ entryTrace p e) (he : x.enters t.id = true) :
    ∃ c q d, CommitsAt x t.id c q ∧ Stored t H d ∧ c.timestamp = d.commitTimestamp := by
  rcases ((entryTrace_linked hkept e).1.valid x hx).commitsAt he with
    ⟨c, o, hexec, hid⟩ | ⟨c, q, hc⟩
  · -- no request is carried out by an autocommit
    obtain ⟨_, _, hcarried⟩ := hback _ (mem_entryTrace hx hexec) hid
    cases hcarried
  · obtain ⟨o, hexec⟩ := hc.exec
    obtain ⟨_, hq, hcarried⟩ := hback _ (mem_entryTrace hx hexec) hc.id_eq
    cases hcarried
    obtain ⟨d, hd, hts⟩ := h.commits _ _ hq
    exact ⟨c, q, d, hc, hd, hts⟩

end Batch

/-! ## The system -/

/-- Every commit in the history rests on a decision that was stored before it. -/
def CommitsGrounded (t : MultiTxn) (H : Trace) : Prop :=
  ∀ l pid x r, H = l ++ (pid, x) :: r → x.enters t.id = true →
    ∃ c p d, CommitsAt x t.id c p ∧ Stored t l d ∧ c.timestamp = d.commitTimestamp

structure OneDecision (t : MultiTxn) (s : System) (H : Trace) : Prop where
  kept : ∀ p, Kept (s.partition t p).1
  ids : StatusIds s.principal.state.1
  requested : Requested t H s.requests
  phase : PhaseKnows t H s.requests s.coordinator
  answers : ∀ d st, (.storeDecision d, .ok st) ∈ s.responses → st.state = .decided → Stored t H d
  knows : Knows t H s.principal
  resolutions : ∀ w ∈ s.resolutions, w.Acts (Deciding t H)
  grounded : CommitsGrounded t H

theorem oneDecision_initial (t : MultiTxn) (cleanAfter : Int) :
    OneDecision t (System.initial t cleanAfter) [] := by
  refine ⟨?_, ?_, ⟨?_, ?_, ?_⟩, ?_, ?_, ⟨?_, ?_, ?_⟩, ?_, ?_⟩
  · intro p
    rw [System.initial_partition]
    exact (sound_new p cleanAfter).kept
  · exact (sound_new t.principal cleanAfter).ids
  · intro d d' hd
    cases hd
  · rintro d ⟨x, hx, _⟩
    cases hx
  · intro p ts hq
    cases hq
  · rintro ⟨d, hd⟩
    cases hd
  · intro d st hq
    cases hq
  · intro p d hp
    cases hp
  · rintro r (hr | hr | hr) <;> cases hr
  · intro r hr
    cases hr
  · intro w hw
    cases hw
  · intro l pid x r hH
    simp at hH

namespace OneDecision

variable {t : MultiTxn} {times : Timeouts} {s : System} {H : Trace}

theorem begin {x : Coordinator × List Request} (h : OneDecision t s H)
    (hx : s.coordinator.begin t = some x) :
    OneDecision t { s with coordinator := x.1, requests := s.requests ++ x.2 } H := by
  have hph := h.phase
  unfold Coordinator.begin at hx
  split at hx
  · rename_i hs
    cases hx
    rw [PhaseKnows, hs] at hph
    refine ⟨h.kept, h.ids, h.requested.send (by simp [RestsOn]), ?_, h.answers, h.knows,
      h.resolutions, h.grounded⟩
    intro hsent
    rcases sent_append.mp hsent with k | ⟨d, hd⟩
    · exact hph k
    · simp at hd
  · cases hx

theorem coordinator {pid : Nat} {r : BatchResult} {q : Request} {x : Coordinator × List Request}
    (h : OneDecision t s H) (hq : s.coordinator.phase.call pid = some q)
    (hr : (q, r) ∈ s.responses ∨ r = .error .unavailable)
    (hx : s.coordinator.handle t pid r = some x) :
    OneDecision t { s with coordinator := x.1, requests := s.requests ++ x.2 } H := by
  obtain ⟨h1, h2⟩ := h.requested.moves h.phase (handle_moves hx) fun d hd hst => by
    rw [hd] at hq
    cases hq
    rcases hr with hr | rfl
    · cases r with
      | error e => cases hst
      | ok st => exact h.answers d st hr (beq_iff_eq.mp hst)
    · cases hst
  exact ⟨h.kept, h.ids, h1, h2, h.answers, h.knows, h.resolutions, h.grounded⟩

theorem apply (h : OneDecision t s H) {pid : Nat} {e : Entry}
    (hback : Backed t s.requests pid (batchCmds e.batch)) : OneDecision t (s.apply t times pid e)
      (H ++ (entryTrace (s.partition t pid) e).map (Prod.mk pid)) := by
  have hH : ∀ x ∈ H, x ∈ H ++ (entryTrace (s.partition t pid) e).map (Prod.mk pid) :=
    fun x hx => List.mem_append.mpr (.inl hx)
  have hentry : pid = t.principal → ∀ x d, (s.partition t pid).1.prepared.lookup t.id = some x →
      x.decision = some d → Stored t H d := by
    rintro rfl
    rw [System.partition_principal]
    exact h.knows.entry
  have hdecided := fun c st => @decided_stored t H s.requests pid (s.partition t pid) e
    h.requested (h.kept pid) hback hentry c st
  refine ⟨?_, ?_, h.requested.grow hH fun d hd => stored_append hback hd, ?_, ?_, ?_, ?_, ?_⟩
  · intro p
    rw [System.apply_partition]
    split
    · exact (h.kept pid).entry e
    · exact h.kept p
  · unfold System.apply
    split
    · exact h.ids.entry e
    · exact h.ids
  · exact h.phase.mono hH
  · intro d st hq hst
    rcases List.mem_append.mp hq with hq | hq
    · exact (h.answers d st hq hst).mono hH
    obtain ⟨⟨c, r⟩, hx, hq⟩ := List.mem_filterMap.mp hq
    obtain ⟨q, hcarried, he⟩ := Option.map_eq_some_iff.mp hq
    cases he
    obtain ⟨hzip, hid⟩ := List.mem_filter.mp hx
    cases c with
    | storeDecision c =>
      cases carriedOut_storeDecision hcarried
      exact hdecided c st hzip (of_decide_eq_true hid) hst
    | _ => exact (carriedOut_kind hcarried).elim
  · by_cases hp : pid = t.principal
    · subst hp
      have hknows : Knows t (H ++ (entryTrace s.principal.state e).map (Prod.mk t.principal))
          (s.principal.step times (.applied e)).1 := by
        rw [System.partition_principal] at hH hentry hdecided
        have hk := h.kept t.principal
        rw [System.partition_principal] at hk
        refine ⟨?_, ?_, h.knows.decided⟩
        · intro x d hx hd
          refine kept_stored hk hentry (List.append_nil _).symm rfl ?_ hd
          rw [(entryTrace_linked hk e).2]
          exact hx
        · rintro r (hr | hr) hid hst d hd
          · simp only [Leader.step, otherReports, List.mem_append] at hr
            rcases hr with (hr | hr) | ((hr | hr) | hr)
            · exact (h.knows.records r (.inl hr) hid hst d hd).mono hH
            · obtain ⟨_, _, _, _, _, rfl⟩ := mem_reports .prepare hr
              cases hd
            · obtain ⟨_, _, _, _, _, rfl⟩ := mem_reports .commit hr
              cases hd
            · obtain ⟨_, _, _, _, _, rfl⟩ := mem_reports .abort hr
              cases hd
            · obtain ⟨c, st, hz, _, _, rfl⟩ := mem_reports .storeDecision hr
              cases hd
              have hzip : (.storeDecision c, .ok st) ∈
                  (batchCmds e.batch).zip (applyEntry s.principal.state e).2.all := by
                simp only [applyEntry_zip, List.mem_append]
                exact .inr hz
              have hcid : st.id = c.decision.id := applyEntry_result_id h.ids hzip rfl
              exact hdecided c st hzip (hcid.symm.trans hid) hst
          · exact (h.knows.records r (.inr hr) hid hst d hd).mono hH
      rw [System.partition_principal]
      simpa only [System.apply, if_true] using hknows
    · simpa only [System.apply, hp, if_false] using h.knows.mono hH
  · intro w hw
    refine (h.resolutions w hw).mono fun k r hg hk => ?_
    obtain ⟨d, hd, hst⟩ := hg hk
    exact ⟨d, hd, hst.mono hH⟩
  · intro l pid' x r hl he
    rcases append_eq_split hl with ⟨r', hl⟩ | ⟨k, rfl, hk⟩
    · exact h.grounded l pid' x r' hl he
    have hx : (pid', x) ∈ (entryTrace (s.partition t pid) e).map (Prod.mk pid) := by
      rw [hk]
      simp
    obtain ⟨y, hy, heq⟩ := List.mem_map.mp hx
    cases heq
    obtain ⟨c, q, d, hc, hd, hts⟩ := commits_stored h.requested (h.kept pid) hback hy he
    exact ⟨c, q, d, hc, hd.mono fun z hz => List.mem_append.mpr (.inl hz), hts⟩

theorem watchdog (h : OneDecision t s H) {e : LeaderEvent} (hne : ∀ entry, e ≠ .applied entry) :
    OneDecision t (s.watch t times e) H := by
  have hpart := System.watch_partition t times s hne
  obtain ⟨hknows, hhand⟩ := h.knows.between times e hne
  have hspawn : ∀ y ∈ System.spawned t (s.principal.step times e).2,
      y.1.Acts (Deciding t H) ∧ ∀ q ∈ y.2, RestsOn t H q := by
    intro y hy
    obtain ⟨x, hx, rfl⟩ := List.mem_map.mp hy
    obtain ⟨hx, hid⟩ := List.mem_filter.mp hx
    have hs := @Resolution.start_acts (Deciding t H) x.1 x.2 fun hk hc _ => by
      cases hd : x.2.decision with
      | none =>
        rw [hd] at hc
        cases hc
      | some d => exact ⟨d, rfl, hhand x.2 (hk ▸ hx) (by simpa using hid) d hd⟩
    exact ⟨hs.1, fun q hq => sends_restsOn (hs.2 q hq)⟩
  have hnew : ∀ q ∈ (System.spawned t (s.principal.step times e).2).flatMap Prod.snd,
      RestsOn t H q := by
    intro q hq
    obtain ⟨y, hy, hq⟩ := List.mem_flatMap.mp hq
    exact (hspawn y hy).2 q hq
  refine ⟨?_, ?_, h.requested.send hnew, ?_, h.answers, hknows, ?_, h.grounded⟩
  · intro p
    rw [hpart]
    exact h.kept p
  · rw [← System.partition_principal t, hpart, System.partition_principal]
    exact h.ids
  · exact h.phase.send hnew
  · intro w hw
    rcases List.mem_append.mp hw with hw | hw
    · exact h.resolutions w hw
    · obtain ⟨y, hy, rfl⟩ := List.mem_map.mp hw
      exact (hspawn y hy).1

theorem resolution (h : OneDecision t s H) {i : Nat} {w : Resolution} {q : Request}
    {r : BatchResult} {x : Resolution × List Request} (hw : s.resolutions[i]? = some w)
    (hx : w.handle q r = some x) : OneDecision t
      { s with resolutions := s.resolutions.set i x.1, requests := s.requests ++ x.2 } H := by
  obtain ⟨h1, h2⟩ := Resolution.handle_acts (h.resolutions w (List.mem_of_getElem? hw)) hx
    fun _ _ _ hk => by cases hk
  have hnew : ∀ q ∈ x.2, RestsOn t H q := fun q hq => sends_restsOn (h2 q hq)
  refine ⟨h.kept, h.ids, h.requested.send hnew, h.phase.send hnew, h.answers, h.knows, ?_,
    h.grounded⟩
  intro w' hw'
  rcases List.mem_or_eq_of_mem_set hw' with hw' | rfl
  · exact h.resolutions w' hw'
  · exact h1

/-- **Every step keeps the invariant.** -/
theorem step {s' : System} {a : Step} (h : OneDecision t s H)
    (hs : s.step t times a = some s') : OneDecision t s' (H ++ s.observe t a) := by
  cases System.step_moves hs with
  | begin x hx =>
    rw [System.observe, List.append_nil]
    exact h.begin hx
  | coordinator pid r q x hq hr hx =>
    rw [System.observe, List.append_nil]
    exact h.coordinator hq hr hx
  | apply pid e hback => exact h.apply hback
  | watchdog e hne =>
    rw [System.observe, List.append_nil]
    exact h.watchdog hne
  | resolution i q r w x hw _ hx =>
    rw [System.observe, List.append_nil]
    exact h.resolution hw hx

end OneDecision

/-! ## One commit timestamp -/

/-- **One commit timestamp.** In every run, each commit of the txn at a participant
is at the timestamp of a decision that the principal had stored before, and not
before the prepare timestamp of the participant; the principal stores no other
decision, so all commits are at one timestamp. -/
theorem one_commit_timestamp (t : MultiTxn) (times : Timeouts) (cleanAfter : Int)
    (steps : List Step) (s : System)
    (hrun : runSteps (System.step t times) (System.initial t cleanAfter) steps = some s) :
    let H := runHistory (System.step t times) (System.observe t) (System.initial t cleanAfter) steps
    (∀ l pid x r, H = l ++ (pid, x) :: r → x.enters t.id = true →
      ∃ st p d, x.after.status.lookup t.id = some st ∧ x.before.prepared.lookup t.id = some p ∧
        p.timestamp ≤ st.timestamp ∧ Stored t l d ∧ st.timestamp = d.commitTimestamp) ∧
    (∀ d d', Stored t H d → Stored t H d' → d = d') ∧
    ∀ pid x pid' x' st st', (pid, x) ∈ H → (pid', x') ∈ H →
      x.enters t.id = true → x'.enters t.id = true →
      x.after.status.lookup t.id = some st → x'.after.status.lookup t.id = some st' →
      st.timestamp = st'.timestamp := by
  intro H
  have h : OneDecision t s ([] ++ H) := runSteps_history (System.step t times) (System.observe t)
    (OneDecision t) (fun s a s' H h hs => h.step hs) (oneDecision_initial t cleanAfter) hrun
  rw [List.nil_append] at h
  have hunique : ∀ d d', Stored t H d → Stored t H d' → d = d' := fun d d' hd hd' =>
    h.requested.unique d d' (h.requested.stored d hd) (h.requested.stored d' hd')
  have hcommit : ∀ l pid x r, H = l ++ (pid, x) :: r → x.enters t.id = true →
      ∃ st p d, x.after.status.lookup t.id = some st ∧ x.before.prepared.lookup t.id = some p ∧
        p.timestamp ≤ st.timestamp ∧ Stored t l d ∧ st.timestamp = d.commitTimestamp := by
    intro l pid x r hl he
    obtain ⟨c, p, d, hc, hd, hts⟩ := h.grounded l pid x r hl he
    exact ⟨_, p, d, hc.status, hc.entry, hc.le, hd, hts⟩
  refine ⟨hcommit, hunique, ?_⟩
  intro pid x pid' x' st st' hx hx' he he' hst hst'
  obtain ⟨l, r, hl⟩ := List.append_of_mem hx
  obtain ⟨l', r', hl'⟩ := List.append_of_mem hx'
  obtain ⟨st₁, _, d, h₁, _, _, hd, hts⟩ := hcommit l pid x r hl he
  obtain ⟨st₂, _, d', h₂, _, _, hd', hts'⟩ := hcommit l' pid' x' r' hl' he'
  cases h₁.symm.trans hst
  cases h₂.symm.trans hst'
  rw [hts, hts', hunique d d' (hd.mono fun z hz => by rw [hl]; simp [hz])
    (hd'.mono fun z hz => by rw [hl']; simp [hz])]

theorem one_commit_timestamp_commitPair :
    ∃ s, runSteps (System.step pair ⟨5, 5⟩) (System.initial pair 0) commitPair = some s ∧
      let H := runHistory (System.step pair ⟨5, 5⟩) (System.observe pair) (System.initial pair 0)
        commitPair
      (H.any fun y => y.1 == 2 && y.2.enters pair.id) = true ∧
      ∀ d d', Stored pair H d → Stored pair H d' → d = d' := by
  have hmap : (runSteps (System.step pair ⟨5, 5⟩) (System.initial pair 0) commitPair).map
      System.reported =
      some [(1, .prepared), (2, .prepared), (1, .decided), (2, .committed)] := by decide
  obtain ⟨s, hs, _⟩ := Option.map_eq_some_iff.mp hmap
  exact ⟨s, hs, by decide, (one_commit_timestamp pair ⟨5, 5⟩ 0 commitPair s hs).2.1⟩

end Scout.TwoPhase
