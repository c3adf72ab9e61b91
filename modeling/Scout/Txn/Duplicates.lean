import Scout.Txn.Trace

/-!
Commands that are delivered again. Requests are retried after a lost answer or a
change of leader, so a command may come a second time, with another stamp, after
any other commands. Once it has been applied its record is in a state (`Done`)
that all later steps keep until the txn is forgotten, and in which the command
changes nothing.
-/

namespace Scout.Txn

open Data Mvcc Lib

/-- The same command as the writer stamps it at another time. The timestamp of a
commit is part of the request. -/
def Cmd.restamp (t : Nat) : Cmd → Cmd
  | .abort c => .abort { c with timestamp := t }
  | .markTimedout c => .markTimedout { c with timestamp := t }
  | .commit c => .commit c
  | .autocommit c => .autocommit { c with timestamp := t }
  | .prepare c => .prepare { c with timestamp := t }
  | .storeDecision c => .storeDecision { c with timestamp := t }

/-- `MarkTimedout` with `release_locks`. -/
def Cmd.releases : Cmd → Bool
  | .markTimedout c => c.releaseLocks
  | _ => false

/-- The states in which the command no longer moves the status. -/
def Cmd.spent : Cmd → State → Bool
  | .autocommit _, _ => true
  | .prepare _, _ => true
  | .storeDecision _, s => s != .prepared
  | .commit _, s => s.isFinal
  | .abort _, s => s.isFinal
  | .markTimedout _, s => s.isFinal

@[simp] theorem restamp_id (t : Nat) (c : Cmd) : (c.restamp t).id = c.id := by cases c <;> rfl

@[simp] theorem restamp_releases (t : Nat) (c : Cmd) : (c.restamp t).releases = c.releases := by
  cases c <;> rfl

@[simp] theorem restamp_spent (t : Nat) (c : Cmd) : (c.restamp t).spent = c.spent := by
  cases c <;> rfl

variable {c : Cmd}

theorem spent_of_repeats {s : State} (h : c.repeats s = true) : c.spent s = true := by
  cases c <;> cases s <;> first | rfl | cases h

theorem StatusMove.spent {s t : State} {d : Cmd} (h : StatusMove (some s) d t)
    (hc : c.spent s = true) : c.spent t = true := by
  cases h <;> cases c <;> first | rfl | cases hc

structure Done (c : Cmd) (m : Manager) : Prop where
  status : ∃ s, m.status.lookup c.id = some s ∧ c.spent s.state = true
  released : c.releases = true →
    ∃ p, m.prepared.lookup c.id = some p ∧ p.locksReleased = true

/-! ## After the first time -/

variable {m : Manager} {st : TxnStatus}

theorem applyMarkTimedout_releases {c : MarkTimedout} {s : TxnStatus}
    (hs : m.status.lookup c.id = some s) (hst : s.state = .timedout) (hr : c.releaseLocks = true)
    (hok : (m.applyMarkTimedout c).2.result = .ok st) :
    ∃ p, (m.applyMarkTimedout c).1.prepared.lookup c.id = some p ∧ p.locksReleased = true := by
  cases hp : m.prepared.lookup c.id with
  | none =>
    simp only [Manager.applyMarkTimedout, hs, hp] at hok
    split at hok <;> cases hok
  | some p =>
    simp only [Manager.applyMarkTimedout, hs, hp, hst, hr] at hok ⊢
    split
    · rename_i hpid
      rw [if_pos hpid] at hok
      cases hok
    · exact ⟨p.releaseLocks, AList.lookup_insert _, rfl⟩

theorem Change.spent {db : Store} {m' : Manager} {o : Outcome} (h : Change db m c m' o)
    (hok : o.result = .ok st) (hst : st.state ≠ .failed) :
    ∃ s, m'.status.lookup c.id = some s ∧ c.spent s.state = true := by
  cases h with
  | idle c r hi =>
    cases hi with
    | missing => cases hok
    | refused => cases hok
    | repeated s hs hr => exact ⟨s, hs, spent_of_repeats hr⟩
    | failed s _ _ hf =>
      cases hok
      exact absurd hf hst
  | release c s p hs _ _ hto => exact ⟨s, hs, by rw [Cmd.spent, hto]; rfl⟩
  | _ => exact ⟨_, AList.lookup_insert _, rfl⟩

theorem applyCmd_done {db : Store} (hok : (m.applyCmd db c).2.result = .ok st)
    (hst : st.state ≠ .failed)
    (hrel : c.releases = true → ∃ s, m.status.lookup c.id = some s ∧ s.state = .timedout) :
    Done c (m.applyCmd db c).1 := by
  refine ⟨(applyCmd_change db m c).spent hok hst, ?_⟩
  intro hr
  cases c with
  | markTimedout c =>
    obtain ⟨s, hs, hto⟩ := hrel hr
    exact applyMarkTimedout_releases hs hto hr hok
  | _ => cases hr

/-! ## Until it comes again -/

theorem Done.step {x : MicroStep} (h : Done c x.before) (hx : x.Valid)
    (hk : x.forgets c.id = false) : Done c x.after where
  status := by
    obtain ⟨s, hs, hsp⟩ := h.status
    rcases hx.status c.id with he | ⟨d, o, s', _, _, hs', hmove⟩ | ⟨_, hforget⟩
    · exact ⟨s, he.trans hs, hsp⟩
    · rw [hs, Option.map_some] at hmove
      exact ⟨s', hs', hmove.spent hsp⟩
    · rw [hforget] at hk
      cases hk
  released := by
    intro hr
    obtain ⟨p, hp, hrel⟩ := h.released hr
    obtain ⟨q, hq, hstays⟩ := hx.entry_stays hp hk
    exact ⟨q, hq, hstays.released hrel⟩

/-- **A command that was applied changes nothing when it comes again.** -/
theorem Done.harmless (h : Done c m) (hm : Kept m) (db : Store) (t : Nat) :
    (∀ id, Agree (m.applyCmd db (c.restamp t)).1 m id) ∧
      (m.applyCmd db (c.restamp t)).2.writes = [] := by
  have hch := applyCmd_change db m (c.restamp t)
  obtain ⟨s, hs, hsp⟩ := h.status
  have hrel := h.released
  rw [← restamp_releases t, ← restamp_id t] at hrel
  rw [← restamp_id t] at hs
  rw [← restamp_spent t] at hsp
  generalize c.restamp t = c', (m.applyCmd db (c.restamp t)).1 = m',
    (m.applyCmd db (c.restamp t)).2 = o at hch hs hsp hrel
  cases hch with
  | idle => exact ⟨fun _ => ⟨rfl, rfl⟩, rfl⟩
  | autocommit c hn =>
    rw [Cmd.id, hn] at hs
    cases hs
  | prepare c hn =>
    rw [Cmd.id, hn] at hs
    cases hs
  | commit c s' p hs' hp hg =>
    rw [Cmd.id, hs'] at hs
    cases hs
    rw [Cmd.spent, (hg.le hm.coherent hs' hp).1] at hsp
    cases hsp
  | abort c s' p hs' hp hst =>
    rw [Cmd.id, hs'] at hs
    cases hs
    rw [Cmd.spent, hst] at hsp
    cases hsp
  | storeDecision c s' p hs' hp hpid hst =>
    rw [Cmd.id, hs'] at hs
    cases hs
    rw [Cmd.spent, hst] at hsp
    cases hsp
  | markTimedout c s' p hs' hp hpid hst =>
    rw [Cmd.id, hs'] at hs
    cases hs
    rw [Cmd.spent, hst] at hsp
    cases hsp
  | release c s' p hs' hp hpid hst hr =>
    -- the locks are gone already
    obtain ⟨q, hq, hqr⟩ := hrel hr
    rw [Cmd.id, hp] at hq
    cases hq
    have hsame : p.releaseLocks = p := by
      rw [Prepared.releaseLocks, ← (hm.plain _).no_locks p hp hqr, ← hqr]
    refine ⟨fun id => ⟨rfl, ?_⟩, rfl⟩
    by_cases hid : id = c.id
    · subst hid
      rw [hsame, AList.lookup_insert, hp]
    · rw [AList.lookup_insert_ne hid]

/-! ## Duplicates in a run -/

/-- `MarkTimedout` without `release_locks` was applied before, and the txn has not
been forgotten since: on the way `l`, or before it. -/
def MarkedFirst (m : Manager) (l : List MicroStep) (id : TxnId) : Prop :=
  ((∃ s, m.status.lookup id = some s ∧ s.state = .timedout) ∧ ∀ x ∈ l, x.forgets id = false) ∨
  ∃ l₁ w l₂ c o st, l = l₁ ++ w :: l₂ ∧ w.exec = some (.markTimedout c, o) ∧ c.id = id ∧
    c.releaseLocks = false ∧ o.result = .ok st ∧ ∀ x ∈ w :: l₂, x.forgets id = false

theorem Linked.timedout_stays {l : List MicroStep} (h : Linked m l) {id : TxnId}
    (hm : ∃ s, m.status.lookup id = some s ∧ s.state = .timedout)
    (hk : ∀ x ∈ l, x.forgets id = false) :
    ∃ s, (endState m l).status.lookup id = some s ∧ s.state = .timedout := by
  refine h.invariant (fun m => ∃ s, m.status.lookup id = some s ∧ s.state = .timedout) hm ?_
  rintro x hx hv ⟨s, hs, hst⟩
  exact ⟨s, hv.final_stays hs (by rw [hst]; rfl) (hk x hx), hst⟩

theorem Change.timedout {db : Store} {m' : Manager} {c : MarkTimedout} {o : Outcome}
    (h : Change db m (.markTimedout c) m' o) (hok : o.result = .ok st) :
    ∃ s, m'.status.lookup c.id = some s ∧ s.state = .timedout := by
  cases h with
  | idle _ r hi =>
    cases hi with
    | missing => cases hok
    | refused => cases hok
    | repeated s hs hr => exact ⟨s, hs, beq_iff_eq.mp hr⟩
    | failed s hnew => cases hnew
  | markTimedout => exact ⟨_, AList.lookup_insert _, rfl⟩
  | release _ s p hs _ _ hst => exact ⟨s, hs, hst⟩

theorem MarkedFirst.timedout {l : List MicroStep} {id : TxnId} (h : MarkedFirst m l id)
    (hl : Linked m l) : ∃ s, (endState m l).status.lookup id = some s ∧ s.state = .timedout := by
  rcases h with ⟨hm, hk⟩ | ⟨l₁, w, l₂, c, o, st, rfl, hw, rfl, _, hok, hk⟩
  · exact hl.timedout_stays hm hk
  obtain ⟨_, _, hv, hl₂⟩ := linked_append.mp hl
  have hafter : ∃ s, w.after.status.lookup c.id = some s ∧ s.state = .timedout := by
    cases hv with
    | cmd db m' c' hm' =>
      obtain ⟨rfl, rfl⟩ := hw
      exact (applyCmd_change db m' _).timedout hok
    | tail => cases hw
  have hend := hl₂.timedout_stays hafter (fun x hx => hk x (by simp [hx]))
  rw [endState_append]
  exact hend

/-- **Duplicates are harmless.** A command was applied in step `x` of a run and
returned a status that is not `Failed`; in a later step `y`, before the txn is
forgotten, it comes again. Then `y` changes no record, and the store ends with
what the other steps wrote. -/
theorem duplicate_harmless {pid : Nat} {s : Manager × Store} (hs : Reachable pid s.1)
    (es : List Entry) {l mid r : List MicroStep} {x y : MicroStep}
    (hrun : logTrace s es = l ++ x :: (mid ++ y :: r)) {c : Cmd} {t : Nat} {o o' : Outcome}
    (hx : x.exec = some (c, o)) (hy : y.exec = some (c.restamp t, o'))
    {st : TxnStatus} (hok : o.result = .ok st) (hst : st.state ≠ .failed)
    (hkeep : ∀ z ∈ x :: mid, z.forgets c.id = false)
    (hfirst : c.releases = true → MarkedFirst s.1 l c.id) : (∀ id, Agree y.after y.before id) ∧
    (applyLog s es).1.2.records = overwriteAll Record.address Record.timestamp s.2.records
      ((l ++ x :: (mid ++ r)).flatMap MicroStep.writes) := by
  have hl := (logTrace_linked hs.sound.kept es).1
  rw [hrun, linked_append] at hl
  obtain ⟨hl₁, hxb, hxv, hl₂⟩ := hl
  obtain ⟨hmid, hyb, hyv, _⟩ := linked_append.mp hl₂
  have hdone : Done c x.after := by
    have hto : c.releases = true → ∃ s, x.before.status.lookup c.id = some s ∧
        s.state = .timedout := by
      intro hr
      rw [hxb]
      exact (hfirst hr).timedout hl₁
    cases hxv with
    | cmd db m c' hm =>
      obtain ⟨rfl, rfl⟩ := hx
      exact applyCmd_done hok hst hto
    | tail => cases hx
  have hdone' : Done c y.before := by
    rw [hyb]
    exact hmid.invariant (Done c) hdone
      (fun z hz hv h => h.step hv (hkeep z (by simp [hz])))
  have hharm : (∀ id, Agree y.after y.before id) ∧ o'.writes = [] := by
    cases hyv with
    | cmd db m c' hm =>
      obtain ⟨rfl, rfl⟩ := hy
      exact hdone'.harmless hm db t
    | tail => cases hy
  refine ⟨hharm.1, ?_⟩
  have hw : y.writes = [] := by
    rw [MicroStep.writes, hy]
    exact hharm.2
  rw [applyLog_records, ← logTrace_writes, hrun]
  simp only [List.flatMap_append, List.flatMap_cons, hw, List.nil_append]

/-- The commit of `repeatedCommit` that comes in a later batch. -/
theorem duplicate_harmless_repeatedCommit :
    let s := (applyLog (newPartition 1 0) (repeatedCommit.take 2)).1
    s.1.isCommitted ⟨1, 1, 1⟩ = true ∧
    ∀ id, Agree (s.1.applyCmd s.2 (.commit ⟨3, ⟨1, 1, 1⟩⟩)).1 s.1 id := by
  have hs : Reachable 1 (newPartition 1 0).1 := .new 0
  have hrun : logTrace (newPartition 1 0) repeatedCommit =
      [_, _] ++ _ :: ([_, _] ++ _ :: [_]) := rfl
  exact ⟨by decide, (duplicate_harmless (t := 0) hs repeatedCommit hrun rfl rfl rfl (by decide)
    (by decide) (fun h => by cases h)).1⟩

end Scout.Txn
