import Scout.Txn.Manager

/-!
What one command can do to the `Manager`. `Change` lists every effect with the
guards under which the source takes it; `applyCmd_change` says that there is no
other. All invariants below go by cases on `Change` and never unfold a command.
-/

namespace Scout.Txn

open Data Mvcc Lib

/-- The recorded states that a repeated command answers with. -/
def Cmd.repeats : Cmd → State → Bool
  | .abort _, s => s == .aborted || s == .timedout
  | .markTimedout _, s => s == .timedout
  | .commit _, s => s == .committed
  | .autocommit _, s => s == .committed || s == .failed
  | .prepare _, s => s == .prepared || s == .failed
  | .storeDecision _, s => s == .decided || s == .timedout

/-- Whether the command brings a new txn, to be locked and validated. -/
def Cmd.isNew : Cmd → Bool
  | .autocommit _ | .prepare _ => true
  | _ => false

/-- Answers of a command that changes nothing. -/
inductive Idle (m : Manager) (c : Cmd) : BatchResult → Prop
  | missing (h : c.isNew = false)
      (hm : m.status.lookup c.id = none ∨ m.prepared.lookup c.id = none) :
      Idle m c (.error .notFound)
  | refused (e : Err) (s : TxnStatus) (hs : m.status.lookup c.id = some s)
      (he : e ≠ .notFound) : Idle m c (.error e)
  | repeated (s : TxnStatus) (hs : m.status.lookup c.id = some s)
      (hr : c.repeats s.state = true) : Idle m c (.ok s)
  | failed (s : TxnStatus) (h : c.isNew = true) (hn : m.status.lookup c.id = none)
      (hf : s.state = .failed) (hid : s.id = c.id) : Idle m c (.ok s)

/-- A txn in state `s` with entry `p` accepts a commit at `t`. -/
def CommitGuard (s : TxnStatus) (p : Prepared) (t : Nat) : Prop :=
  (s.state = .prepared ∧ s.timestamp ≤ t) ∨
    (s.state = .decided ∧ t = (p.decision.map Decision.commitTimestamp).getD 0)

def committedStatus (c : Commit) (p : Prepared) : TxnStatus :=
  { newStatus c.id c.timestamp .committed with participantPids := p.txn.participantPids }

inductive Change (db : Reads) (m : Manager) : Cmd → Manager → Outcome → Prop
  | idle (c : Cmd) (r : BatchResult) (h : Idle m c r) : Change db m c m { result := r }
  | autocommit (c : Autocommit) (hn : m.status.lookup c.txn.id = none)
      (hl : m.checkLocks c.txn.id c.timestamp c.txn.buildLocks = none)
      (hv : validate db c.txn.id c.timestamp c.txn = none) :
      Change db m (.autocommit c)
        { m with status := m.status.insert c.txn.id (newStatus c.txn.id c.timestamp .committed) }
        { result := .ok (newStatus c.txn.id c.timestamp .committed),
          writes := buildWriteRecords c.timestamp c.txn }
  | prepare (c : Prepare) (hn : m.status.lookup c.txn.id = none)
      (hl : m.checkLocks c.txn.id c.timestamp c.txn.buildLocks = none)
      (hv : validate db c.txn.id c.timestamp c.txn = none) :
      Change db m (.prepare c)
        { m with
          status := m.status.insert c.txn.id (newStatus c.txn.id c.timestamp .prepared),
          prepared := m.prepared.insert c.txn.id
            { txn := c.txn, timestamp := c.timestamp, locks := c.txn.buildLocks } }
        { result := .ok (newStatus c.txn.id c.timestamp .prepared) }
  | commit (c : Commit) (s : TxnStatus) (p : Prepared) (hs : m.status.lookup c.id = some s)
      (hp : m.prepared.lookup c.id = some p) (hg : CommitGuard s p c.timestamp) :
      Change db m (.commit c)
        { m with status := m.status.insert c.id (committedStatus c p) }
        { result := .ok (committedStatus c p), writes := buildWriteRecords c.timestamp p.txn,
          completion := some c.id }
  | abort (c : Abort) (s : TxnStatus) (p : Prepared) (hs : m.status.lookup c.id = some s)
      (hp : m.prepared.lookup c.id = some p) (hst : s.state = .prepared) :
      Change db m (.abort c)
        { m with
          status := m.status.insert c.id (newStatus c.id c.timestamp .aborted),
          prepared := m.prepared.insert c.id p.releaseLocks }
        { result := .ok (newStatus c.id c.timestamp .aborted) }
  | storeDecision (c : StoreDecision) (s : TxnStatus) (p : Prepared)
      (hs : m.status.lookup c.decision.id = some s)
      (hp : m.prepared.lookup c.decision.id = some p)
      (hpid : c.decision.id.principalPid = m.pid) (hst : s.state = .prepared)
      (ht : s.timestamp ≤ c.decision.commitTimestamp) :
      Change db m (.storeDecision c)
        { m with
          status := m.status.insert c.decision.id (newStatus c.decision.id c.timestamp .decided),
          prepared := m.prepared.insert c.decision.id { p with decision := some c.decision } }
        { result := .ok (newStatus c.decision.id c.timestamp .decided) }
  | markTimedout (c : MarkTimedout) (s : TxnStatus) (p : Prepared)
      (hs : m.status.lookup c.id = some s) (hp : m.prepared.lookup c.id = some p)
      (hpid : c.id.principalPid = m.pid) (hst : s.state = .prepared) :
      Change db m (.markTimedout c)
        { m with status := m.status.insert c.id (newStatus c.id c.timestamp .timedout) }
        { result := .ok (newStatus c.id c.timestamp .timedout) }
  | release (c : MarkTimedout) (s : TxnStatus) (p : Prepared)
      (hs : m.status.lookup c.id = some s) (hp : m.prepared.lookup c.id = some p)
      (hpid : c.id.principalPid = m.pid) (hst : s.state = .timedout)
      (hr : c.releaseLocks = true) :
      Change db m (.markTimedout c)
        { m with prepared := m.prepared.insert c.id p.releaseLocks } { result := .ok s }

theorem checkLocks_failed {m : Manager} {id : TxnId} {t : Nat} {ls : List Lock} {s : TxnStatus}
    (h : m.checkLocks id t ls = some s) : s.state = .failed ∧ s.id = id := by
  obtain ⟨l, _, rfl⟩ := Option.map_eq_some_iff.mp h
  exact ⟨rfl, rfl⟩

theorem validate_failed {db : Reads} {id : TxnId} {t : Nat} {txn : Txn} {s : TxnStatus}
    (h : validate db id t txn = some s) : s.state = .failed ∧ s.id = id := by
  obtain ⟨a, _, ha⟩ := List.exists_of_findSome?_eq_some h
  obtain ⟨c, _, rfl⟩ := Option.map_eq_some_iff.mp ha
  exact ⟨rfl, rfl⟩

theorem applyAutocommit_change (db : Reads) (m : Manager) (c : Autocommit) :
    Change db m (.autocommit c) (m.applyAutocommit db c).1 (m.applyAutocommit db c).2 := by
  simp only [Manager.applyAutocommit]
  split
  · rename_i s hs
    split
    · rename_i hst
      exact .idle _ _ (.repeated s hs (by simp [Cmd.repeats, hst]))
    · rename_i hst
      exact .idle _ _ (.repeated s hs (by simp [Cmd.repeats, hst]))
    · exact .idle _ _ (.refused _ s hs (by decide))
  · rename_i hn
    split
    · rename_i s hl
      exact .idle _ _ (.failed s rfl hn (checkLocks_failed hl).1 (checkLocks_failed hl).2)
    · rename_i hl
      split
      · rename_i s hv
        exact .idle _ _ (.failed s rfl hn (validate_failed hv).1 (validate_failed hv).2)
      · rename_i hv
        exact .autocommit c hn hl hv

theorem applyPrepare_change (db : Reads) (m : Manager) (c : Prepare) :
    Change db m (.prepare c) (m.applyPrepare db c).1 (m.applyPrepare db c).2 := by
  simp only [Manager.applyPrepare]
  split
  · rename_i s hs
    split
    · rename_i hst
      exact .idle _ _ (.repeated s hs (by simp [Cmd.repeats, hst]))
    · rename_i hst
      exact .idle _ _ (.repeated s hs (by simp [Cmd.repeats, hst]))
    · exact .idle _ _ (.refused _ s hs (by decide))
  · rename_i hn
    split
    · rename_i s hl
      exact .idle _ _ (.failed s rfl hn (checkLocks_failed hl).1 (checkLocks_failed hl).2)
    · rename_i hl
      split
      · rename_i s hv
        exact .idle _ _ (.failed s rfl hn (validate_failed hv).1 (validate_failed hv).2)
      · rename_i hv
        exact .prepare c hn hl hv

theorem applyCommit_change (db : Reads) (m : Manager) (c : Commit) :
    Change db m (.commit c) (m.applyCommit c).1 (m.applyCommit c).2 := by
  unfold Manager.applyCommit
  split
  · rename_i hn
    exact .idle _ _ (.missing rfl (.inl hn))
  · rename_i s hs
    split
    · rename_i hn
      exact .idle _ _ (.missing rfl (.inr hn))
    · rename_i p hp
      split
      · rename_i hst
        exact .idle _ _ (.repeated s hs (by simp [Cmd.repeats, hst]))
      · rename_i hst
        split
        · exact .idle _ _ (.refused _ s hs (by decide))
        · rename_i hd
          exact .commit c s p hs hp (.inr ⟨hst, not_not.mp hd⟩)
      · rename_i hst
        split
        · exact .idle _ _ (.refused _ s hs (by decide))
        · rename_i ht
          exact .commit c s p hs hp (.inl ⟨hst, not_lt.mp ht⟩)
      · exact .idle _ _ (.refused _ s hs (by decide))

theorem applyAbort_change (db : Reads) (m : Manager) (c : Abort) :
    Change db m (.abort c) (m.applyAbort c).1 (m.applyAbort c).2 := by
  unfold Manager.applyAbort
  split
  · rename_i hn
    exact .idle _ _ (.missing rfl (.inl hn))
  · rename_i s hs
    split
    · rename_i hn
      exact .idle _ _ (.missing rfl (.inr hn))
    · rename_i p hp
      split
      · rename_i hst
        exact .idle _ _ (.repeated s hs (by simp [Cmd.repeats, hst]))
      · rename_i hst
        exact .idle _ _ (.repeated s hs (by simp [Cmd.repeats, hst]))
      · rename_i hst
        exact .abort c s p hs hp hst
      · exact .idle _ _ (.refused _ s hs (by decide))

theorem applyStoreDecision_change (db : Reads) (m : Manager) (c : StoreDecision) :
    Change db m (.storeDecision c) (m.applyStoreDecision c).1 (m.applyStoreDecision c).2 := by
  simp only [Manager.applyStoreDecision]
  split
  · rename_i hn
    exact .idle _ _ (.missing rfl (.inl hn))
  · rename_i s hs
    split
    · exact .idle _ _ (.refused _ s hs (by decide))
    rename_i hpid
    split
    · rename_i hn
      exact .idle _ _ (.missing rfl (.inr hn))
    · rename_i p hp
      split
      · rename_i hst
        split
        · exact .idle _ _ (.refused _ s hs (by decide))
        · exact .idle _ _ (.repeated s hs (by simp [Cmd.repeats, hst]))
      · rename_i hst
        exact .idle _ _ (.repeated s hs (by simp [Cmd.repeats, hst]))
      · rename_i hst
        split
        · exact .idle _ _ (.refused _ s hs (by decide))
        · rename_i ht
          exact .storeDecision c s p hs hp (not_not.mp hpid) hst (not_lt.mp ht)
      · exact .idle _ _ (.refused _ s hs (by decide))

theorem applyMarkTimedout_change (db : Reads) (m : Manager) (c : MarkTimedout) :
    Change db m (.markTimedout c) (m.applyMarkTimedout c).1 (m.applyMarkTimedout c).2 := by
  unfold Manager.applyMarkTimedout
  split
  · rename_i hn
    exact .idle _ _ (.missing rfl (.inl hn))
  · rename_i s hs
    split
    · exact .idle _ _ (.refused _ s hs (by decide))
    rename_i hpid
    split
    · rename_i hn
      exact .idle _ _ (.missing rfl (.inr hn))
    · rename_i p hp
      split
      · rename_i hst
        split
        · rename_i hr
          exact .release c s p hs hp (not_not.mp hpid) hst hr
        · exact .idle _ _ (.repeated s hs (by simp [Cmd.repeats, hst]))
      · rename_i hst
        exact .markTimedout c s p hs hp (not_not.mp hpid) hst
      · exact .idle _ _ (.refused _ s hs (by decide))

/-- **Every command has one of the listed effects.** -/
theorem applyCmd_change (db : Reads) (m : Manager) (c : Cmd) :
    Change db m c (m.applyCmd db c).1 (m.applyCmd db c).2 := by
  cases c with
  | abort c => exact applyAbort_change db m c
  | markTimedout c => exact applyMarkTimedout_change db m c
  | commit c => exact applyCommit_change db m c
  | autocommit c => exact applyAutocommit_change db m c
  | prepare c => exact applyPrepare_change db m c
  | storeDecision c => exact applyStoreDecision_change db m c

end Scout.Txn
