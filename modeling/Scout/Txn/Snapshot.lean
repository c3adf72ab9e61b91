import Scout.Txn.Leader
import Scout.Txn.Replicas

/-!
Snapshots of the `Manager` (`Manager.Snapshot` and `Restore`, with the protobuf
round trip that `FSM.Snapshot` and `FSM.Restore` put between them) and the states
that a replica can reach with them. Locks are not part of a snapshot: they are
rebuilt from the txn. Both maps are rebuilt from the ids inside the values.
-/

namespace Scout.Txn

open Data Mvcc Lib

/-! ## Snapshot and restore -/

structure TxnSnapshot where
  status : List TxnStatus
  prepared : List Prepared
  maxTimestamp : Nat

def Prepared.eraseLocks (p : Prepared) : Prepared := { p with locks := [] }

/-- In the order of the map entries. -/
def Manager.snapshot (m : Manager) : TxnSnapshot where
  status := m.status.entries.map Sigma.snd
  prepared := (m.prepared.entries.map Sigma.snd).map Prepared.eraseLocks
  maxTimestamp := m.maxTimestamp

/-- An empty map has no entries on the wire, and is read back as a nil map. -/
def roundTripStatus (s : TxnStatus) : TxnStatus :=
  { s with actionStatus := s.actionStatus.filter fun as => !as.isEmpty }

/-- `MarshalProto` followed by `UnmarshalProto`. -/
def TxnSnapshot.roundTrip (snap : TxnSnapshot) : TxnSnapshot :=
  { snap with status := snap.status.map roundTripStatus }

def Prepared.rebuildLocks (x : Prepared) : Prepared :=
  if !x.locksReleased then { x with locks := x.txn.buildLocks } else x

def Manager.restore (m : Manager) (snap : TxnSnapshot) : Manager :=
  { m with
    maxTimestamp := snap.maxTimestamp
    status := fillMap TxnStatus.id id snap.status
    prepared := fillMap (fun x : Prepared => x.txn.id) Prepared.rebuildLocks snap.prepared }

/-- The states of the replicas of one partition: a replica starts empty, applies
batches over whatever store it has, cleans up at any clock reading, and may be
restored from the snapshot of any replica. -/
inductive Reachable (pid : Nat) : Manager → Prop
  | new (cleanAfter : Int) : Reachable pid (newManager pid cleanAfter)
  | batch {m : Manager} (hm : Reachable pid m) (db : Store) (e : Entry) :
      Reachable pid (applyEntry (m, db) e).1.1
  | cleanup {m : Manager} (hm : Reachable pid m) (now : Int) : Reachable pid (m.cleanup now)
  | restore {m n : Manager} (hm : Reachable pid m) (hn : Reachable pid n) :
      Reachable pid (m.restore n.snapshot.roundTrip)

/-! ## Records that a snapshot keeps whole -/

/-- Facts about a record beside `RecordOk`: what a snapshot leaves out of it can be
rebuilt, and there is no decision before the txn is decided. -/
structure Plain (s : Option TxnStatus) (p : Option Prepared) : Prop where
  no_actions : ∀ y, s = some y → y.actionStatus = none
  no_locks : ∀ x, p = some x → x.locksReleased = true → x.locks = []
  undecided : ∀ x y, p = some x → s = some y → y.state = .prepared → x.decision = none

theorem Plain.absent : Plain none none := ⟨by simp, by simp, by simp⟩

theorem Plain.left {y : TxnStatus} {p : Option Prepared} (ha : y.actionStatus = none)
    (hst : y.state ≠ .prepared)
    (hp : ∀ x, p = some x → x.locksReleased = true → x.locks = []) : Plain (some y) p where
  no_actions := by
    intro z hz
    cases hz
    exact ha
  no_locks := hp
  undecided := by
    intro x z _ hz e
    cases hz
    exact absurd e hst

variable {m : Manager}

theorem Change.plain {db : Store} {m' : Manager} {c : Cmd} {o : Outcome} (h : Change db m c m' o)
    (hc : Plain (m.status.lookup c.id) (m.prepared.lookup c.id)) :
    Plain (m'.status.lookup c.id) (m'.prepared.lookup c.id) := by
  have released : ∀ p : Prepared, ∀ x, some p.releaseLocks = some x → x.locksReleased = true →
      x.locks = [] := by
    intro p x hx _
    cases hx
    rfl
  cases h with
  | idle => exact hc
  | autocommit c =>
    simp only [Cmd.id, AList.lookup_insert] at hc ⊢
    exact .left rfl (fun e => by cases e) hc.no_locks
  | prepare c =>
    simp only [Cmd.id, AList.lookup_insert]
    refine ⟨?_, ?_, ?_⟩
    · intro y hy
      cases hy
      rfl
    · intro x hx hr
      cases hx
      cases hr
    · intro x y hx _ _
      cases hx
      rfl
  | commit c s p =>
    simp only [Cmd.id, AList.lookup_insert] at hc ⊢
    exact .left rfl (fun e => by cases e) hc.no_locks
  | abort c s p =>
    simp only [Cmd.id, AList.lookup_insert]
    exact .left rfl (fun e => by cases e) (released p)
  | storeDecision c s p hs hp =>
    simp only [Cmd.id, AList.lookup_insert] at hc ⊢
    refine .left rfl (fun e => by cases e) ?_
    intro x hx
    cases hx
    exact hc.no_locks p hp
  | markTimedout c s p =>
    simp only [Cmd.id, AList.lookup_insert] at hc ⊢
    exact .left rfl (fun e => by cases e) hc.no_locks
  | release c s p hs hp hpid hst =>
    simp only [Cmd.id, AList.lookup_insert, hs] at hc ⊢
    exact .left (hc.no_actions s rfl) (fun e => by rw [hst] at e; cases e) (released p)

structure Sound (m : Manager) : Prop where
  coherent : Coherent m
  recorded : PidsRecorded m
  ids : StatusIds m
  plain : ∀ id, Plain (m.status.lookup id) (m.prepared.lookup id)

theorem sound_new (pid : Nat) (cleanAfter : Int) : Sound (newManager pid cleanAfter) where
  coherent := coherent_new pid cleanAfter
  recorded := by
    constructor
    · intro id s hs
      cases hs
    · intro id s p hs
      cases hs
  ids := by
    intro id s hs
    cases hs
  plain := fun _ => Plain.absent

theorem Sound.congr {n : Manager} (h : Sound n) (ha : ∀ id, Agree m n id) : Sound m where
  coherent := by
    refine ⟨fun id => ?_, fun i j p q hij hp hq => ?_⟩
    · rw [(ha id).1, (ha id).2]
      exact h.coherent.record id
    · rw [(ha i).2] at hp
      rw [(ha j).2] at hq
      exact h.coherent.exclusive i j p q hij hp hq
  recorded := by
    refine ⟨fun id s hs => ?_, fun id s p hs hst hp => ?_⟩
    · rw [(ha id).1] at hs
      exact h.recorded.none_open id s hs
    · rw [(ha id).1] at hs
      rw [(ha id).2] at hp
      exact h.recorded.released id s p hs hst hp
  ids := by
    intro id s hs
    rw [(ha id).1] at hs
    exact h.ids id s hs
  plain := by
    intro id
    rw [(ha id).1, (ha id).2]
    exact h.plain id

theorem Sound.cleanup (h : Sound m) (now : Int) : Sound (m.cleanup now) where
  coherent := h.coherent.cleanup now
  recorded := by
    refine ⟨fun id s hs => ?_, fun id s p hs hst hp => ?_⟩
    · rcases cleanup_record m now id with ha | hf
      · rw [ha.1] at hs
        exact h.recorded.none_open id s hs
      · rw [hf.status] at hs
        cases hs
    · rcases cleanup_record m now id with ha | hf
      · rw [ha.1] at hs
        rw [ha.2] at hp
        exact h.recorded.released id s p hs hst hp
      · rw [hf.status] at hs
        cases hs
  ids := by
    intro id s hs
    rcases cleanup_record m now id with ha | hf
    · rw [ha.1] at hs
      exact h.ids id s hs
    · rw [hf.status] at hs
      cases hs
  plain := by
    intro id
    rcases cleanup_record m now id with ha | hf
    · rw [ha.1, ha.2]
      exact h.plain id
    · rw [hf.status, hf.prepared]
      exact Plain.absent

theorem plain_runCmds (h : ∀ id, Plain (m.status.lookup id) (m.prepared.lookup id)) (db : Store)
    (cs : List Cmd) :
    ∀ id, Plain ((m.runCmds db cs).1.status.lookup id) ((m.runCmds db cs).1.prepared.lookup id) := by
  refine loop_invariant (Manager.applyCmd db)
    (fun m _ => ∀ id, Plain (m.status.lookup id) (m.prepared.lookup id)) cs m [] h ?_
  intro m os c _ ih id
  have hch := applyCmd_change db m c
  by_cases hid : id = c.id
  · subst hid
    exact hch.plain (ih _)
  · rw [(hch.frame hid).1, (hch.frame hid).2]
    exact ih id

theorem plain_finish (h : ∀ id, Plain (m.status.lookup id) (m.prepared.lookup id))
    (os : List Outcome) (t : Nat) (now : Int) (id : TxnId) :
    Plain ((m.finish os t now).status.lookup id) ((m.finish os t now).prepared.lookup id) := by
  rw [Manager.finish, cleanup_status, cleanup_prepared]
  split
  · exact Plain.absent
  rw [(releaseAll_rest _ _).1, releaseAll_prepared]
  split
  · refine ⟨(h id).no_actions, ?_, ?_⟩
    · intro x hx _
      obtain ⟨p, _, rfl⟩ := Option.map_eq_some_iff.mp hx
      rfl
    · intro x y hx hy hst
      obtain ⟨p, hp, rfl⟩ := Option.map_eq_some_iff.mp hx
      exact (h id).undecided p y hp hy hst
  · exact h id

theorem Sound.entry {s : Manager × Store} (h : Sound s.1) (e : Entry) :
    Sound (applyEntry s e).1.1 where
  coherent := h.coherent.entry e
  recorded := h.recorded.entry h.coherent e
  ids := h.ids.entry e
  plain := by
    rw [applyEntry_manager]
    exact plain_finish (plain_runCmds h.plain s.2 _) _ _ _

/-! ## A restored manager has the records of the snapshot -/

theorem Sound.roundTrip {n : Manager} (h : Sound n) : n.snapshot.roundTrip = n.snapshot := by
  have same : ∀ s ∈ n.snapshot.status, roundTripStatus s = s := by
    intro s hs
    obtain ⟨e, he, rfl⟩ := List.mem_map.mp hs
    have ha := (h.plain e.1).no_actions e.2 ((mem_entries_iff _ _ _).mp he)
    rw [roundTripStatus, ha, Option.filter_none, ← ha]
  rw [TxnSnapshot.roundTrip, List.map_congr_left same, List.map_id']

theorem rebuildLocks_eraseLocks {p : Prepared} (hheld : p.locksReleased = false →
    p.locks = p.txn.buildLocks) (hrel : p.locksReleased = true → p.locks = []) :
    p.eraseLocks.rebuildLocks = p := by
  obtain ⟨txn, timestamp, locks, locksReleased, decision⟩ := p
  cases locksReleased with
  | false =>
    have e : locks = txn.buildLocks := hheld rfl
    rw [e]
    rfl
  | true =>
    have e : locks = [] := hrel rfl
    rw [e]
    rfl

/-- **Restore.** The restored manager holds exactly the records of the one the
snapshot was taken of. -/
theorem restore_agree {n : Manager} (h : Sound n) (m : Manager) (id : TxnId) :
    Agree (m.restore n.snapshot.roundTrip) n id := by
  rw [h.roundTrip]
  constructor
  · have hs := lookup_fillMap TxnStatus.id (fun s => s) n.status h.ids id
    rw [Option.map_id'] at hs
    exact hs
  · have hp := lookup_fillMap (fun x : Prepared => x.eraseLocks.txn.id)
      (fun x => x.eraseLocks.rebuildLocks) n.prepared
      (fun k v hv => (h.coherent.record k).txn_id v hv) id
    have hfill : (m.restore n.snapshot).prepared =
        fillMap (fun x : Prepared => x.eraseLocks.txn.id) (fun x => x.eraseLocks.rebuildLocks)
          (n.prepared.entries.map Sigma.snd) := by
      change fillMap _ _ ((n.prepared.entries.map Sigma.snd).map Prepared.eraseLocks) = _
      unfold fillMap
      rw [List.foldl_map]
    rw [hfill, hp]
    cases hl : n.prepared.lookup id with
    | none => rfl
    | some p =>
      rw [Option.map_some, rebuildLocks_eraseLocks ((h.coherent.record id).held p hl)
        ((h.plain id).no_locks p hl)]

/-- **The invariant holds in every reachable state.** -/
theorem Reachable.sound {pid : Nat} (hm : Reachable pid m) : Sound m := by
  induction hm with
  | new cleanAfter => exact sound_new pid cleanAfter
  | batch _ db e ih => exact Sound.entry (s := (_, db)) ih e
  | cleanup _ now ih => exact ih.cleanup now
  | restore _ _ _ ihn => exact ihn.congr (restore_agree ihn _)

/-! ## Mutual exclusion -/

/-- **Mutual exclusion of prepared txns.** -/
theorem prepared_txns_exclusive {pid : Nat} {m : Manager} (hm : Reachable pid m) :
    (∀ i j p q, i ≠ j → m.prepared.lookup i = some p → m.prepared.lookup j = some q →
      p.locksReleased = false → q.locksReleased = false →
      (∀ l ∈ p.locks, ∀ k ∈ q.locks, l.compatibleWith k = true) ∧
      ∀ a : Address, ∀ l ∈ p.locks, ∀ k ∈ q.locks, l.covers a = true → k.covers a = true →
        l.exclusive = false ∧ k.exclusive = false) ∧
    ∀ id p, m.prepared.lookup id = some p → p.locksReleased = false →
      p.locks = p.txn.buildLocks := by
  have hc := hm.sound.coherent
  refine ⟨?_, fun id p hp hr => (hc.record id).held p hp hr⟩
  intro i j p q hij hp hq hpr hqr
  have hpq := hc.exclusive i j p q hij hp hq hpr hqr
  refine ⟨hpq, ?_⟩
  intro a l hl k hk hla hka
  exact compatibleWith_disjoint l k a (hpq l hl k hk) hla hka

/-- A replica restored from a state in which two txns are prepared. -/
def twoPrepared : Manager :=
  let m := (applyEntry (newPartition 1 0) ⟨1, 0,
    { prepare := [⟨2, ⟨⟨1, 1, 1⟩, [⟨0, some (.upsert 16 [0] [])⟩], [1, 2]⟩⟩,
        ⟨3, ⟨⟨1, 1, 2⟩, [⟨0, some (.upsert 16 [1] [])⟩], [1, 2]⟩⟩],
      maxTimestamp := 3 }⟩).1.1
  (newManager 1 0).restore m.snapshot.roundTrip

theorem twoPrepared_reachable : Reachable 1 twoPrepared :=
  .restore (.new 0) (.batch (.new 0) Store.empty _)

theorem prepared_txns_exclusive_twoPrepared :
    ∃ p q, (twoPrepared.prepared.lookup ⟨1, 1, 1⟩ = some p ∧ p.locksReleased = false) ∧
      (twoPrepared.prepared.lookup ⟨1, 1, 2⟩ = some q ∧ q.locksReleased = false) ∧
      ∀ l ∈ p.locks, ∀ k ∈ q.locks, l.compatibleWith k = true :=
  ⟨_, _, ⟨rfl, rfl⟩, ⟨rfl, rfl⟩, ((prepared_txns_exclusive twoPrepared_reachable).1 ⟨1, 1, 1⟩
    ⟨1, 1, 2⟩ _ _ (by decide) rfl rfl rfl rfl).1⟩

/-! ## Coherence -/

def Manager.decisionMissing (m : Manager) (id : TxnId) : Bool :=
  match m.status.lookup id, m.prepared.lookup id with
  | some s, some p => s.state == .decided && p.decision.isNone
  | _, _ => false

/-- The commands that read a field of the decision: a nil pointer there would
stop every replica. -/
def Manager.cmdPanics (m : Manager) : Cmd → Bool
  | .commit c => m.decisionMissing c.id
  | .storeDecision c => c.decision.id.principalPid == m.pid && m.decisionMissing c.decision.id
  | _ => false

/-- `safeTimestampForLock` reads the state of every txn that holds locks. -/
def Manager.safeTimestampPanics (m : Manager) : Bool :=
  m.prepared.entries.any fun e => !e.2.locksReleased && (m.status.lookup e.1).isNone

/-- `getRunning` reads the status of every txn of its own that holds locks. -/
def Manager.getRunningPanics (m : Manager) : Bool :=
  m.prepared.entries.any fun e =>
    !(e.1.principalPid != m.pid || e.2.locksReleased) && (m.status.lookup e.1).isNone

theorem Coherent.decision_present (h : Coherent m) (id : TxnId) : m.decisionMissing id = false := by
  unfold Manager.decisionMissing
  split
  · rename_i s p hs hp
    by_cases hst : s.state = .decided
    · obtain ⟨d, hd, _⟩ := (h.record id).decided_ts p s hp hs hst
      simp [hd]
    · simp [hst]
  · rfl

theorem Coherent.cmd_safe (h : Coherent m) (c : Cmd) : m.cmdPanics c = false := by
  cases c with
  | commit c => exact h.decision_present c.id
  | storeDecision c =>
    show (_ && m.decisionMissing c.decision.id) = false
    rw [h.decision_present, Bool.and_false]
  | _ => rfl

/-- Every entry of `prepared` has a status, so no read of one fails. -/
theorem Coherent.reads_safe (h : Coherent m) :
    m.safeTimestampPanics = false ∧ m.getRunningPanics = false := by
  have known : ∀ e ∈ m.prepared.entries, (m.status.lookup e.1).isNone = false := by
    intro e he
    obtain ⟨s, hs⟩ := (h.record e.1).has_status e.2 ((mem_entries_iff _ _ _).mp he)
    rw [hs]
    rfl
  constructor
  · refine List.any_eq_false.mpr ?_
    intro e he
    rw [known e he, Bool.and_false]
    exact Bool.false_ne_true
  · refine List.any_eq_false.mpr ?_
    intro e he
    rw [known e he, Bool.and_false]
    exact Bool.false_ne_true

/-- What the two maps and the flags keep to between batches. -/
structure Lockstep (m : Manager) : Prop where
  has_status : ∀ id p, m.prepared.lookup id = some p → ∃ s, m.status.lookup id = some s
  has_entry : ∀ id s, m.status.lookup id = some s → s.state.isFinal = false →
    ∃ p, m.prepared.lookup id = some p
  held : ∀ id s p, m.status.lookup id = some s → m.prepared.lookup id = some p →
    s.state = .prepared ∨ s.state = .decided → p.locksReleased = false
  released : ∀ id s p, m.status.lookup id = some s → m.prepared.lookup id = some p →
    s.state = .committed ∨ s.state = .aborted → p.locksReleased = true
  decided : ∀ id s p, m.status.lookup id = some s → m.prepared.lookup id = some p →
    s.state = .decided → ∃ d, p.decision = some d ∧ p.timestamp ≤ d.commitTimestamp

theorem Sound.lockstep (h : Sound m) : Lockstep m where
  has_status := fun id p hp => (h.coherent.record id).has_status p hp
  has_entry := fun id s hs hf => (h.coherent.record id).has_entry s hs hf
  held := by
    intro id s p hs hp hst
    refine (h.coherent.record id).open_held p s hp hs ?_
    rcases hst with e | e <;> rw [e] <;> rfl
  released := by
    rintro id s p hs hp (e | e)
    · exact h.recorded.released id s p hs e hp
    · exact (h.coherent.record id).aborted_released p s hp hs e
  decided := fun id s p hs hp hst => (h.coherent.record id).decided_ts p s hp hs hst

/-- **The state of the manager is coherent**: the maps are in step, `cleanup`
drops only final txns without locks, and nothing that is missing is read, at
whatever point of a batch a command is applied. -/
theorem manager_coherent {pid : Nat} {m : Manager} (hm : Reachable pid m) : Lockstep m ∧
    (∀ now id s, m.status.lookup id = some s →
      (s.state.isFinal = false ∨ ∃ p, m.prepared.lookup id = some p ∧ p.locksReleased = false) →
      (m.cleanup now).status.lookup id = some s ∧
      (m.cleanup now).prepared.lookup id = m.prepared.lookup id) ∧
    (∀ db cs c, (m.runCmds db cs).1.cmdPanics c = false) ∧
    m.safeTimestampPanics = false ∧ m.getRunningPanics = false := by
  have h := hm.sound
  refine ⟨h.lockstep, ?_, ?_, h.coherent.reads_safe⟩
  · intro now id s hs hopen
    have hkeep : m.forgets now id = false := by
      cases hf : m.forgets now id with
      | false => rfl
      | true =>
        obtain ⟨s', hs', hfin, hrel⟩ := forgets_final hf
        rw [hs'] at hs
        cases hs
        rcases hopen with ho | ⟨p, hp, hr⟩
        · rw [hfin] at ho
          cases ho
        · rw [hrel p hp] at hr
          cases hr
    rw [cleanup_status, cleanup_prepared, hkeep]
    exact ⟨hs, rfl⟩
  · intro db cs c
    exact (h.coherent.runCmds db cs).cmd_safe c

theorem manager_coherent_twoPrepared :
    twoPrepared.prepared.entries.length = 2 ∧ Lockstep twoPrepared :=
  ⟨by decide, (manager_coherent twoPrepared_reachable).1⟩

end Scout.Txn
