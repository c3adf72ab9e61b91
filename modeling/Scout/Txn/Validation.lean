import Scout.Txn.Settled

/-!
What `validate` decides. `holdsAt` is the meaning of the checks of an action at
a point in time; `validate` tests them against the store just before the
timestamp of the txn. The store lacks the records of the batch being applied
(`Pending`), which matters only for batches whose txns are not `Independent`.
-/

namespace Scout.Txn

open Data Mvcc Lib

/-! ## Checks -/

/-- The check that an action carries holds in the store at time `t`. -/
def holdsAt (rs : List Record) (t : Nat) (x : Action) : Prop :=
  match x.payload with
  | some (.insert ks k _) => live rs t ⟨ks, k⟩ = false
  | some (.update ks k _) => live rs t ⟨ks, k⟩ = true
  | some (.delete ks k) => live rs t ⟨ks, k⟩ = true
  | some (.lockKey l .mustExist) => live rs t ⟨l.keyspace, l.key⟩ = true
  | some (.lockKey l .mustNotExist) => live rs t ⟨l.keyspace, l.key⟩ = false
  | some (.lockRange l .mustBeEmpty) =>
    ∀ a, inRange l.keyspace l.startKey l.endKey a = true → live rs t a = false
  | some (.lockRange l .mustNotBeEmpty) =>
    ∃ a, inRange l.keyspace l.startKey l.endKey a = true ∧ live rs t a = true
  | _ => True

/-- The txn is valid in the serial order at `timestamp`. -/
def SerialValid (rs : List Record) (timestamp : Nat) (txn : Txn) : Prop :=
  ∀ x ∈ txn.actions, holdsAt rs (timestamp - 1) x

variable {t : Nat}

theorem holdsAt_congr {rs rs' : List Record} {t' : Nat} {x : Action}
    (h : ∀ a, x.checks a = true → live rs t a = live rs' t' a) :
    holdsAt rs t x ↔ holdsAt rs' t' x := by
  unfold holdsAt
  unfold Action.checks at h
  split <;> simp_all
  -- `lockRange` is left: the same range is empty or not in both stores
  rename_i l _
  constructor
  · rintro ⟨a, ha, hl⟩
    exact ⟨a, ha, (h a ha) ▸ hl⟩
  · rintro ⟨a, ha, hl⟩
    exact ⟨a, ha, (h a ha).symm ▸ hl⟩

theorem serialValid_congr {rs rs' : List Record} {t' : Nat} {txn : Txn}
    (h : ∀ a, txn.checks a = true → live rs (t - 1) a = live rs' (t' - 1) a) :
    SerialValid rs t txn ↔ SerialValid rs' t' txn := by
  refine forall_congr' fun x => forall_congr' fun hx => holdsAt_congr fun a ha => ?_
  exact h a (List.any_eq_true.mpr ⟨x, hx, ha⟩)

/-- **What `validateAction` tests.** From timestamp 2 on, `timestamp - 1` is a
real point in time; zero would ask for the latest version. -/
theorem validateAction_none_iff (db : Store) (ht : 2 ≤ t) (x : Action) :
    validateAction db t x = none ↔ holdsAt db.records (t - 1) x := by
  have hr : readTimestamp (decUint64 t) = t - 1 := by
    rw [decUint64_of_pos (by omega), readTimestamp_of_pos (by omega)]
  have hk : (LockKeyCheck.mustNotExist == LockKeyCheck.mustExist) = false := rfl
  have hb : (LockRangeCheck.mustBeEmpty == LockRangeCheck.mustNotBeEmpty) = false := rfl
  unfold validateAction holdsAt
  cases hp : x.payload with
  | none => simp
  | some p =>
    cases p with
    | lockKey l c => cases c <;> simp [exists_eq_live, hr, hk]
    | lockRange l c =>
      have hex := existsInRange_iff db (decUint64 t) ⟨l.keyspace, l.startKey⟩ ⟨l.keyspace, l.endKey⟩
      simp only [hr, inSpan_same] at hex
      cases c with
      | none => simp
      | mustNotBeEmpty => simp [← hex]
      | mustBeEmpty =>
        rw [← not_iff_not] at hex
        push Not at hex
        simpa [hb] using hex
    | _ => simp [exists_eq_live, hr]

theorem validate_none_iff (db : Store) (id : TxnId) (ht : 2 ≤ t) (txn : Txn) :
    validate db id t txn = none ↔ SerialValid db.records t txn := by
  simp only [validate, List.findSome?_eq_none_iff, Option.map_eq_none_iff,
    validateAction_none_iff db ht, SerialValid]

variable {db : Store}

theorem validateAction_congr {db' : Store} {x : Action}
    (h : ∀ a, x.checks a = true → live db.records (readTimestamp (decUint64 t)) a =
      live db'.records (readTimestamp (decUint64 t)) a) :
    validateAction db t x = validateAction db' t x := by
  have he : ∀ a, x.checks a = true → (storeReads db).exists_ (decUint64 t) a =
      (storeReads db').exists_ (decUint64 t) a :=
    fun a ha => by simp only [storeReads_exists, exists_eq_live, h a ha]
  unfold validateAction
  cases hp : x.payload with
  | none => rfl
  | some p =>
    cases p with
    | insert ks k v => simp only [he ⟨ks, k⟩ (by simp [Action.checks, hp])]
    | update ks k v => simp only [he ⟨ks, k⟩ (by simp [Action.checks, hp])]
    | delete ks k => simp only [he ⟨ks, k⟩ (by simp [Action.checks, hp])]
    | lockKey l c =>
      by_cases hc : c = .none
      · simp only [hc, if_true]
      · simp only [he ⟨l.keyspace, l.key⟩ (by simp [Action.checks, hp, hc])]
    | lockRange l c =>
      by_cases hc : c = .none
      · simp only [hc, if_true]
      have hex : (storeReads db).existsInRange (decUint64 t) ⟨l.keyspace, l.startKey⟩
          ⟨l.keyspace, l.endKey⟩ = (storeReads db').existsInRange (decUint64 t)
            ⟨l.keyspace, l.startKey⟩ ⟨l.keyspace, l.endKey⟩ := by
        rw [Bool.eq_iff_iff, storeReads_existsInRange, existsInRange_iff, storeReads_existsInRange,
          existsInRange_iff]
        refine exists_congr fun a => and_congr_right fun ha => ?_
        rw [inSpan_same] at ha
        rw [h a (by simp [Action.checks, hp, hc, ha])]
      simp only [hex]
    | _ => rfl

variable {id : TxnId}

/-- **Validation depends only on the checked addresses.** -/
theorem validate_congr {db' : Store} {txn : Txn}
    (h : ∀ a, txn.checks a = true → live db.records (readTimestamp (decUint64 t)) a =
      live db'.records (readTimestamp (decUint64 t)) a) :
    validate db id t txn = validate db' id t txn := by
  refine findSome_congr ?_
  intro x hx
  rw [validateAction_congr fun a ha => h a (List.any_eq_true.mpr ⟨x, hx, ha⟩)]

/-! ## Independent batches -/

/-- `u` checks nothing that `t` writes. -/
def Avoids (t u : Txn) : Prop := ∀ a, t.writes a = true → u.checks a = false

/-- No `Autocommit` of the batch writes an address that a later `Autocommit` or
a `Prepare` of the batch checks. -/
structure Independent (b : TxnBatch) : Prop where
  autocommit : b.autocommit.Pairwise fun x y => Avoids x.txn y.txn
  prepare : ∀ x ∈ b.autocommit, ∀ y ∈ b.prepare, Avoids x.txn y.txn

/-- The txn that a command brings. -/
def Cmd.newTxn : Cmd → Option Txn
  | .autocommit c => some c.txn
  | .prepare c => some c.txn
  | _ => none

theorem Independent.avoids {b : TxnBatch} (h : Independent b) {pre post : List Cmd} {c : Cmd}
    (hb : batchCmds b = pre ++ c :: post) {x : Autocommit} (hx : .autocommit x ∈ pre) {u : Txn}
    (hu : c.newTxn = some u) : Avoids x.txn u := by
  let P : Cmd → Cmd → Prop := fun c d =>
    ∀ x, c = .autocommit x → ∀ u, d.newTxn = some u → Avoids x.txn u
  let front := b.abort.map Cmd.abort ++ b.markTimedout.map .markTimedout ++ b.commit.map .commit
  let back := b.prepare.map Cmd.prepare ++ b.storeDecision.map .storeDecision
  -- only autocommits matter on the left, only new txns on the right
  have hfront : ∀ c ∈ front, ∀ d, P c d := by
    rintro c hc d x rfl
    simp [front] at hc
  have hback : ∀ c ∈ back, ∀ d, P c d := by
    rintro c hc d x rfl
    simp [back] at hc
  have hauto : (b.autocommit.map Cmd.autocommit).Pairwise P := by
    rw [List.pairwise_map]
    refine h.autocommit.imp ?_
    rintro x y hxy _ ⟨⟩ _ ⟨⟩
    exact hxy
  have hcross : ∀ c ∈ b.autocommit.map Cmd.autocommit, ∀ d ∈ back, P c d := by
    rintro c hc d hd x rfl u hu
    have hx : x ∈ b.autocommit := by simpa using hc
    rcases List.mem_append.mp hd with hd | hd
    · obtain ⟨y, hy, rfl⟩ := List.mem_map.mp hd
      cases hu
      exact h.prepare x hx y hy
    · obtain ⟨y, hy, rfl⟩ := List.mem_map.mp hd
      cases hu
  have hall : (batchCmds b).Pairwise P := by
    have e : batchCmds b = front ++ (b.autocommit.map Cmd.autocommit ++ back) := by
      simp [batchCmds, front, back]
    rw [e]
    refine List.pairwise_append.mpr
      ⟨?_, List.pairwise_append.mpr ⟨hauto, ?_, hcross⟩, fun c hc d _ => hfront c hc d⟩
    · exact List.pairwise_of_forall_mem_list fun c hc d _ => hfront c hc d
    · exact List.pairwise_of_forall_mem_list fun c hc d _ => hback c hc d
  rw [hb, List.pairwise_append] at hall
  exact hall.2.2 _ hx c (by simp) x rfl u hu

/-! ## Records that the batch has not written yet -/

/-- Where the pending records of a batch come from: committed txns that still
hold their locks, and autocommits. -/
def Pending (m : Manager) (done : List Cmd) (ws : List Record) : Prop :=
  ∀ w ∈ ws,
    (∃ id p s, m.status.lookup id = some s ∧ s.state = .committed ∧
      m.prepared.lookup id = some p ∧ p.locksReleased = false ∧ p.txn.writes w.address = true) ∨
    ∃ x, .autocommit x ∈ done ∧ x.txn.writes w.address = true

variable {m : Manager}

theorem Change.committed_entry {m' : Manager} {c : Cmd} {o : Outcome} (h : Change db m c m' o)
    {s : TxnStatus} (hs : m.status.lookup id = some s) (hst : s.state = .committed) :
    m'.prepared.lookup id = m.prepared.lookup id := by
  by_cases hid : id = c.id
  · subst hid
    cases h <;> simp_all [Cmd.id]
  · exact (h.frame hid).2

theorem Pending.step {m' : Manager} {c : Cmd} {o : Outcome} {done : List Cmd} {ws : List Record}
    (hm : Coherent m) (h : Change db m c m' o) (hp : Pending m done ws) :
    Pending m' (done ++ [c]) (ws ++ o.writes) := by
  intro w hw
  rcases List.mem_append.mp hw with hw | hw
  · rcases hp w hw with ⟨id, p, s, hs, hst, hp, hr, hwr⟩ | ⟨x, hx, hwr⟩
    · refine .inl ⟨id, p, s, h.final_stays hs (by rw [hst]; rfl), hst, ?_, hr, hwr⟩
      rw [h.committed_entry hs hst]
      exact hp
    · exact .inr ⟨x, by simp [hx], hwr⟩
  · rcases h.writes hm hw with ⟨x, rfl, _, hwr, _⟩ | ⟨x, p, rfl, _, ha, hwr, _, hprep, hst⟩
    · exact .inr ⟨x, by simp, hwr⟩
    · refine .inl ⟨x.id, p, _, hst, rfl, ?_, (ha.held hm).1, hwr⟩
      rw [hprep]
      exact ha.entry

/-- A txn that passes the lock check holds a lock on each address it checks, so
no open or just committed txn writes there. -/
theorem checkLocks_not_written {i : TxnId} {u : Txn} {p : Prepared} {a : Address}
    (hm : Coherent m) (hl : m.checkLocks id t u.buildLocks = none)
    (hp : m.prepared.lookup i = some p) (hr : p.locksReleased = false) (ha : u.checks a = true) :
    p.txn.writes a = false := by
  obtain ⟨l, hmem, hc⟩ := txn_checks_lock u a ha
  have hcomp := (checkLocks_none_iff m id t _).mp hl i p hp hr
  rw [(hm.record i).held p hp hr] at hcomp
  exact writes_not_covered p.txn u.buildLocks a hcomp l hmem hc

/-- **In an independent batch no pending record is at an address that a new txn
checks**, once that txn passed the lock check. -/
theorem Pending.avoided {done : List Cmd} {ws : List Record} {u : Txn} (hm : Coherent m)
    (hp : Pending m done ws) (hl : m.checkLocks id t u.buildLocks = none)
    (hd : ∀ x, .autocommit x ∈ done → Avoids x.txn u) : ∀ w ∈ ws, u.checks w.address = false := by
  intro w hw
  cases hc : u.checks w.address with
  | false => rfl
  | true =>
    rcases hp w hw with ⟨i, p, s, _, _, hp, hr, hwr⟩ | ⟨x, hx, hwr⟩
    · rw [checkLocks_not_written hm hl hp hr hc] at hwr
      cases hwr
    · rw [hd x hx _ hwr] at hc
      cases hc

end Scout.Txn
