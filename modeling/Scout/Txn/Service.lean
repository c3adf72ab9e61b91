import Scout.Data.Validate
import Scout.Txn.SafeRead
import Scout.Txn.Snapshot

/-!
The data service of one partition (`service.go`): its five handlers over the manager,
the writer and the reader, and which of their replies pass the validation that the
client makes of every reply.
-/

namespace Scout.Txn

open Data Mvcc Lib

/-! ## The action statuses of a reply -/

/-- `ok` holds of the last item under each id: later items overwrite earlier ones. -/
def LastOf {α : Type} (id : α → Nat) (ok : α → Prop) : List α → Prop
  | [] => True
  | a :: as => (id a ∈ as.map id ∨ ok a) ∧ LastOf id ok as

instance LastOf.decidable {α : Type} (id : α → Nat) (ok : α → Prop) [DecidablePred ok] :
    (as : List α) → Decidable (LastOf id ok as)
  | [] => inferInstanceAs (Decidable True)
  | a :: as =>
    have := LastOf.decidable id ok as
    inferInstanceAs (Decidable ((id a ∈ as.map id ∨ ok a) ∧ LastOf id ok as))

theorem lastOf_append {α : Type} {id : α → Nat} {ok : α → Prop} {as bs : List α}
    (h : ∀ a ∈ as, ok a) : LastOf id ok (as ++ bs) ↔ LastOf id ok bs := by
  induction as with
  | nil => rfl
  | cons a as ih =>
    rw [List.cons_append, LastOf, ih (fun x hx => h x (by simp [hx]))]
    exact and_iff_right (.inr (h a (by simp)))

theorem lastOf_map {α β : Type} {f : α → β} {id : α → Nat} {id' : β → Nat} {ok : α → Prop}
    {ok' : β → Prop} (hid : ∀ a, id' (f a) = id a) (hok : ∀ a, ok' (f a) ↔ ok a) (as : List α) :
    LastOf id' ok' (as.map f) ↔ LastOf id ok as := by
  induction as with
  | nil => rfl
  | cons a as ih =>
    have hids : (as.map f).map id' = as.map id := by simp [hid]
    rw [List.map_cons, LastOf, LastOf, ih, hids, hid, hok]

variable {s : TxnStatus}

theorem setActionStatus_some {s' : TxnStatus} {a : ActionStatus}
    (h : setActionStatus s a = some s') : ∃ all, s.actionStatus = some all ∧
      s' = { s with actionStatus := some ((a.id, a) :: all.filter fun x => x.1 != a.id) } := by
  obtain ⟨all, hall, rfl⟩ := Option.map_eq_some_iff.mp h
  exact ⟨all, hall, rfl⟩

/-- **Assignments rule.** After a loop of assignments the map holds the last status
under each id, and what it held under other ids. -/
theorem setAll_entries {as : List ActionStatus} {s' : TxnStatus}
    (h : as.foldlM setActionStatus s = some s') : s'.id = s.id ∧ s'.timestamp = s.timestamp ∧
      ((∀ x ∈ s'.actionStatus.getD [], checkEntry x = none) ↔
        (∀ x ∈ s.actionStatus.getD [], x.1 ∉ as.map ActionStatus.id → checkEntry x = none) ∧
        LastOf ActionStatus.id (fun a => a.validate = none) as) := by
  induction as generalizing s with
  | nil =>
    cases h
    simp [LastOf]
  | cons a as ih =>
    rw [List.foldlM_cons] at h
    obtain ⟨m, hm, hrest⟩ := Option.bind_eq_some_iff.mp h
    obtain ⟨all, hall, rfl⟩ := setActionStatus_some hm
    obtain ⟨hid, ht, hall'⟩ := ih hrest
    refine ⟨hid, ht, hall'.trans ?_⟩
    rw [hall, Option.getD_some, Option.getD_some, List.forall_mem_cons, checkEntry_own, LastOf]
    simp only [List.mem_filter, bne_iff_ne, List.map_cons, List.mem_cons, not_or, and_imp]
    constructor
    · rintro ⟨⟨h1, h2⟩, h3⟩
      exact ⟨h2, or_iff_not_imp_left.mpr h1, h3⟩
    · rintro ⟨h2, h1, h3⟩
      exact ⟨⟨or_iff_not_imp_left.mp h1, h2⟩, h3⟩

theorem setAll_nil_map {as : List ActionStatus} {s' : TxnStatus} (hs : s.actionStatus = none)
    (h : as.foldlM setActionStatus s = some s') : as = [] ∧ s' = s := by
  cases as with
  | nil =>
    cases h
    exact ⟨rfl, rfl⟩
  | cons a as =>
    rw [List.foldlM_cons] at h
    obtain ⟨m, hm, _⟩ := Option.bind_eq_some_iff.mp h
    obtain ⟨all, hall, _⟩ := setActionStatus_some hm
    rw [hs] at hall
    cases hall

structure RangeRead where
  id : Nat
  keyspace : Nat
  startKey : Bytes
  endKey : Bytes
  maxResults : Nat

def rangeRead (a : Action) : Option RangeRead :=
  match a.payload with
  | some (.readRange ks s e n) => some ⟨a.id, ks, s, e, n⟩
  | _ => none

section Fetch

variable (decodeValue : Bytes → Option Bytes) (cfg : ReaderConfig)

def pointStatuses (db : Store) (t : Nat) (txn : Txn) : List ActionStatus :=
  let points := getPointReadAddrs txn
  (points.zip (db.get t (points.map Prod.snd))).map fun x => pointStatus decodeValue x.1.1 x.2

def rangeStatus (db : Store) (t : Nat) (x : RangeRead) : ActionStatus :=
  let r := readRange decodeValue cfg db t x.keyspace x.startKey x.endKey x.maxResults
  { id := x.id, code := r.1, results := r.2 }

def rangeStatuses (db : Store) (t : Nat) (txn : Txn) : List ActionStatus :=
  (txn.actions.filterMap rangeRead).map (rangeStatus decodeValue cfg db t)

theorem fetchRange_eq (db : Store) (s : TxnStatus) (a : Action) :
    fetchRange decodeValue cfg db s a =
      match rangeRead a with
      | some x => setActionStatus s (rangeStatus decodeValue cfg db s.timestamp x)
      | none => some s := by
  obtain ⟨id, payload⟩ := a
  cases payload with
  | none => rfl
  | some p => cases p <;> rfl

theorem fetchResults_eq (db : Store) (txn : Txn) (s : TxnStatus) :
    fetchResults decodeValue cfg db txn s = (pointStatuses decodeValue db s.timestamp txn ++
        rangeStatuses decodeValue cfg db s.timestamp txn).foldlM setActionStatus s := by
  have ranges : ∀ (as : List Action) (x : TxnStatus), x.timestamp = s.timestamp →
      as.foldlM (fetchRange decodeValue cfg db) x =
        ((as.filterMap rangeRead).map (rangeStatus decodeValue cfg db s.timestamp)).foldlM
          setActionStatus x := by
    intro as
    induction as with
    | nil => exact fun _ _ => rfl
    | cons a as ih =>
      intro x hx
      have step : ∀ y, fetchRange decodeValue cfg db x a = some y → y.timestamp = s.timestamp :=
        fun y hy => (fetchRange_timestamp hy).trans hx
      rw [List.foldlM_cons, Option.bind_eq_bind, Option.bind_congr fun y hy => ih y (step y hy),
        List.filterMap_cons]
      rw [fetchRange_eq, hx]
      cases rangeRead a <;> rfl
  rw [List.foldlM_append, pointStatuses, List.foldlM_map]
  exact Option.bind_congr fun y hy =>
    ranges txn.actions y (foldlM_timestamp (fun _ _ _ h => setActionStatus_timestamp h) hy)

theorem pointStatus_valid (id : Nat) (r : Option Record) :
    (pointStatus decodeValue id r).validate = none := by
  rw [ActionStatus.validate_eq_none]
  unfold pointStatus
  split
  · simp
  · split <;> simp

/-! ## Range reads with something to report -/

/-- The iteration comes to a value, or to data that it reports as corrupted. -/
def Found (rs : List Record) : Prop :=
  ∃ r ∈ rs, (decodeValue r.value).isSome ∨ cfg.skipCorruptedData = false
  deriving Decidable

theorem iterate_valid (maxResults id : Nat) (results : List Bytes) (rs : List Record) :
    ({ id, code := (iterate decodeValue cfg maxResults results rs).1,
       results := (iterate decodeValue cfg maxResults results rs).2 } : ActionStatus).validate =
        none ↔ results ≠ [] ∨ Found decodeValue cfg rs := by
  rw [ActionStatus.validate_eq_none]
  induction rs generalizing results with
  | nil => simp [iterate, Found]
  | cons r rs ih =>
    rw [iterate]
    cases hd : decodeValue r.value with
    | none =>
      cases hs : cfg.skipCorruptedData with
      | false => simp [Found, hs]
      | true =>
        simp only [Bool.not_true, Bool.false_eq_true, if_false]
        rw [ih]
        simp [Found, hd, hs]
    | some v =>
      have found : Found decodeValue cfg (r :: rs) := ⟨r, by simp, .inl (by simp [hd])⟩
      dsimp only
      split
      · simp [found]
      · rw [ih]
        simp [found]

/-- Every range read whose status stays in the reply finds something at `t`. -/
def RangesFound (db : Store) (t : Nat) (txn : Txn) : Prop :=
  LastOf RangeRead.id
    (fun x => Found decodeValue cfg
      (db.getRange t ⟨x.keyspace, x.startKey⟩ ⟨x.keyspace, x.endKey⟩))
    (txn.actions.filterMap rangeRead)

instance (db : Store) (t : Nat) (txn : Txn) : Decidable (RangesFound decodeValue cfg db t txn) :=
  LastOf.decidable _ _ _

variable {decodeValue cfg}

/-- **Validity of fetched results.** A status with a valid head and valid entries keeps
them; what the reads add is valid when each range read finds something. -/
theorem fetchResults_valid {db : Store} {txn : Txn} {s s' : TxnStatus}
    (h : fetchResults decodeValue cfg db txn s = some s')
    (hs : ∀ x ∈ s.actionStatus.getD [], checkEntry x = none) (hid : s.id.validate = none) :
    s'.validate = none ↔ s.timestamp ≠ 0 ∧ RangesFound decodeValue cfg db s.timestamp txn := by
  rw [fetchResults_eq] at h
  obtain ⟨hid', ht, hall⟩ := setAll_entries h
  have points : ∀ a ∈ pointStatuses decodeValue db s.timestamp txn, a.validate = none := by
    intro a ha
    obtain ⟨x, _, rfl⟩ := List.mem_map.mp ha
    exact pointStatus_valid decodeValue _ _
  have ranges : LastOf ActionStatus.id (fun a => a.validate = none)
      (rangeStatuses decodeValue cfg db s.timestamp txn) ↔
        RangesFound decodeValue cfg db s.timestamp txn := by
    refine lastOf_map (fun _ => rfl) (fun x => ?_) _
    exact (iterate_valid decodeValue cfg _ x.id [] _).trans (by simp)
  rw [TxnStatus.validate_eq_none, hid', ht, hall, lastOf_append points, ranges]
  constructor
  · rintro ⟨_, h1, _, h2⟩
    exact ⟨h1, h2⟩
  · rintro ⟨h1, h2⟩
    exact ⟨hid, h1, fun x hx _ => hs x hx, h2⟩

theorem fetchResults_nil_map {db : Store} {txn : Txn} {s s' : TxnStatus}
    (h : fetchResults decodeValue cfg db txn s = some s') (hs : s.actionStatus = none) :
    s' = s ∧ ∀ t, RangesFound decodeValue cfg db t txn := by
  rw [fetchResults_eq] at h
  obtain ⟨hnil, rfl⟩ := setAll_nil_map hs h
  obtain ⟨_, hr⟩ := List.append_eq_nil_iff.mp hnil
  refine ⟨rfl, fun t => ?_⟩
  rw [RangesFound, List.map_eq_nil_iff.mp hr]
  trivial

end Fetch

/-! ## The statuses of a replica -/

def Cmd.timestamp : Cmd → Nat
  | .abort c => c.timestamp
  | .markTimedout c => c.timestamp
  | .commit c => c.timestamp
  | .autocommit c => c.timestamp
  | .prepare c => c.timestamp
  | .storeDecision c => c.timestamp

/-- Requests that wait for one batch. The timestamp of a commit comes from a
validated request. -/
structure Queue where
  batch : TxnBatch := {}
  dated : ∀ c ∈ batch.commit, c.timestamp ≠ 0 := by simp

/-- The log entry that the writer makes of the requests. -/
def Queue.entry (q : Queue) (clock : Clock) (drift : List Nat) (index : Nat) (now : Int) : Entry :=
  ⟨index, now, (prepareBatch clock drift q.batch).2⟩

variable {c : Cmd}

theorem timestamp_mem_stamps {b : TxnBatch} (hc : c ∈ batchCmds b) (hne : ∀ x, c ≠ .commit x) :
    c.timestamp ∈ stamps b := by
  rw [mem_batchCmds] at hc
  simp only [stamps, List.mem_append, List.mem_map]
  cases c with
  | commit x => exact absurd rfl (hne x)
  | autocommit x => exact .inl (.inl (.inl (.inl ⟨x, hc, rfl⟩)))
  | prepare x => exact .inl (.inl (.inl (.inr ⟨x, hc, rfl⟩)))
  | abort x => exact .inl (.inl (.inr ⟨x, hc, rfl⟩))
  | storeDecision x => exact .inl (.inr ⟨x, hc, rfl⟩)
  | markTimedout x => exact .inr ⟨x, hc, rfl⟩

/-- The commands of an entry have timestamps: those of the HLC, which are never zero,
or those of the commit requests. -/
theorem Queue.entry_dated (q : Queue) (clock : Clock) (drift : List Nat) (index : Nat)
    (now : Int) : ∀ c ∈ batchCmds (q.entry clock drift index now).batch, c.timestamp ≠ 0 := by
  intro c hc
  by_cases hcommit : ∃ x, c = .commit x
  · obtain ⟨x, rfl⟩ := hcommit
    exact q.dated x ((mem_batchCmds _ _).mp hc)
  · obtain ⟨_, _, h, _⟩ := prepareBatch_stampedBy clock drift q.batch
    have ht := (h.fresh _ (timestamp_mem_stamps hc (not_exists.mp hcommit))).1
    exact (lt_trans clock.pos ht).ne'

/-- The states of the replicas of a partition whose leaders serve validated requests. -/
inductive Reached (pid : Nat) : Manager → Prop
  | new (cleanAfter : Int) : Reached pid (newManager pid cleanAfter)
  | batch {m : Manager} (hm : Reached pid m) (db : Store) (q : Queue) (clock : Clock)
      (drift : List Nat) (index : Nat) (now : Int) :
      Reached pid (applyEntry (m, db) (q.entry clock drift index now)).1.1
  | cleanup {m : Manager} (hm : Reached pid m) (now : Int) : Reached pid (m.cleanup now)
  | restore {m n : Manager} (hm : Reached pid m) (hn : Reached pid n) :
      Reached pid (m.restore n.snapshot.roundTrip)

variable {m : Manager}

theorem Reached.reachable {pid : Nat} (h : Reached pid m) : Reachable pid m := by
  induction h with
  | new cleanAfter => exact .new cleanAfter
  | batch _ db q clock drift index now ih => exact .batch ih db _
  | cleanup _ now ih => exact .cleanup ih now
  | restore _ _ ihm ihn => exact .restore ihm ihn

structure KeptStatus (id : TxnId) (s : TxnStatus) : Prop where
  id_eq : s.id = id
  dated : s.timestamp ≠ 0
  no_actions : s.actionStatus = none

def KeepsStatuses (m : Manager) : Prop := ∀ id s, m.status.lookup id = some s → KeptStatus id s

variable {db : Store}

theorem KeepsStatuses.step {m' : Manager} {o : Outcome} (h : KeepsStatuses m)
    (hch : Change db m c m' o) (hc : c.timestamp ≠ 0) : KeepsStatuses m' := by
  intro id s hs
  by_cases hid : id = c.id
  · subst hid
    cases hch with
    | idle => exact h _ s hs
    | release => exact h _ s hs
    | _ =>
      simp only [Cmd.id, AList.lookup_insert, Option.some.injEq] at hs
      subst hs
      exact ⟨rfl, hc, rfl⟩
  · rw [(hch.frame hid).1] at hs
    exact h id s hs

theorem KeepsStatuses.runCmds (h : KeepsStatuses m) (db : Store) {cs : List Cmd}
    (hc : ∀ c ∈ cs, c.timestamp ≠ 0) : KeepsStatuses (m.runCmds db cs).1 :=
  loop_invariant _ (fun m _ => KeepsStatuses m) cs m [] h
    (fun m _ c hmem ih => ih.step (applyCmd_change db m c) (hc c hmem))

theorem Reached.keepsStatuses {pid : Nat} (h : Reached pid m) : KeepsStatuses m := by
  induction h with
  | new cleanAfter =>
    intro id s hs
    cases hs
  | @batch m _ db q clock drift index now ih =>
    intro id s hs
    have hrun := applyEntry_status hs
    exact ih.runCmds db (q.entry_dated clock drift index now) id s hrun
  | @cleanup m _ now ih =>
    intro id s hs
    rw [cleanup_status] at hs
    split at hs
    · cases hs
    · exact ih id s hs
  | @restore m n _ hn _ ihn =>
    intro id s hs
    rw [(restore_agree hn.reachable.sound m id).1] at hs
    exact ihn id s hs

/-! ## The answers of the manager -/

/-- A txn that is refused names the action at fault. -/
def Refused (id : TxnId) (t : Nat) (s : TxnStatus) : Prop :=
  ∃ actionId code, code ≠ .success ∧ s = newFailedStatus id t actionId code

variable {id : TxnId} {t : Nat}

theorem checkLocks_refused {ls : List Lock} (h : m.checkLocks id t ls = some s) :
    Refused id t s := by
  obtain ⟨l, _, rfl⟩ := Option.map_eq_some_iff.mp h
  exact ⟨l.actionId, .lockFailed, by decide, rfl⟩

theorem validateAction_code {a : Action} {code : Code} (h : validateAction db t a = some code) :
    code ≠ .success := by
  rintro rfl
  unfold validateAction at h
  split at h <;> grind

theorem validate_refused {txn : Txn} (h : validate db id t txn = some s) : Refused id t s := by
  obtain ⟨a, _, ha⟩ := List.exists_of_findSome?_eq_some h
  obtain ⟨code, hcode, rfl⟩ := Option.map_eq_some_iff.mp ha
  exact ⟨a.id, code, validateAction_code hcode, rfl⟩

theorem applyCmd_refused (hnew : c.isNew = true) (hn : m.status.lookup c.id = none)
    (hf : s.state = .failed) (h : (m.applyCmd db c).2.result = .ok s) :
    Refused c.id c.timestamp s := by
  cases c with
  | autocommit c =>
    simp only [Cmd.id] at hn
    simp only [Manager.applyCmd, Manager.applyAutocommit, hn] at h
    split at h
    · rename_i hl
      cases h
      exact checkLocks_refused hl
    · split at h
      · rename_i hv
        cases h
        exact validate_refused hv
      · cases h
        cases hf
  | prepare c =>
    simp only [Cmd.id] at hn
    simp only [Manager.applyCmd, Manager.applyPrepare, hn] at h
    split at h
    · rename_i hl
      cases h
      exact checkLocks_refused hl
    · split at h
      · rename_i hv
        cases h
        exact validate_refused hv
      · cases h
        cases hf
  | _ => cases hnew

/-- The statuses that a command can return: one that the manager keeps, or the refusal
of a new txn. -/
theorem applyCmd_answer (hm : KeepsStatuses m) (hc : c.timestamp ≠ 0)
    (h : (m.applyCmd db c).2.result = .ok s) :
    KeptStatus c.id s ∨ (c.isNew = true ∧ Refused c.id c.timestamp s) := by
  have hch := applyCmd_change db m c
  generalize hr : m.applyCmd db c = r at h hch
  obtain ⟨m', o⟩ := r
  cases hch with
  | idle c r hi =>
    cases hi with
    | missing => cases h
    | refused => cases h
    | repeated s' hs' =>
      cases h
      exact .inl (hm _ _ hs')
    | failed s' hnew hn hf =>
      cases h
      exact .inr ⟨hnew, applyCmd_refused hnew hn hf (by rw [hr])⟩
  | release c s' p hs' =>
    cases h
    exact .inl (hm _ _ hs')
  | _ =>
    cases h
    exact .inl ⟨rfl, hc, rfl⟩

/-! ## The writer -/

def joinBatches (a b : TxnBatch) : TxnBatch where
  autocommit := a.autocommit ++ b.autocommit
  prepare := a.prepare ++ b.prepare
  commit := a.commit ++ b.commit
  abort := a.abort ++ b.abort
  storeDecision := a.storeDecision ++ b.storeDecision
  markTimedout := a.markTimedout ++ b.markTimedout
  maxTimestamp := max a.maxTimestamp b.maxTimestamp

/-- The case of the command in `mainLoop`. -/
def addCmd (b : TxnBatch) : Cmd → TxnBatch
  | .autocommit c => { b with autocommit := b.autocommit ++ [c] }
  | .prepare c => { b with prepare := b.prepare ++ [c] }
  | .commit c => { b with commit := b.commit ++ [c] }
  | .abort c => { b with abort := b.abort ++ [c] }
  | .storeDecision c => { b with storeDecision := b.storeDecision ++ [c] }
  | .markTimedout c => { b with markTimedout := b.markTimedout ++ [c] }

/-- The answer that `waitBatchResult` sends to the command that came after `b`. -/
def BatchResults.answer (r : BatchResults) (b : TxnBatch) : Cmd → Option BatchResult
  | .autocommit _ => r.autocommit[b.autocommit.length]?
  | .prepare _ => r.prepare[b.prepare.length]?
  | .commit _ => r.commit[b.commit.length]?
  | .abort _ => r.abort[b.abort.length]?
  | .storeDecision _ => r.storeDecision[b.storeDecision.length]?
  | .markTimedout _ => r.markTimedout[b.markTimedout.length]?

/-- `prepareBatch` sets the timestamps of all commands but commits. -/
def Cmd.stamp (t : Nat) : Cmd → Cmd
  | .autocommit c => .autocommit { c with timestamp := t }
  | .prepare c => .prepare { c with timestamp := t }
  | .commit c => .commit c
  | .abort c => .abort { c with timestamp := t }
  | .storeDecision c => .storeDecision { c with timestamp := t }
  | .markTimedout c => .markTimedout { c with timestamp := t }

@[simp] theorem Cmd.stamp_id (t : Nat) (c : Cmd) : (c.stamp t).id = c.id := by
  cases c <;> rfl

@[simp] theorem Cmd.stamp_isNew (t : Nat) (c : Cmd) : (c.stamp t).isNew = c.isNew := by
  cases c <;> rfl

theorem stampAll_getElem? {α : Type} (set : Nat → α → α) (s : Stamper) (xs : List α) (n : Nat) :
    ∃ t, (stampAll set s xs).2[n]? = xs[n]?.map (set t) := by
  induction xs generalizing s n with
  | nil => exact ⟨0, by simp [stampAll]⟩
  | cons x xs ih =>
    cases n with
    | zero => exact ⟨s.hlcNow.maxTS, rfl⟩
    | succ n => exact ih s.hlcNow n

/-- The command of `all` that came after `b`. -/
def cmdAfter (all b : TxnBatch) : Cmd → Option Cmd
  | .autocommit _ => all.autocommit[b.autocommit.length]?.map .autocommit
  | .prepare _ => all.prepare[b.prepare.length]?.map .prepare
  | .commit _ => all.commit[b.commit.length]?.map .commit
  | .abort _ => all.abort[b.abort.length]?.map .abort
  | .storeDecision _ => all.storeDecision[b.storeDecision.length]?.map .storeDecision
  | .markTimedout _ => all.markTimedout[b.markTimedout.length]?.map .markTimedout

theorem prepareBatch_after (clock : Clock) (drift : List Nat) (b b' : TxnBatch) (c : Cmd) :
    ∃ t, cmdAfter (prepareBatch clock drift (joinBatches (addCmd b c) b')).2 b c =
      some (c.stamp t) := by
  -- one argument for the five kinds that are stamped
  have stamped : ∀ {α : Type} (set : Nat → α → α) (k : α → Cmd) (s : Stamper) (xs ys : List α)
      (x : α), ∃ t,
      (stampAll set s (xs ++ [x] ++ ys)).2[xs.length]?.map k = some (k (set t x)) := by
    intro α set k s xs ys x
    obtain ⟨t, ht⟩ := stampAll_getElem? set s (xs ++ [x] ++ ys) xs.length
    exact ⟨t, by rw [ht]; simp⟩
  cases c with
  | commit c => exact ⟨0, by simp [cmdAfter, prepareBatch, joinBatches, addCmd, Cmd.stamp]⟩
  | autocommit c => exact stamped _ Cmd.autocommit _ _ _ c
  | prepare c => exact stamped _ Cmd.prepare _ _ _ c
  | abort c => exact stamped _ Cmd.abort _ _ _ c
  | storeDecision c => exact stamped _ Cmd.storeDecision _ _ _ c
  | markTimedout c => exact stamped _ Cmd.markTimedout _ _ _ c

theorem answer_mem {s : Manager × Store} {e : Entry} {b : TxnBatch} {d : Cmd} {r : BatchResult}
    (hc : cmdAfter e.batch b c = some d) (hr : (applyEntry s e).2.answer b c = some r) :
    (d, r) ∈ (batchCmds e.batch).zip (applyEntry s e).2.all := by
  have same : ∀ {α : Type} {k : α → Cmd} {xs : List α} {ys : List BatchResult} {n : Nat},
      xs[n]?.map k = some d → ys[n]? = some r → (d, r) ∈ (xs.map k).zip ys := by
    intro α k xs ys n hx hy
    refine List.mem_of_getElem? (i := n) ?_
    rw [List.getElem?_zip_eq_some, List.getElem?_map]
    exact ⟨hx, hy⟩
  simp only [applyEntry_zip, List.mem_append]
  cases c with
  | abort c => exact .inl (.inl (.inl (.inl (.inl (same hc hr)))))
  | markTimedout c => exact .inl (.inl (.inl (.inl (.inr (same hc hr)))))
  | commit c => exact .inl (.inl (.inl (.inr (same hc hr))))
  | autocommit c => exact .inl (.inl (.inr (same hc hr)))
  | prepare c => exact .inl (.inr (same hc hr))
  | storeDecision c => exact .inr (same hc hr)

/-! ## The service -/

/-- `prepared` is the map of the reader: read-only txns under their own ids. -/
structure Service where
  pid : Nat
  isLeader : Bool
  prepared : List Txn := []

/-- What a handler meets while it runs. The replica goes through the states `state`;
each step of the handler reads it at its own moment. -/
structure Context (pid : Nat) where
  state : Nat → Manager × Store
  reached : ∀ n, Reached pid (state n).1
  /-- The error of `hlc.Update`. -/
  hlcUpdate : Option Err := none
  /-- The moments at which `checkSafeTimestamp` reads the safe timestamp. -/
  first : Nat := 0
  second : Option Nat := none
  /-- The batch of the writer, before and after the command enters it. -/
  before : Queue := {}
  after : Queue := {}
  clock : Clock
  drift : List Nat := []
  /-- The index of the entry and the wall clock when it is applied, unless Raft fails. -/
  committed : Except Err (Nat × Int)
  applied : Nat := 0
  /-- The moment at which the results are fetched. -/
  fetched : Nat := 0

/-- No reply when the handler panics. -/
abbrev Reply := Option (Except Err TxnStatus)

namespace Context

variable {pid : Nat} (ctx : Context pid)

def batchOf (c : Cmd) : TxnBatch :=
  (prepareBatch ctx.clock ctx.drift
    (joinBatches (addCmd ctx.before.batch c) ctx.after.batch)).2

/-- `writer.Apply`. -/
def writerApply (c : Cmd) : Reply :=
  match ctx.committed with
  | .error e => some (.error e)
  | .ok (index, now) =>
    (applyEntry (ctx.state ctx.applied) ⟨index, now, ctx.batchOf c⟩).2.answer ctx.before.batch c

def stampOf (c : Cmd) : Nat :=
  ((cmdAfter (ctx.batchOf c) ctx.before.batch c).map Cmd.timestamp).getD 0

def safeTimestamp (txn : Txn) : Nat := ((ctx.state ctx.first).1.getSafeTimestamp txn).1

variable (decodeValue : Bytes → Option Bytes) (cfg : ReaderConfig)

def fetch (txn : Txn) (status : TxnStatus) : Reply :=
  (fetchResults decodeValue cfg (ctx.state ctx.fetched).2 txn status).map .ok

/-- `AutocommitSnapshotRead`, and the second half of `CommitReadOnly`. -/
def snapshotRead (isLeader : Bool) (txn : Txn) (timestamp : Nat) : Reply :=
  match checkSafeTimestamp isLeader (fun k => (ctx.state k).1) ctx.first ctx.second txn
    timestamp with
  | .error e => some (.error e)
  | .ok _ => ctx.fetch decodeValue cfg txn (newEmptyStatus txn timestamp .committed)

end Context

namespace Service

variable (decodeValue : Bytes → Option Bytes) (cfg : ReaderConfig) (n : Service)
  (ctx : Context n.pid)

def autocommit (req : AutocommitRequest) : Reply :=
  if req.partitionId ≠ n.pid then some (.error .invalidRequest)
  else if req.isSnapshotRead then
    match ctx.hlcUpdate with
    | some err => some (.error err)
    | none => ctx.snapshotRead decodeValue cfg n.isLeader req.txn req.readTimestamp
  else if !n.isLeader then some (.error .notLeader)
  else if req.txn.isReadOnly then
    ctx.fetch decodeValue cfg req.txn
      (newEmptyStatus req.txn (ctx.safeTimestamp req.txn) .committed)
  else
    match ctx.writerApply (.autocommit ⟨0, req.txn⟩) with
    | some (.ok status) => ctx.fetch decodeValue cfg req.txn status
    | other => other

/-- Besides the reply, the reader may have one more prepared txn. -/
def prepare (req : PrepareRequest) : Service × Reply :=
  if !n.isLeader then (n, some (.error .notLeader))
  else if req.participantPid ≠ n.pid then (n, some (.error .invalidRequest))
  else if req.readOnly then
    ({ n with prepared := req.txn :: n.prepared.filter fun t => t.id != req.txn.id },
      some (.ok (newStatus req.txn.id (ctx.safeTimestamp req.txn) .prepared)))
  else (n, ctx.writerApply (.prepare ⟨0, req.txn⟩))

def commit (req : CommitRequest) : Reply :=
  if !n.isLeader then some (.error .notLeader)
  else if req.participantPid ≠ n.pid then some (.error .invalidRequest)
  else
    match ctx.hlcUpdate with
    | some err => some (.error err)
    | none =>
      if req.readOnly then
        match n.prepared.find? fun t => t.id == req.id with
        | none => some (.error .notFound)
        | some txn => ctx.snapshotRead decodeValue cfg n.isLeader txn req.commitTimestamp
      else
        match ctx.writerApply (.commit ⟨req.commitTimestamp, req.id⟩) with
        | some (.ok status) =>
          if !req.fetchResults then some (.ok status)
          else
            match (ctx.state ctx.fetched).1.prepared.lookup status.id with
            | none => some (.error .notFound)
            | some p => ctx.fetch decodeValue cfg p.txn status
        | other => other

def abort (req : AbortRequest) : Reply :=
  if !n.isLeader then some (.error .notLeader)
  else if req.participantPid ≠ n.pid then some (.error .invalidRequest)
  else ctx.writerApply (.abort ⟨0, req.id⟩)

def storeDecision (dec : Decision) : Reply :=
  if !n.isLeader then some (.error .notLeader)
  else if dec.id.principalPid ≠ n.pid then some (.error .permissionDenied)
  else if !dec.commit then some (.error .invalidRequest)
  else
    match ctx.hlcUpdate with
    | some err => some (.error err)
    | none => ctx.writerApply (.storeDecision ⟨0, dec⟩)

def handle : Request → Service × Reply
  | .autocommit r => (n, n.autocommit decodeValue cfg ctx r)
  | .prepare r => n.prepare ctx r
  | .commit r => (n, n.commit decodeValue cfg ctx r)
  | .abort r => (n, n.abort ctx r)
  | .storeDecision d => (n, n.storeDecision ctx d)

end Service

/-! ## Replies and their validation -/

theorem KeptStatus.valid (h : KeptStatus id s) (hid : id.validate = none) : s.validate = none := by
  rw [TxnStatus.validate_eq_none, h.id_eq, h.no_actions]
  exact ⟨hid, h.dated, by simp⟩

theorem Refused.entries (h : Refused id t s) :
    s.id = id ∧ s.timestamp = t ∧ ∀ x ∈ s.actionStatus.getD [], checkEntry x = none := by
  obtain ⟨actionId, code, hcode, rfl⟩ := h
  refine ⟨rfl, rfl, ?_⟩
  intro x hx
  rw [List.mem_singleton.mp hx]
  exact checkEntry_own.mpr (ActionStatus.validate_eq_none.mpr (by simp [hcode]))

theorem Refused.valid (h : Refused id t s) (hid : id.validate = none) (ht : t ≠ 0) :
    s.validate = none := by
  obtain ⟨h1, h2, h3⟩ := h.entries
  rw [TxnStatus.validate_eq_none, h1, h2]
  exact ⟨hid, ht, h3⟩

namespace Context

variable {pid : Nat} {ctx : Context pid} {c : Cmd}

theorem joinBatches_dated {q q' : Queue} (hc : ∀ x, c = .commit x → x.timestamp ≠ 0) :
    ∀ x ∈ (joinBatches (addCmd q.batch c) q'.batch).commit, x.timestamp ≠ 0 := by
  intro x hx
  rcases List.mem_append.mp hx with hx | hx
  · cases c with
    | commit y =>
      rcases List.mem_append.mp hx with hx | hx
      · exact q.dated x hx
      · rw [List.mem_singleton.mp hx]
        exact hc y rfl
    | _ => exact q.dated x hx
  · exact q'.dated x hx

variable {s : TxnStatus}

/-- **The answers of the writer.** -/
theorem writerApply_answer (h : ctx.writerApply c = some (.ok s))
    (hc : ∀ x, c = .commit x → x.timestamp ≠ 0) : KeptStatus c.id s ∨
      (c.isNew = true ∧ ctx.stampOf c ≠ 0 ∧ Refused c.id (ctx.stampOf c) s) := by
  unfold writerApply at h
  split at h
  · cases h
  rename_i index now _
  obtain ⟨t, ht⟩ := prepareBatch_after ctx.clock ctx.drift ctx.before.batch ctx.after.batch c
  have hstamp : ctx.stampOf c = (c.stamp t).timestamp := by
    rw [stampOf, batchOf, ht]
    rfl
  obtain ⟨pre, post, hsplit, hr⟩ := mem_applyEntry_zip (answer_mem ht h)
  have dated : ∀ d ∈ pre ++ c.stamp t :: post, d.timestamp ≠ 0 := by
    rw [← hsplit]
    exact Queue.entry_dated ⟨_, joinBatches_dated hc⟩ ctx.clock ctx.drift index now
  have hkeep := (ctx.reached ctx.applied).keepsStatuses.runCmds (ctx.state ctx.applied).2
    (fun d hd => dated d (List.mem_append_left _ hd))
  have hdated := dated (c.stamp t) (by simp)
  rw [hstamp]
  rcases applyCmd_answer hkeep hdated hr.symm with hk | ⟨hn, hf⟩
  · rw [Cmd.stamp_id] at hk
    exact .inl hk
  · rw [Cmd.stamp_isNew] at hn
    rw [Cmd.stamp_id] at hf
    exact .inr ⟨hn, hdated, hf⟩

theorem writerApply_valid (h : ctx.writerApply c = some (.ok s))
    (hc : ∀ x, c = .commit x → x.timestamp ≠ 0) (hid : c.id.validate = none) :
    s.validate = none := by
  rcases writerApply_answer h hc with hk | ⟨_, ht, hf⟩
  · exact hk.valid hid
  · exact hf.valid hid ht

variable {decodeValue : Bytes → Option Bytes} {cfg : ReaderConfig} {txn : Txn}

theorem fetch_some {s' : TxnStatus} (h : ctx.fetch decodeValue cfg txn s = some (.ok s')) :
    fetchResults decodeValue cfg (ctx.state ctx.fetched).2 txn s = some s' := by
  obtain ⟨x, hx, he⟩ := Option.map_eq_some_iff.mp h
  cases he
  exact hx

theorem fetch_empty_valid {t : Nat} (hid : txn.id.validate = none)
    (h : ctx.fetch decodeValue cfg txn (newEmptyStatus txn t .committed) = some (.ok s)) :
    s.validate = none ↔ t ≠ 0 ∧ RangesFound decodeValue cfg (ctx.state ctx.fetched).2 t txn :=
  fetchResults_valid (fetch_some h) (by simp [newEmptyStatus]) hid

theorem snapshotRead_valid {isLeader : Bool} {t : Nat} (hid : txn.id.validate = none) (ht : t ≠ 0)
    (h : ctx.snapshotRead decodeValue cfg isLeader txn t = some (.ok s)) :
    s.validate = none ↔ RangesFound decodeValue cfg (ctx.state ctx.fetched).2 t txn := by
  unfold snapshotRead at h
  split at h
  · cases h
  · rw [fetch_empty_valid hid h]
    exact and_iff_right ht

theorem fetch_answer_valid {s' : TxnStatus} (hs : ctx.writerApply c = some (.ok s))
    (h : ctx.fetch decodeValue cfg txn s = some (.ok s'))
    (hc : ∀ x, c = .commit x → x.timestamp ≠ 0) (hid : c.id.validate = none) : (s'.validate = none ↔
      RangesFound decodeValue cfg (ctx.state ctx.fetched).2 (ctx.stampOf c) txn) ∧
      (c.isNew = false → s'.validate = none) := by
  have hfetch := fetch_some h
  rcases writerApply_answer hs hc with hk | ⟨hnew, ht, hf⟩
  · obtain ⟨rfl, hfound⟩ := fetchResults_nil_map hfetch hk.no_actions
    exact ⟨iff_of_true (hk.valid hid) (hfound _), fun _ => hk.valid hid⟩
  · obtain ⟨h1, h2, h3⟩ := hf.entries
    have hv := fetchResults_valid hfetch h3 (by rw [h1]; exact hid)
    rw [h2] at hv
    refine ⟨hv.trans (and_iff_right ht), ?_⟩
    intro hold
    rw [hnew] at hold
    cases hold

end Context

/-- The condition on a request and the state it meets: the safe timestamp is not zero
where it dates the reply, and the range reads find something. -/
def Service.Readable (decodeValue : Bytes → Option Bytes) (cfg : ReaderConfig) (n : Service)
    (ctx : Context n.pid) : Request → Prop
  | .autocommit r =>
    if r.isSnapshotRead then
      RangesFound decodeValue cfg (ctx.state ctx.fetched).2 r.readTimestamp r.txn
    else if r.txn.isReadOnly then
      ctx.safeTimestamp r.txn ≠ 0 ∧
        RangesFound decodeValue cfg (ctx.state ctx.fetched).2 (ctx.safeTimestamp r.txn) r.txn
    else
      RangesFound decodeValue cfg (ctx.state ctx.fetched).2
        (ctx.stampOf (.autocommit ⟨0, r.txn⟩)) r.txn
  | .prepare r => r.readOnly = true → ctx.safeTimestamp r.txn ≠ 0
  | .commit r => r.readOnly = true → ∀ txn ∈ n.prepared.find? fun t => t.id == r.id,
      RangesFound decodeValue cfg (ctx.state ctx.fetched).2 r.commitTimestamp txn
  | .abort _ => True
  | .storeDecision _ => True

instance (decodeValue : Bytes → Option Bytes) (cfg : ReaderConfig) (n : Service)
    (ctx : Context n.pid) : (r : Request) → Decidable (n.Readable decodeValue cfg ctx r)
  | .autocommit _ => inferInstanceAs (Decidable (ite _ _ _))
  | .prepare _ => inferInstanceAs (Decidable (_ = true → _ ≠ 0))
  | .commit _ => inferInstanceAs (Decidable (_ = true → ∀ txn ∈ List.find? _ _, _))
  | .abort _ => inferInstanceAs (Decidable True)
  | .storeDecision _ => inferInstanceAs (Decidable True)

section Replies

variable {decodeValue : Bytes → Option Bytes} {cfg : ReaderConfig} {n : Service}
  {ctx : Context n.pid} {status : TxnStatus}

theorem autocommit_valid {r : AutocommitRequest} (hid : r.txn.id.validate = none)
    (h : n.autocommit decodeValue cfg ctx r = some (.ok status)) :
    status.validate = none ↔ n.Readable decodeValue cfg ctx (.autocommit r) := by
  unfold Service.autocommit at h
  rw [Service.Readable]
  split at h
  · cases h
  split at h
  · rename_i hsnap
    rw [if_pos hsnap]
    split at h
    · cases h
    · simp only [AutocommitRequest.isSnapshotRead, Bool.and_eq_true, bne_iff_ne] at hsnap
      exact ctx.snapshotRead_valid hid hsnap.1 h
  · rename_i hsnap
    rw [if_neg hsnap]
    split at h
    · cases h
    split at h
    · rename_i hro
      rw [if_pos hro]
      exact ctx.fetch_empty_valid hid h
    · rename_i hro
      rw [if_neg hro]
      split at h
      · rename_i s hs
        exact (ctx.fetch_answer_valid hs h nofun hid).1
      · rename_i hno
        exact absurd h (hno status)

theorem prepare_valid {r : PrepareRequest} (hid : r.txn.id.validate = none)
    (h : (n.prepare ctx r).2 = some (.ok status)) :
    status.validate = none ↔ n.Readable decodeValue cfg ctx (.prepare r) := by
  unfold Service.prepare at h
  rw [Service.Readable]
  split at h
  · cases h
  split at h
  · cases h
  split at h
  · rename_i hro
    cases h
    rw [TxnStatus.validate_eq_none]
    simp [newStatus, hid, hro]
  · rename_i hro
    exact iff_of_true (ctx.writerApply_valid h (fun _ hc => by cases hc) hid) (absurd · hro)

theorem commit_valid {r : CommitRequest} (hid : r.id.validate = none)
    (ht : r.commitTimestamp ≠ 0) (h : n.commit decodeValue cfg ctx r = some (.ok status)) :
    status.validate = none ↔ n.Readable decodeValue cfg ctx (.commit r) := by
  have dated : ∀ x, Cmd.commit ⟨r.commitTimestamp, r.id⟩ = .commit x → x.timestamp ≠ 0 := by
    rintro x ⟨⟩
    exact ht
  unfold Service.commit at h
  rw [Service.Readable]
  split at h
  · cases h
  split at h
  · cases h
  split at h
  · cases h
  split at h
  · rename_i hro
    split at h
    · cases h
    rename_i txn hfind
    have hkey : txn.id = r.id := by simpa using List.find?_some hfind
    rw [ctx.snapshotRead_valid (by rw [hkey]; exact hid) ht h]
    simp [hro, hfind]
  · rename_i hro
    refine iff_of_true ?_ (fun e => absurd e hro)
    split at h
    · rename_i s hs
      split at h
      · cases h
        exact ctx.writerApply_valid hs dated hid
      · split at h
        · cases h
        · exact (ctx.fetch_answer_valid hs h dated hid).2 rfl
    · rename_i hno
      exact absurd h (hno status)

theorem abort_valid {r : AbortRequest} (hid : r.id.validate = none)
    (h : n.abort ctx r = some (.ok status)) : status.validate = none := by
  unfold Service.abort at h
  split at h
  · cases h
  · split at h
    · cases h
    · exact ctx.writerApply_valid h nofun hid

theorem storeDecision_valid {d : Decision} (hid : d.id.validate = none)
    (h : n.storeDecision ctx d = some (.ok status)) : status.validate = none := by
  unfold Service.storeDecision at h
  split at h
  · cases h
  split at h
  · cases h
  split at h
  · cases h
  · split at h
    · cases h
    · exact ctx.writerApply_valid h nofun hid

/-- **Which replies the clients accept.** A reply to a validated request passes the
validation of the client exactly when the timestamp it is dated with is not zero and
every range read that it reports has found something. -/
theorem reply_valid_iff {r : Request} (hr : r.validate = none)
    (h : (n.handle decodeValue cfg ctx r).2 = some (.ok status)) :
    status.validate = none ↔ n.Readable decodeValue cfg ctx r := by
  have hid := Request.validate_id hr
  cases r with
  | autocommit r => exact autocommit_valid hid h
  | prepare r => exact prepare_valid hid h
  | commit r =>
    refine commit_valid hid ?_ h
    intro h0
    simp [Request.validate, CommitRequest.validate, h0] at hr
  | abort r => exact iff_of_true (abort_valid hid h) trivial
  | storeDecision d => exact iff_of_true (storeDecision_valid hid h) trivial

end Replies

/-! ## A range with nothing in it -/

def leader : Service := { pid := 1, isLeader := true }

def leaderAfter (batch : TxnBatch) (h : batch.commit = []) : Context leader.pid where
  state := fun _ => (applyEntry (newPartition 1 0)
    (Queue.entry ⟨batch, by simp [h]⟩ ⟨1, Nat.one_pos⟩ [] 1 0)).1
  reached := fun _ => .batch (.new 0) Store.empty _ _ _ _ _
  clock := ⟨2, by decide⟩
  committed := .error .unavailable

/-- Reads the keys of one user keyspace from 0 up to 9. -/
def readKeys : Request :=
  .autocommit { partitionId := 1, txn := ⟨⟨1, 1, 3⟩, [⟨0, some (.readRange 16 [0] [9] 10)⟩], []⟩ }

def readerConfig : ReaderConfig := { maxIteratorResults := 100, skipCorruptedData := false }

/-- The leader of an empty partition answers a range read with a status that its client
refuses. -/
theorem reply_empty_range : readKeys.validate = none ∧
    ∃ status, (leader.handle some readerConfig (leaderAfter { maxTimestamp := 2 } rfl)
        readKeys).2 = some (.ok status) ∧
      status.validate = some
        "TxnStatus.ActionStatus is invalid error ActionStatus success with empty results" :=
  ⟨by decide, _, rfl, by decide⟩

/-- The same read once key 1 was written. -/
theorem reply_valid_iff_written : ∃ status, (leader.handle some readerConfig (leaderAfter
        { autocommit := [⟨0, ⟨1, 1, 1⟩, [⟨0, some (.upsert 16 [1] [])⟩], []⟩] } rfl)
        readKeys).2 = some (.ok status) ∧ status.validate = none := by
  refine ⟨_, rfl, (reply_valid_iff (n := leader) (r := readKeys) (by decide) rfl).mpr ?_⟩
  decide

end Scout.Txn
