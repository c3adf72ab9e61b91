import Scout.Data.Validate
import Scout.Lib.Runs
import Scout.Storage.Breaker
import Scout.Txn.Validation

/-!
The log of a partition over the in-memory engine. `ApplyBatch` reads the engine while it
validates and ends in one `Put`; a `Put` that is refused shuts the process down, on every
replica and again on every replay. All writes of a txn carry one timestamp and the engine keeps
its records immutable, so a txn that writes a key twice with different values is such a poison.
The locks and the clock exclude every other one.
-/

namespace Scout.Txn

open Data Mvcc Lib

/-! ## Batches over any engine -/

/-- `ApplyBatch` but for its `Put`: the state it leaves and the records that it puts. -/
def Manager.applyBatchOn (r : Reads) (m : Manager) (now : Int) (batch : TxnBatch) :
    Manager × List Record :=
  let x := m.runCmds r (batchCmds batch)
  (x.1.finish x.2 batch.maxTimestamp now, x.2.flatMap Outcome.writes)

/-- **On the default engine these are the commands of `Manager`.** -/
theorem applyBatchOn_store (m : Manager) (db : Store) (index : Nat) (now : Int) (batch : TxnBatch) :
    (m.applyBatch db index now batch).1 = (m.applyBatchOn (storeReads db) now batch).1 ∧
      (m.applyBatch db index now batch).2.1 =
        db.put index (m.applyBatchOn (storeReads db) now batch).2 := by
  rw [applyBatch_manager, applyBatch_store, Manager.applyBatchOn]
  exact ⟨rfl, rfl⟩

/-! ## The log over the in-memory engine -/

/-- A database with this partition only; the engine looks at no other. -/
def alone (pid : Nat) (part : Inmem.Partition) : Emulated.DB := (∅ : Emulated.DB).insert pid part

/-- The reads of the in-memory engine. One that failed would end the process; none does, see
`Engine.reads`. -/
def inmemReads (pid : Nat) (part : Inmem.Partition) : Reads where
  exists_ t a := (Emulated.exists_ (alone pid part) pid t a).toOption.getD false
  existsInRange t start stop :=
    (Emulated.existsInRange (alone pid part) pid t start stop).toOption.getD false

/-- `FSM.Apply` over the in-memory engine; `none` when `DBBreaker` shuts the process down. -/
def applyInmem (retries : Nat) (s : Manager × Inmem.Partition) (e : Entry) :
    Option (Manager × Inmem.Partition) :=
  let x := s.1.applyBatchOn (inmemReads s.1.pid s.2) e.now e.batch
  (Emulated.breakerPut retries s.2 e.index x.2).map fun part => (x.1, part)

/-- A partition before its first log entry, once `InitPartition` has created it. -/
def newInmem (pid : Nat) (cleanAfter : Int) : Manager × Inmem.Partition :=
  (newManager pid cleanAfter, {})

/-! ## Txns that write a key with one value -/

/-- All writes of the txn to one key store the same value, or all delete it. -/
def SingleValued (txn : Txn) : Prop := Keyed (buildWriteRecords 0 txn)
  deriving Decidable

def newTxns (b : TxnBatch) : List Txn :=
  b.autocommit.map Autocommit.txn ++ b.prepare.map Prepare.txn

theorem writeRecord_timestamp (t : Nat) (a : Action) :
    writeRecord t a = (writeRecord 0 a).map fun r => { r with timestamp := t } := by
  unfold writeRecord
  split <;> rfl

theorem SingleValued.keyed {txn : Txn} (h : SingleValued txn) (t : Nat) :
    Keyed (buildWriteRecords t txn) := by
  have hrec : ∀ r ∈ buildWriteRecords t txn,
      ∃ q ∈ buildWriteRecords 0 txn, r = { q with timestamp := t } := by
    intro r hr
    obtain ⟨a, ha, hra⟩ := List.mem_filterMap.mp hr
    rw [writeRecord_timestamp] at hra
    obtain ⟨q, hq, rfl⟩ := Option.map_eq_some_iff.mp hra
    exact ⟨q, List.mem_filterMap.mpr ⟨a, ha, hq⟩, rfl⟩
  intro r hr x hx ha _
  obtain ⟨q, hq, rfl⟩ := hrec r hr
  obtain ⟨y, hy, rfl⟩ := hrec x hx
  have hzero : q.timestamp = y.timestamp := by
    rw [(mem_buildWriteRecords hq).1, (mem_buildWriteRecords hy).1]
  rw [h q hq y hy ha hzero]

/-! ## What the commands keep -/

/-- The state and the versions of a partition whose clock stands at `f`: no open txn can write
an address at or before the time of a version there, and versions with equal address and
timestamp are equal. -/
structure Filed (f : Nat) (m : Manager) (rs : List Record) : Prop where
  coherent : Coherent m
  stamped : ∀ id p, Active m id p → 0 < p.timestamp
  single : ∀ id p, Active m id p → SingleValued p.txn
  settled : ∀ r ∈ rs, Settled m f r.address r.timestamp
  positive : ∀ r ∈ rs, 0 < r.timestamp
  keyed : Keyed rs

variable {f : Nat} {m : Manager} {rs : List Record} {c : Cmd}

theorem Filed.writes {db : Reads} {m' : Manager} {o : Outcome} (h : Filed f m rs)
    (he : Change db m c m' o) (hf : c.Fits f) (hs : ∀ txn ∈ c.newTxn, SingleValued txn) :
    Keyed o.writes ∧ ∀ r ∈ o.writes, 0 < r.timestamp := by
  cases he with
  | autocommit c =>
    refine ⟨(hs c.txn rfl).keyed _, fun r hr => ?_⟩
    rw [(mem_buildWriteRecords hr).1]
    exact Nat.lt_of_le_of_lt (Nat.zero_le f) hf
  | commit c s p hst hp hg =>
    obtain ⟨hfin, hle⟩ := hg.le h.coherent hst hp
    have hact : Active m c.id p := ⟨hp, s, hst, hfin⟩
    refine ⟨(h.single c.id p hact).keyed _, fun r hr => ?_⟩
    rw [(mem_buildWriteRecords hr).1]
    exact (h.stamped c.id p hact).trans_le hle
  | _ => exact ⟨nofun, nofun⟩

/-- **Step.** -/
theorem Filed.step {db : Reads} {m' : Manager} {o : Outcome} (h : Filed f m rs)
    (he : Change db m c m' o) (hf : c.Fits f) (hs : ∀ txn ∈ c.newTxn, SingleValued txn) :
    Filed (c.advance f) m' (rs ++ o.writes) where
  coherent := h.coherent.step he
  stamped := by
    intro id p hp
    rcases he.active hp with ⟨q, hq, _, hts⟩ | ⟨x, rfl, _, _, hts, _⟩
    · rw [← hts]
      exact h.stamped id q hq
    · rw [hts]
      exact Nat.lt_of_le_of_lt (Nat.zero_le f) hf
  single := by
    intro id p hp
    rcases he.active hp with ⟨q, hq, htxn, _⟩ | ⟨x, rfl, _, htxn, _⟩
    · rw [← htxn]
      exact h.single id q hq
    · rw [htxn]
      exact hs x.txn rfl
  settled := by
    intro r hr
    rcases List.mem_append.mp hr with hr | hr
    · exact ((h.settled r hr).step h.coherent he hf).1
    · exact he.writes_settled h.coherent hf r hr
  positive := by
    intro r hr
    rcases List.mem_append.mp hr with hr | hr
    · exact h.positive r hr
    · exact (h.writes he hf hs).2 r hr
  keyed := by
    -- a new version at the address of an old one is later than it
    have hlater : ∀ r ∈ rs, ∀ x ∈ o.writes, r.address = x.address → r.timestamp < x.timestamp :=
      fun r hr x hx ha => ((h.settled r hr).step h.coherent he hf).2 x hx ha.symm
    intro r hr x hx ha ht
    rcases List.mem_append.mp hr with hr | hr <;> rcases List.mem_append.mp hx with hx | hx
    · exact h.keyed r hr x hx ha ht
    · exact absurd ht (hlater r hr x hx ha).ne
    · exact absurd ht (hlater x hx r hr ha.symm).ne'
    · exact (h.writes he hf hs).1 r hr x hx ha ht

theorem Filed.mono {f' : Nat} (h : Filed f m rs) (hf : f ≤ f') : Filed f' m rs :=
  { h with settled := fun r hr => (h.settled r hr).mono hf }

theorem mem_newTxns {b : TxnBatch} {txn : Txn} (hc : c ∈ batchCmds b) (ht : txn ∈ c.newTxn) :
    txn ∈ newTxns b := by
  rw [mem_batchCmds] at hc
  unfold newTxns
  rw [List.mem_append, List.mem_map, List.mem_map]
  cases c with
  | autocommit x =>
    cases ht
    exact .inl ⟨x, hc, rfl⟩
  | prepare x =>
    cases ht
    exact .inr ⟨x, hc, rfl⟩
  | _ => cases ht

variable {lo hi : Nat}

/-- **Batch.** -/
theorem Filed.batch {b : TxnBatch} (h : Filed lo m rs) (hb : Stamped lo b hi)
    (hs : ∀ txn ∈ newTxns b, SingleValued txn) (r : Reads) (now : Int) :
    Filed hi (m.applyBatchOn r now b).1 (rs ++ (m.applyBatchOn r now b).2) := by
  obtain ⟨hfit, hhi⟩ := hb.fits
  have hrun := loop_history (Manager.applyCmd r)
    (fun pre m os => Filed (frontier lo pre) m (rs ++ os.flatMap Outcome.writes))
    (batchCmds b) m (by simpa [frontier] using h) (by
      intro pre c post m os e ih
      rw [e] at hfit
      have hc : c ∈ batchCmds b := by simp [e]
      have hnext := ih.step (applyCmd_change r m c) hfit.at fun txn ht =>
        hs txn (mem_newTxns hc ht)
      rw [frontier_snoc]
      simpa [List.append_assoc] using hnext)
  have hfinal := runCmds_completion_final m r (batchCmds b)
  have hend := hrun.mono hhi
  -- the tail of the batch opens no txn
  refine ⟨hend.coherent.finish _ _ hfinal, ?_, ?_, ?_, hend.positive, hend.keyed⟩
  · exact fun id p hp => hend.stamped id p (finish_active hp hfinal)
  · exact fun id p hp => hend.single id p (finish_active hp hfinal)
  · intro x hx
    exact ⟨(hend.settled x hx).le, fun id p hp =>
      (hend.settled x hx).later id p (finish_active hp hfinal)⟩

theorem filed_new (f pid : Nat) (cleanAfter : Int) : Filed f (newManager pid cleanAfter) [] where
  coherent := coherent_new pid cleanAfter
  stamped := fun _ _ h => by cases h.entry
  single := fun _ _ h => by cases h.entry
  settled := nofun
  positive := nofun
  keyed := nofun

/-- **Log**, over the default engine. -/
theorem Filed.log {s : Manager × Store} {es : List Entry} (h : Filed lo s.1 rs)
    (hc : Chain lo (es.map Entry.batch) hi)
    (hs : ∀ e ∈ es, ∀ txn ∈ newTxns e.batch, SingleValued txn) :
    Filed hi (applyLog s es).1.1 (rs ++ logWrites s es) := by
  induction es generalizing s rs lo with
  | nil =>
    rw [logWrites, List.append_nil]
    exact h.mono hc.le
  | cons e es ih =>
    rw [List.map_cons] at hc
    cases hc with
    | cons hle hb hbs =>
      have hstep := (h.mono hle).batch hb (hs e (by simp)) (storeReads s.2) e.now
      rw [← (applyBatchOn_store s.1 s.2 e.index e.now e.batch).1, Manager.applyBatchOn]
        at hstep
      have hrest := ih (s := (applyEntry s e).1) hstep hbs fun x hx => hs x (by simp [hx])
      rw [List.append_assoc] at hrest
      exact hrest

/-! ## The log never poisons the engine -/

structure Engine (f : Nat) (s : Manager × Inmem.Partition) : Prop where
  versions : ∃ rs, Filed f s.1 rs ∧ Emulated.Holds s.2 rs

theorem engine_new (f pid : Nat) (cleanAfter : Int) : Engine f (newInmem pid cleanAfter) where
  versions := ⟨[], filed_new f pid cleanAfter, fun x => by simp [newInmem]⟩

variable {s : Manager × Inmem.Partition}

theorem Engine.reads (h : Engine f s) (pid : Nat) :
    (∀ t a, ∃ b, Emulated.exists_ (alone pid s.2) pid t a = .ok b) ∧
      ∀ t start stop, ∃ b, Emulated.existsInRange (alone pid s.2) pid t start stop = .ok b := by
  obtain ⟨rs, _, hrs⟩ := h.versions
  have hdb : (alone pid s.2).lookup pid = some s.2 := AList.lookup_insert _
  exact ⟨hrs.exists_ok hdb, hrs.existsInRange_ok hdb⟩

/-- **Entry.** A stamped batch of single-valued txns is applied. -/
theorem Engine.entry {e : Entry} (h : Engine lo s) (hb : Stamped lo e.batch hi)
    (hs : ∀ txn ∈ newTxns e.batch, SingleValued txn) (retries : Nat) :
    ∃ s', applyInmem retries s e = some s' ∧ Engine hi s' := by
  obtain ⟨rs, hf, hrs⟩ := h.versions
  have hnext := hf.batch hb hs (inmemReads s.1.pid s.2) e.now
  obtain ⟨out, hput, hout⟩ := Emulated.breakerPut_keyed hrs hnext.keyed
    (fun r hr => hnext.positive r (List.mem_append_right _ hr)) retries e.index
  exact ⟨_, by rw [applyInmem, hput]; rfl, ⟨_, hnext, hout⟩⟩

theorem Engine.log {es : List Entry} (h : Engine lo s) (hc : Chain lo (es.map Entry.batch) hi)
    (hs : ∀ e ∈ es, ∀ txn ∈ newTxns e.batch, SingleValued txn) (retries : Nat) :
    ∃ s', runSteps (applyInmem retries) s es = some s' ∧ Engine hi s' := by
  induction es generalizing s lo with
  | nil =>
    obtain ⟨rs, hf, hrs⟩ := h.versions
    exact ⟨s, rfl, ⟨rs, hf.mono hc.le, hrs⟩⟩
  | cons e es ih =>
    rw [List.map_cons] at hc
    cases hc with
    | cons hle hb hbs =>
      obtain ⟨rs, hf, hrs⟩ := h.versions
      have hnow : Engine _ s := ⟨rs, hf.mono hle, hrs⟩
      obtain ⟨s₁, h₁, he₁⟩ := hnow.entry hb (hs e (by simp)) retries
      obtain ⟨s', h', he'⟩ := ih he₁ hbs fun x hx => hs x (by simp [hx])
      exact ⟨s', by rw [runSteps, h₁]; exact h', he'⟩

/-- **No log of single-valued txns poisons the partition.** Whatever requests the writer has
served, every entry of its log is applied over the in-memory engine, and after it every read is
answered. -/
theorem log_never_poisons (retries pid : Nat) (cleanAfter : Int) (clock : Clock) (es : List Event)
    (hs : ∀ e ∈ (Writer.run { clock } es).log, ∀ txn ∈ newTxns e.batch, SingleValued txn) :
    ∃ s, runSteps (applyInmem retries) (newInmem pid cleanAfter) (Writer.run { clock } es).log =
        some s ∧ (∀ t a, ∃ b, Emulated.exists_ (alone pid s.2) pid t a = .ok b) ∧
      ∀ t start stop, ∃ b, Emulated.existsInRange (alone pid s.2) pid t start stop = .ok b := by
  obtain ⟨s, hrun, he⟩ := (engine_new clock.last pid cleanAfter).log (writer_chain clock es) hs
    retries
  exact ⟨s, hrun, he.reads pid⟩

/-! ## Two values in one txn -/

/-- One upsert per value, all of one key. -/
def upserts (timestamp : Nat) (values : List Bytes) : Txn :=
  ⟨⟨1, 1, timestamp⟩, values.mapIdx fun i v => ⟨i, some (.upsert 16 [1] v)⟩, []⟩

/-- A valid txn that writes a key with two values is refused by the engine at every attempt. -/
theorem two_values_poison : (upserts 1 [[1], [2]]).validate = none ∧
    ∀ retries, runSteps (applyInmem retries) (newInmem 1 0)
      (logOf [.autocommit (upserts 1 [[1], [2]]), .flush [] (some (1, 0))]) = none := by
  refine ⟨by decide, fun retries => ?_⟩
  have hlog : logOf [.autocommit (upserts 1 [[1], [2]]), .flush [] (some (1, 0))] =
      [⟨1, 0, { autocommit := [⟨2, upserts 1 [[1], [2]]⟩], maxTimestamp := 2 }⟩] := rfl
  -- the first attempt leaves the first version behind, which the others find
  have hput : Emulated.breakerPut retries {} 1 (buildWriteRecords 2 (upserts 1 [[1], [2]])) =
      none := by
    have hfirst : ∃ err, Emulated.put {} 1 (buildWriteRecords 2 (upserts 1 [[1], [2]])) =
        (⟨0, [⟨⟨16, [1], 2⟩, [10, 1, 1, 0]⟩]⟩, some err) := ⟨_, rfl⟩
    have hagain : ∃ err, Emulated.put ⟨0, [⟨⟨16, [1], 2⟩, [10, 1, 1, 0]⟩]⟩ 1
        (buildWriteRecords 2 (upserts 1 [[1], [2]])) =
          (⟨0, [⟨⟨16, [1], 2⟩, [10, 1, 1, 0]⟩]⟩, some err) := ⟨_, rfl⟩
    obtain ⟨_, h₁⟩ := hfirst
    obtain ⟨_, h₂⟩ := hagain
    obtain ⟨err, hall⟩ := retry_fails
      (fun p => Emulated.put p 1 (buildWriteRecords 2 (upserts 1 [[1], [2]]))) h₁ h₂ retries
    rw [Emulated.breakerPut, hall]
  rw [hlog, runSteps]
  have hwrites : (Manager.applyBatchOn (inmemReads 1 {}) (newManager 1 0) 0
      { autocommit := [⟨2, upserts 1 [[1], [2]]⟩], maxTimestamp := 2 }).2 =
      buildWriteRecords 2 (upserts 1 [[1], [2]]) := rfl
  have hstep : applyInmem retries (newInmem 1 0)
      ⟨1, 0, { autocommit := [⟨2, upserts 1 [[1], [2]]⟩], maxTimestamp := 2 }⟩ = none := by
    simp only [applyInmem]
    rw [show (newInmem 1 0).1 = newManager 1 0 from rfl, show (newManager 1 0).pid = 1 from rfl,
      show (newInmem 1 0).2 = {} from rfl, hwrites, hput]
    rfl
  rw [hstep]
  rfl

/-- The same value twice, then another txn with another value. -/
theorem log_never_poisons_repeated : ∃ s, runSteps (applyInmem 2) (newInmem 1 0)
      (logOf [.autocommit (upserts 1 [[1], [1]]), .flush [] (some (1, 0)),
        .autocommit (upserts 2 [[2]]), .flush [] (some (2, 0))]) = some s ∧
      ∃ b, Emulated.exists_ (alone 1 s.2) 1 0 ⟨16, [1]⟩ = .ok b := by
  obtain ⟨s, hs, hread, _⟩ := log_never_poisons 2 1 0 ⟨1, Nat.one_pos⟩
    [.autocommit (upserts 1 [[1], [1]]), .flush [] (some (1, 0)),
      .autocommit (upserts 2 [[2]]), .flush [] (some (2, 0))] (by decide)
  exact ⟨s, hs, hread 0 ⟨16, [1]⟩⟩

end Scout.Txn
