import Scout.Txn.MaxTimestamp

/-!
Read-only txns on one partition (`reader.go`, `manager_locks.go`): the safe
timestamp, what a read at a timestamp returns, and what later batches can do to
it. Decoding of a stored value is a parameter; values that fail to decode are
reported as the source does.
-/

namespace Scout.Txn

open Data Mvcc Lib

/-! ## Reads -/

structure ReaderConfig where
  maxIteratorResults : Nat
  skipCorruptedData : Bool

/-- `status.ActionStatus[id] = a`; assigning to the nil map ends in a panic. -/
def setActionStatus (status : TxnStatus) (a : ActionStatus) : Option TxnStatus :=
  status.actionStatus.map fun all =>
    { status with actionStatus := some ((a.id, a) :: all.filter fun x => x.1 != a.id) }

def getPointReadAddrs (txn : Txn) : List (Nat × Address) :=
  txn.actions.filterMap fun a =>
    match a.payload with
    | some (.read ks k) => some (a.id, ⟨ks, k⟩)
    | _ => none

section Decode

variable (decodeValue : Bytes → Option Bytes) (cfg : ReaderConfig)

def pointStatus (id : Nat) (record : Option Record) : ActionStatus :=
  match record with
  | none => { id, code := .keyNotFound }
  | some r =>
    match decodeValue r.value with
    | none => { id, code := .corruptedData }
    | some v => { id, code := .success, results := [v] }

/-- The iteration of `readRange` with the results collected so far. -/
def iterate (maxResults : Nat) : List Bytes → List Record → Code × List Bytes
  | results, [] => (.success, results)
  | results, r :: rs =>
    match decodeValue r.value with
    | none =>
      if !cfg.skipCorruptedData then (.corruptedData, []) else iterate maxResults results rs
    | some v =>
      if (results ++ [v]).length = maxResults then (.success, results ++ [v])
      else iterate maxResults (results ++ [v]) rs

def readRange (db : Store) (timestamp keyspace : Nat) (startKey endKey : Bytes)
    (maxResults : Nat) : Code × List Bytes :=
  iterate decodeValue cfg (min maxResults cfg.maxIteratorResults) []
    (db.getRange timestamp ⟨keyspace, startKey⟩ ⟨keyspace, endKey⟩)

/-- One step of the loop over range reads. -/
def fetchRange (db : Store) (status : TxnStatus) (a : Action) : Option TxnStatus :=
  match a.payload with
  | some (.readRange ks s e n) =>
    let r := readRange decodeValue cfg db status.timestamp ks s e n
    setActionStatus status { id := a.id, code := r.1, results := r.2 }
  | _ => some status

/-- Point reads with one `Get`, then the range reads. -/
def fetchResults (db : Store) (txn : Txn) (status : TxnStatus) : Option TxnStatus := do
  let points := getPointReadAddrs txn
  let records := db.get status.timestamp (points.map Prod.snd)
  let status ← (points.zip records).foldlM
    (fun st x => setActionStatus st (pointStatus decodeValue x.1.1 x.2)) status
  txn.actions.foldlM (fetchRange decodeValue cfg db) status

/-- The read-only txn executed at a timestamp, as `AutocommitSnapshotRead` and
`CommitReadOnly` do once the timestamp passed the check. -/
def readAt (db : Store) (txn : Txn) (timestamp : Nat) : Option TxnStatus :=
  fetchResults decodeValue cfg db txn (newEmptyStatus txn timestamp .committed)

def autocommitReadOnly (m : Manager) (db : Store) (txn : Txn) : Option TxnStatus :=
  readAt decodeValue cfg db txn (m.getSafeTimestamp txn).1

end Decode

def prepareReadOnly (m : Manager) (txn : Txn) : TxnStatus :=
  newStatus txn.id (m.getSafeTimestamp txn).1 .prepared

/-! ## What a read depends on -/

section Frame

variable {decodeValue : Bytes → Option Bytes} {cfg : ReaderConfig} {s s' : TxnStatus}

theorem setActionStatus_timestamp {a : ActionStatus} (h : setActionStatus s a = some s') :
    s'.timestamp = s.timestamp := by
  obtain ⟨all, _, rfl⟩ := Option.map_eq_some_iff.mp h
  rfl

theorem fetchRange_timestamp {db : Store} {a : Action}
    (h : fetchRange decodeValue cfg db s a = some s') : s'.timestamp = s.timestamp := by
  unfold fetchRange at h
  split at h
  · exact setActionStatus_timestamp h
  · cases h
    rfl

theorem foldlM_timestamp {α : Type} {f : TxnStatus → α → Option TxnStatus}
    (hf : ∀ s x s', f s x = some s' → s'.timestamp = s.timestamp) {xs : List α}
    (h : xs.foldlM f s = some s') : s'.timestamp = s.timestamp := by
  induction xs generalizing s with
  | nil =>
    cases h
    rfl
  | cons x xs ih =>
    rw [List.foldlM_cons] at h
    obtain ⟨m, hm, hrest⟩ := Option.bind_eq_some_iff.mp h
    rw [ih hrest, hf _ _ _ hm]

theorem fetchResults_timestamp {db : Store} {txn : Txn}
    (h : fetchResults decodeValue cfg db txn s = some s') : s'.timestamp = s.timestamp := by
  obtain ⟨m, hm, hrest⟩ := Option.bind_eq_some_iff.mp h
  rw [foldlM_timestamp (fun _ _ _ h => fetchRange_timestamp h) hrest,
    foldlM_timestamp (fun _ _ _ h => setActionStatus_timestamp h) hm]

theorem foldlM_congr_timestamp {α : Type} {f g : TxnStatus → α → Option TxnStatus} {t : Nat}
    {xs : List α} (hf : ∀ s x s', f s x = some s' → s'.timestamp = s.timestamp)
    (hfg : ∀ s, s.timestamp = t → ∀ x ∈ xs, f s x = g s x) (hs : s.timestamp = t) :
    xs.foldlM f s = xs.foldlM g s := by
  induction xs generalizing s with
  | nil => rfl
  | cons x xs ih =>
    rw [List.foldlM_cons, List.foldlM_cons, ← hfg s hs x (by simp)]
    cases h : f s x with
    | none => rfl
    | some s' =>
      exact ih (fun s hs y hy => hfg s hs y (by simp [hy])) (by rw [hf _ _ _ h, hs])

theorem mem_getPointReadAddrs {txn : Txn} {x : Nat × Address} (h : x ∈ getPointReadAddrs txn) :
    txn.reads x.2 = true := by
  obtain ⟨a, ha, hx⟩ := List.mem_filterMap.mp h
  refine List.any_eq_true.mpr ⟨a, ha, ?_⟩
  unfold Action.reads
  split at hx
  · rename_i hp
    cases hx
    simp [hp]
  · cases hx

/-- **Frame rule.** The result of a read is fixed by the visible versions of
the addresses it covers. -/
theorem readAt_congr {db db' : Store} {txn : Txn} {t : Nat} (h : ∀ a, txn.reads a = true →
      visible db.records (readTimestamp t) a = visible db'.records (readTimestamp t) a) :
    readAt decodeValue cfg db txn t = readAt decodeValue cfg db' txn t := by
  have hget : db.get t ((getPointReadAddrs txn).map Prod.snd) =
      db'.get t ((getPointReadAddrs txn).map Prod.snd) := by
    refine List.map_congr_left ?_
    intro a ha
    obtain ⟨x, hx, rfl⟩ := List.mem_map.mp ha
    exact h _ (mem_getPointReadAddrs hx)
  have hrange : ∀ s : TxnStatus, s.timestamp = t → ∀ a ∈ txn.actions,
      fetchRange decodeValue cfg db s a = fetchRange decodeValue cfg db' s a := by
    intro s hs a ha
    unfold fetchRange
    split
    · rename_i ks start stop n hp
      have hr : db.getRange t ⟨ks, start⟩ ⟨ks, stop⟩ = db'.getRange t ⟨ks, start⟩ ⟨ks, stop⟩ := by
        refine getRange_congr ?_
        intro x hx
        rw [inSpan_same] at hx
        exact h x (List.any_eq_true.mpr ⟨a, ha, by simp [Action.reads, hp, hx]⟩)
      simp only [readRange, hs, hr]
    · rfl
  have ht : (newEmptyStatus txn t .committed).timestamp = t := rfl
  simp only [readAt, fetchResults, ht, hget]
  refine Option.bind_congr ?_
  intro s hs
  refine foldlM_congr_timestamp (fun _ _ _ h => fetchRange_timestamp h) hrange ?_
  rw [foldlM_timestamp (fun _ _ _ h => setActionStatus_timestamp h) hs, ht]

end Frame

/-! ## The safe timestamp -/

/-- An open txn that holds a lock against one of `ls`. -/
structure Conflicts (m : Manager) (ls : List Lock) (id : TxnId) (p : Prepared) : Prop where
  active : Active m id p
  clash : ∃ l ∈ ls, ∃ k ∈ p.locks, l.compatibleWith k = false

variable {m : Manager}

/-- The entries that `safeTimestampForLock` does not skip. -/
theorem conflicts_iff (hm : Coherent m) (l : Lock) (id : TxnId) (p : Prepared)
    (hp : m.prepared.lookup id = some p) : Conflicts m [l] id p ↔
      p.locksReleased = false ∧ m.isFinal id = false ∧
        (p.locks.any fun k => !l.compatibleWith k) = true := by
  have hclash : (∃ l' ∈ [l], ∃ k ∈ p.locks, l'.compatibleWith k = false) ↔
      (p.locks.any fun k => !l.compatibleWith k) = true := by
    simp [List.any_eq_true]
  constructor
  · rintro ⟨ha, hc⟩
    obtain ⟨s, hs, hf⟩ := ha.open_status
    exact ⟨(ha.held hm).1, by simp [Manager.isFinal, hs, hf], hclash.mp hc⟩
  · rintro ⟨hr, hf, hc⟩
    obtain ⟨s, hs⟩ := (hm.record id).has_status p hp
    exact ⟨⟨hp, s, hs, by simpa [Manager.isFinal, hs] using hf⟩, hclash.mpr hc⟩

theorem le_safeTimestampForLock (hm : Coherent m) (l : Lock) (x : Nat) :
    x ≤ m.safeTimestampForLock l ↔
      x ≤ maxUint64 ∧ ∀ id p, Conflicts m [l] id p → x ≤ p.timestamp := by
  have hfun : m.safeTimestampForLock l = m.prepared.entries.foldl (fun r e =>
      if !e.2.locksReleased && !m.isFinal e.1 && e.2.locks.any (fun k => !l.compatibleWith k)
      then min r e.2.timestamp else r) maxUint64 := by
    unfold Manager.safeTimestampForLock
    congr 1
    funext r e
    cases e.2.locksReleased <;> cases m.isFinal e.1 <;> simp
  rw [hfun, le_foldl_min_iff]
  refine and_congr_right fun _ => ?_
  constructor
  · intro h id p hc
    refine h ⟨id, p⟩ ((mem_entries_iff _ _ _).mpr hc.active.entry) ?_
    obtain ⟨h1, h2, h3⟩ := (conflicts_iff hm l id p hc.active.entry).mp hc
    simp [h1, h2, h3]
  · intro h e he hc
    simp only [Bool.and_eq_true, Bool.not_eq_true'] at hc
    have hp := (mem_entries_iff _ _ _).mp he
    exact h e.1 e.2 ((conflicts_iff hm l e.1 e.2 hp).mpr ⟨hc.1.1, hc.1.2, hc.2⟩)

theorem le_conflicting (hm : Coherent m) (ls : List Lock) (x init : Nat) (hi : init ≤ maxUint64) :
    x ≤ ls.foldl (fun c lock => min c (m.safeTimestampForLock lock)) init ↔
      x ≤ init ∧ ∀ id p, Conflicts m ls id p → x ≤ p.timestamp := by
  induction ls generalizing init with
  | nil =>
    refine (and_iff_left ?_).symm
    rintro id p ⟨_, l, hl, _⟩
    cases hl
  | cons l ls ih =>
    rw [List.foldl_cons, ih _ ((min_le_left _ _).trans hi), le_min_iff, le_safeTimestampForLock hm]
    constructor
    · rintro ⟨⟨h1, _, h2⟩, h3⟩
      refine ⟨h1, ?_⟩
      rintro id p ⟨ha, l', hl', hk⟩
      rcases List.mem_cons.mp hl' with rfl | hl'
      · exact h2 id p ⟨ha, l', by simp, hk⟩
      · exact h3 id p ⟨ha, l', hl', hk⟩
    · rintro ⟨h1, h2⟩
      refine ⟨⟨h1, h1.trans hi, ?_⟩, ?_⟩
      · rintro id p ⟨ha, l', hl', hk⟩
        exact h2 id p ⟨ha, l', by simp_all, hk⟩
      · rintro id p ⟨ha, l', hl', hk⟩
        exact h2 id p ⟨ha, l', by simp [hl'], hk⟩

/-- The prepare timestamps of the open txns are neither zero nor the marker of no conflict. -/
def OpenWithin (m : Manager) : Prop :=
  ∀ id p, Active m id p → 0 < p.timestamp ∧ p.timestamp < maxUint64

theorem OpenWithin.entry {s : Manager × Store} {e : Entry} (h : OpenWithin s.1)
    (he : ∀ x ∈ e.batch.prepare, 0 < x.timestamp ∧ x.timestamp < maxUint64) :
    OpenWithin (applyEntry s e).1.1 := by
  have hrun : OpenWithin (s.1.runCmds s.2 (batchCmds e.batch)).1 := by
    refine loop_invariant (Manager.applyCmd s.2) (fun m _ => OpenWithin m) _ _ [] h ?_
    intro m _ c hc ih id p hp
    rcases (applyCmd_change s.2 m c).active hp with ⟨q, hq, _, hts⟩ | ⟨x, rfl, _, _, hts, _⟩
    · rw [← hts]
      exact ih id q hq
    · rw [hts]
      exact he x ((mem_batchCmds _ _).mp hc)
  exact fun id p hp => hrun id p (applyEntry_active hp)

theorem openWithin_log (pid : Nat) (cleanAfter : Int) {log : List Entry}
    (h : ∀ e ∈ log, ∀ x ∈ e.batch.prepare, 0 < x.timestamp ∧ x.timestamp < maxUint64) :
    OpenWithin (applyLog (newPartition pid cleanAfter) log).1.1 := by
  refine applyLog_invariant (fun s => OpenWithin s.1) _ log (fun _ _ hp => ?_)
    fun _ e he hs => hs.entry (h e he)
  cases hp.entry

/-- **The safe timestamp**: at most the max timestamp, and before every open txn
in conflict. -/
theorem le_safeTimestamp_iff (hm : Coherent m) (h : OpenWithin m) (txn : Txn) (x : Nat) :
    x ≤ (m.getSafeTimestamp txn).1 ↔ x ≤ m.maxTimestamp ∧
      ∀ id p, Conflicts m txn.buildLocks id p → x < p.timestamp := by
  have hle := fun y => le_conflicting hm txn.buildLocks y maxUint64 le_rfl
  unfold Manager.getSafeTimestamp Manager.safeTimestampForLocks
  set c := txn.buildLocks.foldl (fun c lock => min c (m.safeTimestampForLock lock)) maxUint64
  by_cases hc : c = maxUint64
  · -- no conflict, since every open txn was stamped below the largest value
    rw [if_pos hc]
    refine (and_iff_left ?_).symm
    intro id p hp
    have h1 := (hle c).mp le_rfl
    have h2 := h1.2 id p hp
    have h3 := (h id p hp.active).2
    omega
  · rw [if_neg hc]
    have hpos : 1 ≤ c := (hle 1).mpr ⟨by decide, fun id p hp => (h id p hp.active).1⟩
    have hmax : c ≤ maxUint64 := ((hle c).mp le_rfl).1
    simp only [le_min_iff, decUint64_of_pos hpos]
    refine and_congr_right fun _ => ?_
    have hx := hle (x + 1)
    constructor
    · intro hxc
      exact (hx.mp (by omega)).2
    · intro hall
      by_contra hlt
      -- otherwise `x + 1` could only fail to be a bound by exceeding every value
      have hcx : c ≤ x := by omega
      have hnot : ¬ x + 1 ≤ maxUint64 := fun hle' => absurd (hx.mpr ⟨hle', hall⟩) (by omega)
      have hno : ∀ id p, Conflicts m txn.buildLocks id p → maxUint64 ≤ p.timestamp := by
        intro id p hp
        have := hall id p hp
        omega
      have := (hle maxUint64).mpr ⟨le_rfl, hno⟩
      omega

theorem conflicts_of_writes (hm : Coherent m) {txn : Txn} {a : Address} {id : TxnId}
    {p : Prepared} (hr : txn.reads a = true) (hp : Active m id p) (hw : p.txn.writes a = true) :
    Conflicts m txn.buildLocks id p := by
  refine ⟨hp, ?_⟩
  by_contra hno
  push Not at hno
  obtain ⟨l, hl, hc⟩ := txn_reads_lock txn a hr
  have hcomp : Compatible txn.buildLocks p.txn.buildLocks := by
    intro l hl k hk
    rw [← (hp.held hm).2] at hk
    simpa using hno l hl k hk
  rw [writes_not_covered p.txn txn.buildLocks a hcomp l hl hc] at hw
  cases hw

/-- **Below the safe timestamp every address of the reader is settled.** -/
theorem safeTimestamp_settled {f : Nat} {rs : List Record} (h : Frontier f m rs)
    (hf : f < maxUint64) (hmax : m.maxTimestamp ≤ f) {txn : Txn} {t : Nat}
    (ht : t ≤ (m.getSafeTimestamp txn).1) {a : Address} (ha : txn.reads a = true) :
    Settled m f a t := by
  have hopen : OpenWithin m := fun id p hp =>
    ⟨(h.stamped id p hp).1, (h.stamped id p hp).2.trans_lt hf⟩
  obtain ⟨h1, h2⟩ := (le_safeTimestamp_iff h.coherent hopen txn t).mp ht
  exact ⟨h1.trans hmax, fun id p hp hw => h2 id p (conflicts_of_writes h.coherent ha hp hw)⟩

/-! ## Reads in a run -/

theorem chain_prefix {lo hi : Nat} (pid : Nat) (cleanAfter : Int) {pre post : List Entry}
    (h : Chain lo ((pre ++ post).map Entry.batch) hi) : ∃ f, f ≤ hi ∧
      Frontier f (applyLog (newPartition pid cleanAfter) pre).1.1
        (applyLog (newPartition pid cleanAfter) pre).1.2.records ∧
      (applyLog (newPartition pid cleanAfter) pre).1.1.maxTimestamp ≤ f ∧
      Chain f (post.map Entry.batch) hi := by
  rw [List.map_append] at h
  obtain ⟨f, h1, h2⟩ := h.append
  exact ⟨f, h2.le, (frontier_new _ pid cleanAfter).log h1,
    maxTimestamp_le_clock h1 (Nat.zero_le _), h2⟩

/-- **Snapshot reads are stable.** After a state whose safe timestamp for `txn`
reaches `t`, no batch writes an address of `txn` at or before `t`. A read at
`t` keeps its result; timestamp zero asks for the latest version and is no
snapshot. -/
theorem snapshot_read_stable (clock : Clock) (es : List Event) (pid : Nat) (cleanAfter : Int)
    (pre mid post : List Entry) (hlog : (Writer.run { clock } es).log = pre ++ (mid ++ post))
    (hfit : (Writer.run { clock } es).clock.last < maxUint64) (txn : Txn) (t : Nat)
    (ht : t ≤ ((applyLog (newPartition pid cleanAfter) pre).1.1.getSafeTimestamp txn).1) :
    (∀ r ∈ logWrites (applyLog (newPartition pid cleanAfter) pre).1 mid,
      txn.reads r.address = true → t < r.timestamp) ∧ (0 < t → ∀ decodeValue cfg,
      readAt decodeValue cfg (applyLog (newPartition pid cleanAfter) (pre ++ mid)).1.2 txn t =
        readAt decodeValue cfg (applyLog (newPartition pid cleanAfter) pre).1.2 txn t) := by
  obtain ⟨f, hf, hfr, hmax, hchain⟩ := chain_prefix pid cleanAfter (hlog ▸ writer_chain clock es)
  rw [List.map_append] at hchain
  obtain ⟨_, hmid, _⟩ := hchain.append
  have hwrites : ∀ a, txn.reads a = true →
      ∀ r ∈ logWrites (applyLog (newPartition pid cleanAfter) pre).1 mid,
        r.address = a → t < r.timestamp := fun a ha =>
    (safeTimestamp_settled hfr (lt_of_le_of_lt hf hfit) hmax ht ha).log hfr.coherent hmid
  refine ⟨fun r hr ha => hwrites r.address ha r hr rfl, ?_⟩
  intro hpos decodeValue cfg
  refine readAt_congr ?_
  intro a ha
  rw [readTimestamp_of_pos hpos, applyLog_append]
  refine (visible_congr hfr.keyed ?_).symm
  rw [applyLog_records _ mid]
  exact agreeAt_overwriteAll (hwrites a ha)

/-- **When a leader read observes every applied write.** The timestamp of a
read-only txn reaches all writes at its addresses exactly when the max timestamp
has not gone back behind one of them and none of them is at or after an open
txn in conflict with any of the reads. This is so after any log, whichever leaders
have stamped it. -/
theorem leader_read_observes_iff (pid : Nat) (cleanAfter : Int) (log : List Entry)
    (hlog : ∀ e ∈ log, ∀ x ∈ e.batch.prepare, 0 < x.timestamp ∧ x.timestamp < maxUint64)
    (txn : Txn) (decodeValue : Bytes → Option Bytes) (cfg : ReaderConfig) :
    let s := (applyLog (newPartition pid cleanAfter) log).1
    (∀ r ∈ logWrites (newPartition pid cleanAfter) log, txn.reads r.address = true →
      r.timestamp ≤ (prepareReadOnly s.1 txn).timestamp ∧
      ∀ status, autocommitReadOnly decodeValue cfg s.1 s.2 txn = some status →
        r.timestamp ≤ status.timestamp) ↔
    ∀ r ∈ logWrites (newPartition pid cleanAfter) log, txn.reads r.address = true →
      r.timestamp ≤ s.1.maxTimestamp ∧
      ∀ id p, Conflicts s.1 txn.buildLocks id p → r.timestamp < p.timestamp := by
  intro s
  have key := fun x => le_safeTimestamp_iff (coherent_run pid cleanAfter log)
    (openWithin_log pid cleanAfter hlog) txn x
  refine forall_congr' fun r => forall_congr' fun _ => forall_congr' fun _ => ?_
  rw [← key]
  constructor
  · rintro ⟨h, _⟩
    exact h
  · intro h
    refine ⟨h, ?_⟩
    intro status hs
    rw [fetchResults_timestamp hs]
    exact h

/-! ## A hidden write and a moving snapshot -/

/-- Key 0 is prepared at 2, then key 1 is written at 3. -/
def hiddenWriteEvents : List Event :=
  [.prepare ⟨⟨1, 1, 1⟩, [⟨0, some (.upsert 16 [0] [])⟩], [1, 2]⟩, .flush [] (some (1, 0)),
    .autocommit ⟨⟨1, 1, 2⟩, [⟨0, some (.upsert 16 [1] [])⟩], []⟩, .flush [] (some (2, 0))]

def hiddenWrite : Writer := Writer.run { clock := ⟨1, Nat.one_pos⟩ } hiddenWriteEvents

def readBoth : Txn := ⟨⟨1, 1, 3⟩, [⟨0, some (.read 16 [0])⟩, ⟨1, some (.read 16 [1])⟩], []⟩

theorem leader_read_observes_iff_hiddenWrite :
    (∀ e ∈ hiddenWrite.log, ∀ x ∈ e.batch.prepare, 0 < x.timestamp ∧ x.timestamp < maxUint64) ∧
    ((∀ r ∈ logWrites (newPartition 1 0) hiddenWrite.log, readBoth.reads r.address = true →
      r.timestamp ≤ (prepareReadOnly (applyLog (newPartition 1 0) hiddenWrite.log).1.1
        readBoth).timestamp ∧ ∀ status, autocommitReadOnly some ⟨10, false⟩
        (applyLog (newPartition 1 0) hiddenWrite.log).1.1
        (applyLog (newPartition 1 0) hiddenWrite.log).1.2 readBoth = some status →
        r.timestamp ≤ status.timestamp) ↔
    ∀ r ∈ logWrites (newPartition 1 0) hiddenWrite.log, readBoth.reads r.address = true →
      r.timestamp ≤ (applyLog (newPartition 1 0) hiddenWrite.log).1.1.maxTimestamp ∧
      ∀ id p, Conflicts (applyLog (newPartition 1 0) hiddenWrite.log).1.1 readBoth.buildLocks
        id p → r.timestamp < p.timestamp) :=
  ⟨by decide, leader_read_observes_iff 1 0 hiddenWrite.log (by decide) readBoth some ⟨10, false⟩⟩

/-- The write of key 1 is applied at 3, but the read of both keys happens at 1. -/
theorem leader_read_misses_write :
    ¬ ∀ (clock : Clock) (es : List Event) (pid : Nat) (cleanAfter : Int) (txn : Txn),
      (Writer.run { clock } es).clock.last < maxUint64 →
      ∀ r ∈ logWrites (newPartition pid cleanAfter) (Writer.run { clock } es).log,
        txn.reads r.address = true →
        r.timestamp ≤ (prepareReadOnly (applyLog (newPartition pid cleanAfter)
          (Writer.run { clock } es).log).1.1 txn).timestamp := by
  intro h
  have := h ⟨1, Nat.one_pos⟩ hiddenWriteEvents 1 0 readBoth (by decide)
    ⟨⟨16, [1]⟩, 3, mustEncodeValue [], flagEmpty⟩ (by decide) (by decide)
  exact absurd this (by decide)

def firstWriteEvents : List Event :=
  [.autocommit ⟨⟨1, 1, 1⟩, [⟨0, some (.upsert 16 [0] [])⟩], []⟩, .flush [] (some (1, 0))]

/-- A read at zero, the safe timestamp of a fresh partition, changes with the
first write. -/
theorem snapshot_read_moves_at_zero :
    ¬ ∀ (clock : Clock) (es : List Event) (pid : Nat) (cleanAfter : Int)
      (pre mid post : List Entry), (Writer.run { clock } es).log = pre ++ (mid ++ post) →
      (Writer.run { clock } es).clock.last < maxUint64 → ∀ (txn : Txn) (t : Nat),
      t ≤ ((applyLog (newPartition pid cleanAfter) pre).1.1.getSafeTimestamp txn).1 →
      (∀ r ∈ logWrites (applyLog (newPartition pid cleanAfter) pre).1 mid,
        txn.reads r.address = true → t < r.timestamp) ∧ ∀ decodeValue cfg,
        readAt decodeValue cfg (applyLog (newPartition pid cleanAfter) (pre ++ mid)).1.2 txn t =
          readAt decodeValue cfg (applyLog (newPartition pid cleanAfter) pre).1.2 txn t := by
  intro h
  have hread := (h ⟨1, Nat.one_pos⟩ firstWriteEvents 1 0 []
    (logOf firstWriteEvents) [] rfl (by decide) readBoth 0
    (Nat.zero_le _)).2 some ⟨10, false⟩
  exact absurd hread (by decide)

/-- The second batch of the run does not disturb a read at 1. -/
theorem snapshot_read_stable_hiddenWrite :
    (hiddenWrite.clock.last < maxUint64 ∧ 1 ≤ ((applyLog (newPartition 1 0)
      (hiddenWrite.log.take 1)).1.1.getSafeTimestamp readBoth).1) ∧
    (∀ r ∈ logWrites (applyLog (newPartition 1 0) (hiddenWrite.log.take 1)).1
      (hiddenWrite.log.drop 1), readBoth.reads r.address = true → 1 < r.timestamp) ∧
    (0 < 1 → ∀ decodeValue cfg, readAt decodeValue cfg (applyLog (newPartition 1 0)
        (hiddenWrite.log.take 1 ++ hiddenWrite.log.drop 1)).1.2 readBoth 1 =
      readAt decodeValue cfg (applyLog (newPartition 1 0) (hiddenWrite.log.take 1)).1.2
        readBoth 1) :=
  ⟨by decide, snapshot_read_stable _ hiddenWriteEvents 1 0 (hiddenWrite.log.take 1)
    (hiddenWrite.log.drop 1) [] rfl (by decide) readBoth 1 (by decide)⟩

end Scout.Txn
