import Scout.Txn.Service

/-!
The results that a reply carries (`fetchResults` and `readRange` of `reader.go`): how
many values a range read returns, what a status reports of the reads of its txn, and
what becomes of it in the answers that the writer has made. The client's `isLockFailed`
(`client_retry.go`) reads those answers.
-/

namespace Scout.Txn

open Data Mvcc Lib

/-! ## Range reads -/

section Ranges

variable (decodeValue : Bytes → Option Bytes) (cfg : ReaderConfig)

/-- The decodable live values of a range, in key order. -/
def rangeValues (db : Store) (t keyspace : Nat) (startKey endKey : Bytes) : List Bytes :=
  (db.getRange t ⟨keyspace, startKey⟩ ⟨keyspace, endKey⟩).filterMap fun r => decodeValue r.value

/-- How many values a request asks for, 0 standing for no limit of its own. -/
def resultLimit (maxResults : Nat) : Nat :=
  if maxResults = 0 then cfg.maxIteratorResults else min maxResults cfg.maxIteratorResults

variable {decodeValue cfg}

/-- The iteration with corrupted data skipped. The limit is met by equality, so that it
has to be ahead of what was collected; the limit 0 is never met. -/
theorem iterate_skip (hskip : cfg.skipCorruptedData = true) {limit : Nat} {results : List Bytes}
    (hlimit : limit = 0 ∨ results.length < limit) (rs : List Record) :
    iterate decodeValue cfg limit results rs = (.success, results ++
        let values := rs.filterMap fun r => decodeValue r.value
        if limit = 0 then values else values.take (limit - results.length)) := by
  induction rs generalizing results with
  | nil => simp [iterate]
  | cons r rs ih =>
    rw [iterate, List.filterMap_cons]
    cases hd : decodeValue r.value with
    | none =>
      simp only [hskip, Bool.not_true, Bool.false_eq_true, if_false]
      exact ih hlimit
    | some v =>
      have hlen : (results ++ [v]).length = results.length + 1 := by simp
      dsimp only
      split
      · -- the limit is reached with `v`
        rename_i hfull
        have hpos : limit ≠ 0 := by omega
        have hone : limit - results.length = 1 := by omega
        rw [if_neg hpos, hone]
        simp
      · rename_i hmore
        rw [ih (by omega), hlen]
        by_cases h0 : limit = 0
        · simp [h0]
        · have hsucc : limit - results.length = (limit - (results.length + 1)) + 1 := by omega
          simp [h0, hsucc]

theorem readRange_skip (hskip : cfg.skipCorruptedData = true) (db : Store) (t keyspace : Nat)
    (startKey endKey : Bytes) (maxResults : Nat) :
    readRange decodeValue cfg db t keyspace startKey endKey maxResults = (.success,
        let values := rangeValues decodeValue db t keyspace startKey endKey
        if min maxResults cfg.maxIteratorResults = 0 then values
        else values.take (min maxResults cfg.maxIteratorResults)) := by
  unfold readRange
  rw [iterate_skip hskip (by simp; omega)]
  simp [rangeValues]

/-- **Range reads are bounded.** A range read returns the first values up to its limit,
never more than the configured number, exactly when neither limit is 0 or the range has
no more values than the configured number. -/
theorem readRange_bounded_iff (hskip : cfg.skipCorruptedData = true) (db : Store)
    (t keyspace : Nat) (startKey endKey : Bytes) (maxResults : Nat) :
    (readRange decodeValue cfg db t keyspace startKey endKey maxResults =
        (.success, (rangeValues decodeValue db t keyspace startKey endKey).take
          (resultLimit cfg maxResults)) ∧
      (readRange decodeValue cfg db t keyspace startKey endKey maxResults).2.length ≤
        cfg.maxIteratorResults) ↔ (maxResults ≠ 0 ∧ cfg.maxIteratorResults ≠ 0) ∨
      (rangeValues decodeValue db t keyspace startKey endKey).length ≤ cfg.maxIteratorResults := by
  rw [readRange_skip hskip]
  generalize rangeValues decodeValue db t keyspace startKey endKey = values
  unfold resultLimit
  by_cases hmin : min maxResults cfg.maxIteratorResults = 0
  · have hzero : maxResults = 0 ∨ cfg.maxIteratorResults = 0 := by omega
    simp only [hmin, if_true]
    constructor
    · rintro ⟨_, hle⟩
      exact .inr hle
    · rintro (⟨h1, h2⟩ | hle)
      · omega
      · refine ⟨?_, hle⟩
        rw [List.take_of_length_le]
        split <;> omega
  · have hne : maxResults ≠ 0 ∧ cfg.maxIteratorResults ≠ 0 := by omega
    simp only [hmin, if_false, if_neg hne.1, List.length_take, true_and]
    exact iff_of_true (by omega) (.inl hne)

end Ranges

/-- One version of each of the keys 0, …, `n - 1` of a user keyspace. -/
def keysWritten (n : Nat) : Store where
  index := 1
  records := (List.range n).map fun i =>
    ⟨⟨16, [Fin.ofNat 256 i]⟩, 1, [Fin.ofNat 256 i], flagEmpty⟩

/-- The least limit that the configuration accepts. -/
def leastConfig : ReaderConfig := { maxIteratorResults := 100, skipCorruptedData := true }

theorem keysWritten_live {n : Nat} {a : Address}
    (ha : a ∈ (keysWritten n).records.map Record.address) :
    live (keysWritten n).records (readTimestamp 0) a = true := by
  obtain ⟨r, hr, rfl⟩ := List.mem_map.mp ha
  have plain : ∀ x ∈ (keysWritten n).records, x.flags = flagEmpty ∧ x.timestamp = 1 := by
    intro x hx
    obtain ⟨i, _, rfl⟩ := List.mem_map.mp hx
    exact ⟨rfl, rfl⟩
  unfold live visible
  cases hn : newest Record.address Record.timestamp (keysWritten n).records r.address
      (readTimestamp 0) with
  | none =>
    have hlt := newest_none.mp hn r hr rfl
    rw [(plain r hr).2] at hlt
    cases Nat.lt_asymm hlt (by decide)
  | some x =>
    have hflags := (plain x (newest_spec hn).1).1
    simp [hflags, show tombstone flagEmpty = false from rfl]

theorem keysWritten_range {n : Nat} (hn : n ≤ 255) :
    ((keysWritten n).getRange 0 ⟨16, [0]⟩ ⟨16, [255]⟩).length = n := by
  have hval : ∀ i ∈ List.range n, i < 255 ∧ (Fin.ofNat 256 i).val = i := by
    intro i hi
    rw [List.mem_range] at hi
    exact ⟨by omega, Nat.mod_eq_of_lt (by omega)⟩
  have hspan : ∀ a ∈ (keysWritten n).records.map Record.address,
      inSpan ⟨16, [0]⟩ ⟨16, [255]⟩ a = true := by
    intro a ha
    obtain ⟨r, hr, rfl⟩ := List.mem_map.mp ha
    obtain ⟨i, hi, rfl⟩ := List.mem_map.mp hr
    rw [inSpan_same, inRange_iff]
    refine ⟨rfl, ?_, ?_⟩
    · rw [← not_lt, List.cons_lt_cons_iff, Fin.lt_def, (hval i hi).2]
      simp
    · rw [List.cons_lt_cons_iff, Fin.lt_def, (hval i hi).2]
      exact .inl (hval i hi).1
  have hnodup : ((keysWritten n).records.map Record.address).Nodup := by
    rw [keysWritten, List.map_map]
    refine List.Nodup.map_on ?_ List.nodup_range
    intro i hi j hj hij
    have hkey : Fin.ofNat 256 i = Fin.ofNat 256 j := by simpa using hij
    rw [← (hval i hi).2, ← (hval j hj).2, hkey]
  rw [length_getRange, List.filter_eq_self.mpr hspan, hnodup.dedup,
    List.countP_eq_length.mpr fun a ha => keysWritten_live ha]
  simp [keysWritten]

/-- A request that leaves its limit unset reads all 101 keys. -/
theorem readRange_unlimited :
    (readRange some leastConfig (keysWritten 101) 0 16 [0] [255] 0).2.length = 101 := by
  rw [readRange_skip rfl]
  simp [rangeValues, keysWritten_range]

/-- The first values of a range of five. -/
theorem readRange_bounded_iff_limited :
    (readRange some leastConfig (keysWritten 5) 0 16 [0] [255] 3).2 = [[0], [1], [2]] := by
  have h : readRange some leastConfig (keysWritten 5) 0 16 [0] [255] 3 = _ ∧ _ :=
    (readRange_bounded_iff rfl (keysWritten 5) 0 16 [0] [255] 3).mpr (.inl (by decide))
  rw [h.1]
  decide

/-! ## What a status reports -/

def isRead (a : Action) : Bool :=
  match a.payload with
  | some (.read _ _) | some (.readRange _ _ _ _) => true
  | _ => false

section Reports

variable (decodeValue : Bytes → Option Bytes) (cfg : ReaderConfig)

/-- What a read finds in the store at `t`: the value of its key, or the values of its
range. -/
def readStatus (db : Store) (t : Nat) (a : Action) : Option ActionStatus :=
  match a.payload with
  | some (.read ks k) =>
    some (pointStatus decodeValue a.id (visible db.records (readTimestamp t) ⟨ks, k⟩))
  | some (.readRange ks s e n) => some (rangeStatus decodeValue cfg db t ⟨a.id, ks, s, e, n⟩)
  | _ => none

theorem readStatus_isSome (db : Store) (t : Nat) (a : Action) :
    (readStatus decodeValue cfg db t a).isSome = isRead a := by
  unfold readStatus isRead
  split <;> simp_all

/-- The statuses that `fetchResults` assigns, in its order. -/
def readStatuses (db : Store) (t : Nat) (txn : Txn) : List ActionStatus :=
  pointStatuses decodeValue db t txn ++ rangeStatuses decodeValue cfg db t txn

structure ReportsReads (db : Store) (txn : Txn) (s : TxnStatus) : Prop where
  reads : ∀ x, x ∈ s.actionStatus.getD [] ↔
    ∃ a ∈ txn.actions, ∃ st, readStatus decodeValue cfg db s.timestamp a = some st ∧ x = (a.id, st)
  once : ((s.actionStatus.getD []).map Prod.fst).Nodup

variable {decodeValue cfg}

theorem pointStatuses_eq (db : Store) (t : Nat) (txn : Txn) :
    pointStatuses decodeValue db t txn = (getPointReadAddrs txn).map fun x =>
      pointStatus decodeValue x.1 (visible db.records (readTimestamp t) x.2) := by
  unfold pointStatuses Store.get
  generalize getPointReadAddrs txn = points
  induction points with
  | nil => rfl
  | cons x xs ih =>
    simp only [List.map_cons, List.zip_cons_cons]
    rw [← ih]

@[simp] theorem pointStatus_id (id : Nat) (r : Option Record) :
    (pointStatus decodeValue id r).id = id := by
  unfold pointStatus
  split
  · rfl
  · split <;> rfl

variable {db : Store} {t : Nat} {txn : Txn} {st : ActionStatus}

theorem mem_readStatuses : st ∈ readStatuses decodeValue cfg db t txn ↔
      ∃ a ∈ txn.actions, readStatus decodeValue cfg db t a = some st := by
  rw [readStatuses, pointStatuses_eq, List.mem_append, rangeStatuses]
  simp only [getPointReadAddrs, List.mem_map, List.mem_filterMap]
  constructor
  · rintro (⟨x, ⟨a, ha, hx⟩, rfl⟩ | ⟨x, ⟨a, ha, hx⟩, rfl⟩)
    · refine ⟨a, ha, ?_⟩
      unfold readStatus
      split at hx
      · rename_i hp
        cases hx
        rw [hp]
      · cases hx
    · refine ⟨a, ha, ?_⟩
      unfold readStatus
      unfold rangeRead at hx
      split at hx
      · rename_i hp
        cases hx
        rw [hp]
      · cases hx
  · rintro ⟨a, ha, hst⟩
    unfold readStatus at hst
    split at hst
    · rename_i ks k hp
      cases hst
      exact .inl ⟨(a.id, ⟨ks, k⟩), ⟨a, ha, by rw [hp]⟩, rfl⟩
    · rename_i ks s e n hp
      cases hst
      exact .inr ⟨⟨a.id, ks, s, e, n⟩, ⟨a, ha, by rw [rangeRead, hp]⟩, rfl⟩
    · cases hst

theorem readStatus_id {a : Action} (h : readStatus decodeValue cfg db t a = some st) :
    st.id = a.id := by
  unfold readStatus at h
  split at h
  · cases h
    exact pointStatus_id _ _
  · cases h
    rfl
  · cases h

theorem readStatuses_eq_nil :
    readStatuses decodeValue cfg db t txn = [] ↔ ∀ a ∈ txn.actions, isRead a = false := by
  rw [List.eq_nil_iff_forall_not_mem]
  simp only [mem_readStatuses, not_exists, not_and]
  constructor
  · intro h a ha
    rw [← readStatus_isSome decodeValue cfg db t a, Option.isSome_eq_false_iff]
    exact Option.isNone_iff_eq_none.mpr (Option.eq_none_iff_forall_ne_some.mpr fun st => h st a ha)
  · intro h st a ha hst
    have := readStatus_isSome decodeValue cfg db t a
    rw [hst, h a ha] at this
    cases this

/-! ## The map after the assignments -/

def assignAll (all : List (Nat × ActionStatus)) (as : List ActionStatus) :
    List (Nat × ActionStatus) :=
  as.foldl (fun all a => (a.id, a) :: all.filter fun x => x.1 != a.id) all

@[simp] theorem assignAll_nil (all : List (Nat × ActionStatus)) : assignAll all [] = all := rfl

@[simp] theorem assignAll_cons (all : List (Nat × ActionStatus)) (a : ActionStatus)
    (as : List ActionStatus) :
    assignAll all (a :: as) = assignAll ((a.id, a) :: all.filter fun x => x.1 != a.id) as := rfl

variable {all : List (Nat × ActionStatus)} {s : TxnStatus}

theorem setAll_eq (hs : s.actionStatus = some all) (as : List ActionStatus) :
    as.foldlM setActionStatus s = some { s with actionStatus := some (assignAll all as) } := by
  induction as generalizing s all with
  | nil => simp [← hs]
  | cons a as ih =>
    rw [List.foldlM_cons, setActionStatus, hs]
    exact ih rfl

theorem fetchResults_assign (hs : s.actionStatus = some all) :
    fetchResults decodeValue cfg db txn s = some { s with
      actionStatus := some (assignAll all (readStatuses decodeValue cfg db s.timestamp txn)) } := by
  rw [fetchResults_eq]
  exact setAll_eq hs _

theorem fetchResults_nil (hs : s.actionStatus = none) : fetchResults decodeValue cfg db txn s =
      if ∀ a ∈ txn.actions, isRead a = false then some s else none := by
  have heq : fetchResults decodeValue cfg db txn s =
      (readStatuses decodeValue cfg db s.timestamp txn).foldlM setActionStatus s :=
    fetchResults_eq decodeValue cfg db txn s
  split
  · rename_i hno
    rw [heq, readStatuses_eq_nil.mpr hno]
    rfl
  · rename_i hread
    rw [Option.eq_none_iff_forall_ne_some]
    intro s' hs'
    rw [heq] at hs'
    exact hread (readStatuses_eq_nil.mp (setAll_nil_map hs hs').1)

theorem mem_assignAll_keys {id : Nat} (all : List (Nat × ActionStatus)) (as : List ActionStatus) :
    id ∈ (assignAll all as).map Prod.fst ↔ id ∈ all.map Prod.fst ∨ id ∈ as.map ActionStatus.id := by
  induction as generalizing all with
  | nil => simp
  | cons a as ih =>
    rw [assignAll_cons, ih]
    simp only [List.map_cons, List.mem_cons, List.mem_map, List.mem_filter, bne_iff_ne]
    by_cases hid : id = a.id
    · simp [hid]
    constructor
    · rintro ((h | ⟨x, ⟨hx, _⟩, rfl⟩) | h)
      · exact absurd h hid
      · exact .inl ⟨x, hx, rfl⟩
      · exact .inr (.inr h)
    · rintro (⟨x, hx, rfl⟩ | h | h)
      · exact .inl (.inr ⟨x, ⟨hx, hid⟩, rfl⟩)
      · exact absurd h hid
      · exact .inr h

variable {as : List ActionStatus}

theorem assignAll_same (h : ∀ a ∈ as, a.id = st.id) :
    assignAll [(st.id, st)] as = [(st.id, as.getLast?.getD st)] := by
  induction as generalizing st with
  | nil => rfl
  | cons a as ih =>
    obtain ⟨ha, has⟩ := List.forall_mem_cons.mp h
    have hfilter : ([(st.id, st)].filter fun x => x.1 != a.id) = [] := by simp [ha]
    rw [assignAll_cons, hfilter, ih fun b hb => (has b hb).trans ha.symm, ha,
      List.getLast?_cons, Option.getD_some]

theorem assignAll_eq_self (st : ActionStatus) : assignAll [(st.id, st)] as = [(st.id, st)] ↔
      (∀ a ∈ as, a.id = st.id) ∧ ∀ a ∈ as.getLast?, a = st := by
  constructor
  · intro h
    have hids : ∀ a ∈ as, a.id = st.id := by
      intro a ha
      have hkey := (mem_assignAll_keys [(st.id, st)] as).mpr (.inr (List.mem_map_of_mem ha))
      rw [h] at hkey
      simpa using hkey
    rw [assignAll_same hids] at h
    refine ⟨hids, fun a ha => ?_⟩
    rw [Option.mem_def.mp ha] at h
    simpa using h
  · rintro ⟨hids, hlast⟩
    rw [assignAll_same hids]
    cases hl : as.getLast? with
    | none => rfl
    | some a => rw [Option.getD_some, hlast a hl]

theorem mem_assignAll_distinct (h : (as.map ActionStatus.id).Nodup)
    (hall : ∀ x ∈ all, x.1 ∉ as.map ActionStatus.id) (x : Nat × ActionStatus) :
    x ∈ assignAll all as ↔ x ∈ all ∨ ∃ a ∈ as, x = (a.id, a) := by
  induction as generalizing all with
  | nil => simp
  | cons a as ih =>
    rw [List.map_cons, List.nodup_cons] at h
    have hkeep : (all.filter fun x => x.1 != a.id) = all := by
      rw [List.filter_eq_self]
      intro y hy
      have := hall y hy
      rw [List.map_cons, List.mem_cons, not_or] at this
      exact bne_iff_ne.mpr this.1
    rw [assignAll_cons, hkeep, ih h.2]
    · simp only [List.mem_cons, exists_eq_or_imp]
      tauto
    · intro y hy
      rcases List.mem_cons.mp hy with rfl | hy
      · exact h.1
      · exact fun hmem => hall y hy (List.mem_cons_of_mem _ hmem)

theorem assignAll_nodup (h : (all.map Prod.fst).Nodup) :
    ((assignAll all as).map Prod.fst).Nodup := by
  induction as generalizing all with
  | nil => exact h
  | cons a as ih =>
    refine ih ?_
    rw [List.map_cons, List.nodup_cons]
    exact ⟨by simp, h.sublist (List.filter_sublist.map _)⟩

/-- The read-only paths fill an empty map: they report every read of a txn whose reads
have ids of their own, as of the timestamp. -/
theorem readAt_reports (h : ((readStatuses decodeValue cfg db t txn).map ActionStatus.id).Nodup) :
    ∃ s, readAt decodeValue cfg db txn t = some s ∧ s.timestamp = t ∧
      ReportsReads decodeValue cfg db txn s := by
  refine ⟨_, fetchResults_assign rfl, rfl, ?_, assignAll_nodup List.nodup_nil⟩
  intro x
  rw [Option.getD_some]
  refine (mem_assignAll_distinct h (by simp) x).trans ?_
  simp only [List.not_mem_nil, false_or, mem_readStatuses]
  constructor
  · rintro ⟨st, ⟨a, ha, hst⟩, rfl⟩
    exact ⟨a, ha, st, hst, by rw [readStatus_id hst]⟩
  · rintro ⟨a, ha, st, hst, rfl⟩
    exact ⟨st, ⟨a, ha, hst⟩, by rw [readStatus_id hst]⟩

end Reports

/-- A key that was written, one that was not, and a range. -/
def threeReads : Txn :=
  ⟨⟨1, 1, 3⟩, [⟨0, some (.read 16 [2])⟩, ⟨1, some (.read 16 [9])⟩,
    ⟨2, some (.readRange 16 [1] [255] 2)⟩], []⟩

theorem readAt_reports_threeReads : ∃ s,
    readAt some readerConfig (keysWritten 5) threeReads 5 = some s ∧ s.timestamp = 5 ∧
      ReportsReads some readerConfig (keysWritten 5) threeReads s :=
  readAt_reports (by decide)

/-! ## Results of committed txns -/

/-- The txn whose results the handler fetches: that of the request, or the one that the
manager holds as prepared at that moment. -/
def Context.readsFor {pid : Nat} (ctx : Context pid) : Request → Option Txn
  | .autocommit r => some r.txn
  | .commit r => ((ctx.state ctx.fetched).1.prepared.lookup r.id).map Prepared.txn
  | _ => none

/-- The writer answers that the txn is committed, and the handler goes on to fetch its
results. -/
def Service.Commits (n : Service) (ctx : Context n.pid) (s : TxnStatus) : Request → Prop
  | .autocommit r => r.partitionId = n.pid ∧ n.isLeader = true ∧ r.txn.isReadOnly = false ∧
      ctx.writerApply (.autocommit ⟨0, r.txn⟩) = some (.ok s) ∧ s.state = .committed
  | .commit r => r.participantPid = n.pid ∧ n.isLeader = true ∧ r.readOnly = false ∧
      r.fetchResults = true ∧ ctx.hlcUpdate = none ∧
      ctx.writerApply (.commit ⟨r.commitTimestamp, r.id⟩) = some (.ok s) ∧ s.state = .committed
  | _ => False

section Committed

variable (decodeValue : Bytes → Option Bytes) (cfg : ReaderConfig)

/-- The reply after the manager has made the record `kept`: no panic, and the reads of
the txn. The reply is built in that record, which has to stay as it is. Only a commit
whose txn the manager no longer holds ends in an error. -/
def ReturnsReads (db : Store) (txn : Option Txn) (kept : TxnStatus) : Reply → Prop
  | none => False
  | some (.error e) => txn = none ∧ e = .notFound
  | some (.ok s) => s = kept ∧ ∃ t, txn = some t ∧ ReportsReads decodeValue cfg db t s

variable {decodeValue cfg} {n : Service} {ctx : Context n.pid} {s : TxnStatus}

theorem autocommit_written {r : AutocommitRequest} (hpid : r.partitionId = n.pid)
    (hl : n.isLeader = true) (hro : r.txn.isReadOnly = false)
    (h : ctx.writerApply (.autocommit ⟨0, r.txn⟩) = some (.ok s)) :
    n.autocommit decodeValue cfg ctx r = ctx.fetch decodeValue cfg r.txn s := by
  simp [Service.autocommit, AutocommitRequest.isSnapshotRead, hpid, hl, hro, h]

theorem commit_written {r : CommitRequest} (hpid : r.participantPid = n.pid)
    (hl : n.isLeader = true) (hro : r.readOnly = false) (hf : r.fetchResults = true)
    (hu : ctx.hlcUpdate = none) (hid : s.id = r.id)
    (h : ctx.writerApply (.commit ⟨r.commitTimestamp, r.id⟩) = some (.ok s)) :
    n.commit decodeValue cfg ctx r =
      match ctx.readsFor (.commit r) with
      | none => some (.error .notFound)
      | some txn => ctx.fetch decodeValue cfg txn s := by
  simp only [Service.commit, hpid, hl, hro, hf, hu, h, Context.readsFor, Bool.not_true,
    Bool.false_eq_true, if_false, ne_eq, not_true_eq_false]
  rw [← hid]
  cases (ctx.state ctx.fetched).1.prepared.lookup s.id <;> rfl

theorem Context.writerApply_committed {pid : Nat} {ctx : Context pid} {c : Cmd}
    (h : ctx.writerApply c = some (.ok s)) (hs : s.state = .committed)
    (hc : ∀ x, c = .commit x → x.timestamp ≠ 0) : KeptStatus c.id s := by
  rcases ctx.writerApply_answer h hc with hk | ⟨_, _, actionId, code, _, rfl⟩
  · exact hk
  · cases hs

variable (decodeValue cfg) in
theorem handle_commits {r : Request} (hr : r.validate = none) (h : n.Commits ctx s r) :
    s.actionStatus = none ∧ (n.handle decodeValue cfg ctx r).2 =
      match ctx.readsFor r with
      | none => some (.error .notFound)
      | some txn => ctx.fetch decodeValue cfg txn s := by
  cases r with
  | autocommit r =>
    obtain ⟨hpid, hl, hro, hw, hs⟩ := h
    exact ⟨(ctx.writerApply_committed hw hs nofun).no_actions, autocommit_written hpid hl hro hw⟩
  | commit r =>
    obtain ⟨hpid, hl, hro, hf, hu, hw, hs⟩ := h
    have hk : KeptStatus r.id s := by
      refine ctx.writerApply_committed hw hs ?_
      rintro x ⟨⟩
      simp only [Request.validate, CommitRequest.validate, Option.orElse_eq_none,
        ite_eq_right_iff, reduceCtorEq] at hr
      exact hr.2
    exact ⟨hk.no_actions, commit_written hpid hl hro hf hu hk.id_eq hw⟩
  | prepare r => exact h.elim
  | abort r => exact h.elim
  | storeDecision d => exact h.elim

/-- **Results of committed txns.** The handler of a committed txn returns the reads of
the txn exactly when there are none: the record of the manager has no map to put them. -/
theorem committed_reads_iff {r : Request} (hr : r.validate = none) (h : n.Commits ctx s r) :
    ReturnsReads decodeValue cfg (ctx.state ctx.fetched).2 (ctx.readsFor r) s
        (n.handle decodeValue cfg ctx r).2 ↔
      ∀ txn, ctx.readsFor r = some txn → ∀ a ∈ txn.actions, isRead a = false := by
  obtain ⟨hnil, heq⟩ := handle_commits decodeValue cfg hr h
  rw [heq]
  cases htxn : ctx.readsFor r with
  | none => simp [ReturnsReads]
  | some txn =>
    dsimp only
    rw [Context.fetch, fetchResults_nil hnil]
    simp only [Option.some.injEq, forall_eq']
    split
    · rename_i hno
      refine iff_of_true ⟨rfl, txn, rfl, ?_, ?_⟩ hno
      · intro x
        simp only [hnil, Option.getD_none, List.not_mem_nil, false_iff, not_exists, not_and]
        intro a ha st hst
        have hsome := readStatus_isSome decodeValue cfg (ctx.state ctx.fetched).2 s.timestamp a
        rw [hst, hno a ha] at hsome
        cases hsome
      · simp [hnil]
    · rename_i hread
      exact iff_of_false (fun hf => hf) hread

end Committed

/-- A leader whose writer reaches Raft, after one batch without commits. -/
def writerAfter (batch : TxnBatch) (h : batch.commit = []) : Context leader.pid :=
  { leaderAfter batch h with committed := .ok (2, 0) }

def writeKey (before : List Action) : Request :=
  .autocommit
    { partitionId := 1, txn := ⟨⟨1, 1, 3⟩, before ++ [⟨9, some (.upsert 16 [1] [7])⟩], []⟩ }

/-- A txn that reads a key and writes another is committed; the handler panics. -/
theorem committed_read_panics : (writeKey [⟨0, some (.read 16 [2])⟩]).validate = none ∧
    (∃ s, leader.Commits (writerAfter {} rfl) s (writeKey [⟨0, some (.read 16 [2])⟩])) ∧
    (leader.handle some readerConfig (writerAfter {} rfl)
      (writeKey [⟨0, some (.read 16 [2])⟩])).2 = none :=
  ⟨by decide, ⟨_, rfl, rfl, rfl, rfl, rfl⟩, rfl⟩

/-- The same write alone. -/
theorem committed_reads_iff_write : ∃ s, leader.Commits (writerAfter {} rfl) s (writeKey []) ∧
      ReturnsReads some readerConfig ((writerAfter {} rfl).state 0).2
        ((writerAfter {} rfl).readsFor (writeKey [])) s
        (leader.handle some readerConfig (writerAfter {} rfl) (writeKey [])).2 := by
  have h : leader.Commits (writerAfter {} rfl) _ (writeKey []) := ⟨rfl, rfl, rfl, rfl, rfl⟩
  refine ⟨_, h, (committed_reads_iff (by decide) h).mpr ?_⟩
  rintro txn ⟨⟩
  decide

/-! ## Rejected txns -/

/-- `isLockFailed` of the retrying client; `none` is the nil status. -/
def isLockFailed : Option TxnStatus → Bool
  | none => false
  | some s => s.state == .failed && (s.actionStatus.getD []).all fun x => x.2.code == .lockFailed

section Rejected

variable (decodeValue : Bytes → Option Bytes) (cfg : ReaderConfig)

/-- The reply reports the failure of one action and nothing else, so that the client
knows a failed lock when it sees one. -/
def ReportsFailure (actionId : Nat) (code : Code) : Reply → Prop
  | some (.ok s) => s.state = .failed ∧
      s.actionStatus = some [(actionId, { id := actionId, code := code })] ∧
      (isLockFailed (some s) = true ↔ code = .lockFailed)
  | _ => False

variable {decodeValue cfg} {n : Service} {ctx : Context n.pid}

theorem readStatus_results {db : Store} {t : Nat} {a : Action} {st : ActionStatus}
    (h : readStatus decodeValue cfg db t a = some st) (hc : st.code ≠ .success) :
    st.results = [] := by
  have iterate_results : ∀ (limit : Nat) (rs : List Record) (results : List Bytes),
      (iterate decodeValue cfg limit results rs).1 ≠ .success →
      (iterate decodeValue cfg limit results rs).2 = [] := by
    intro limit rs
    induction rs with
    | nil => intro results hne; exact absurd rfl hne
    | cons r rs ih =>
      intro results
      rw [iterate]
      split
      · split
        · exact fun _ => rfl
        · exact ih results
      · split
        · exact fun hne => absurd rfl hne
        · exact ih _
  unfold readStatus at h
  split at h
  · cases h
    revert hc
    unfold pointStatus
    split
    · exact fun _ => rfl
    · split
      · exact fun _ => rfl
      · exact fun hne => absurd rfl hne
  · cases h
    exact iterate_results _ _ _ hc
  · cases h

variable (decodeValue cfg) in
theorem readStatuses_ids (db : Store) (t : Nat) {actionId : Nat} {txn : Txn} :
    (∀ st ∈ readStatuses decodeValue cfg db t txn, st.id = actionId) ↔
      ∀ a ∈ txn.actions, isRead a = true → a.id = actionId := by
  constructor
  · intro h a ha hread
    rw [← readStatus_isSome decodeValue cfg db t a] at hread
    obtain ⟨st, hst⟩ := Option.isSome_iff_exists.mp hread
    rw [← readStatus_id hst]
    exact h st (mem_readStatuses.mpr ⟨a, ha, hst⟩)
  · intro h st hst
    obtain ⟨a, ha, hst⟩ := mem_readStatuses.mp hst
    rw [readStatus_id hst]
    refine h a ha ?_
    rw [← readStatus_isSome decodeValue cfg db t a, hst]
    rfl

theorem assignAll_failed {db : Store} {t actionId : Nat} {txn : Txn} {code : Code}
    (hcode : code ≠ .success) : assignAll [(actionId, { id := actionId, code := code })]
        (readStatuses decodeValue cfg db t txn) =
          [(actionId, { id := actionId, code := code })] ↔
      (∀ a ∈ txn.actions, isRead a = true → a.id = actionId) ∧
      ∀ st ∈ (readStatuses decodeValue cfg db t txn).getLast?, st.code = code := by
  rw [← readStatuses_ids decodeValue cfg db t]
  refine (assignAll_eq_self ⟨actionId, code, []⟩).trans
    (and_congr_right fun hids => forall₂_congr fun st hst => ?_)
  have hmem := List.mem_of_getLast? hst
  constructor
  · rintro rfl
    rfl
  · intro hc
    obtain ⟨a, _, ha⟩ := mem_readStatuses.mp hmem
    have hres := readStatus_results ha (by rw [hc]; exact hcode)
    have hid := hids st hmem
    obtain ⟨id, code', results⟩ := st
    cases hc
    cases hres
    cases hid
    rfl

/-- **Replies to rejected txns.** The reply reports only the failing action exactly when
the txn has no reads, or all its reads carry the id of that action and the last of them
reports the same code. -/
theorem rejected_reports_iff {r : AutocommitRequest} {t actionId : Nat} {code : Code}
    (hpid : r.partitionId = n.pid) (hl : n.isLeader = true) (hro : r.txn.isReadOnly = false)
    (h : ctx.writerApply (.autocommit ⟨0, r.txn⟩) =
      some (.ok (newFailedStatus r.txn.id t actionId code))) :
    ReportsFailure actionId code (n.autocommit decodeValue cfg ctx r) ↔
      (∀ a ∈ r.txn.actions, isRead a = true → a.id = actionId) ∧
      ∀ st ∈ (readStatuses decodeValue cfg (ctx.state ctx.fetched).2 t r.txn).getLast?,
        st.code = code := by
  have hcode : code ≠ .success := by
    rcases ctx.writerApply_answer h nofun with hk | ⟨_, _, actionId', code', hne, heq⟩
    · cases hk.no_actions
    · simp only [newFailedStatus, TxnStatus.mk.injEq, Option.some.injEq, List.cons.injEq,
        Prod.mk.injEq, ActionStatus.mk.injEq] at heq
      rw [heq.2.2.2.1.1.2.2.1]
      exact hne
  rw [autocommit_written hpid hl hro h, Context.fetch, fetchResults_assign rfl, Option.map_some,
    ← assignAll_failed hcode]
  constructor
  · rintro ⟨_, hmap, _⟩
    exact Option.some.inj hmap
  · intro hmap
    refine ⟨rfl, congrArg some hmap, ?_⟩
    rw [isLockFailed, Option.getD_some, show (newFailedStatus r.txn.id t actionId code).timestamp =
      t from rfl, hmap]
    simp [newFailedStatus]

end Rejected

/-- A leader with a prepared txn that holds the lock of the key. -/
def keyLocked : Context leader.pid :=
  writerAfter { prepare := [⟨0, ⟨⟨1, 1, 1⟩, [⟨0, some (.upsert 16 [1] [])⟩], []⟩⟩] } rfl

/-- The txn with a read is rejected for its lock, which the client does not see. -/
theorem rejected_read_hides_lock : (writeKey [⟨0, some (.read 16 [2])⟩]).validate = none ∧ ∃ s,
    (leader.handle some readerConfig keyLocked (writeKey [⟨0, some (.read 16 [2])⟩])).2 =
        some (.ok s) ∧ s.state = .failed ∧
      s.actionStatus = some [(0, { id := 0, code := .keyNotFound }),
        (9, { id := 9, code := .lockFailed })] ∧
      isLockFailed (some s) = false :=
  ⟨by decide, _, rfl, rfl, rfl, rfl⟩

/-- The rejected write alone. -/
theorem rejected_reports_iff_write : ReportsFailure 9 .lockFailed
    (leader.autocommit some readerConfig keyLocked
      { partitionId := 1, txn := ⟨⟨1, 1, 3⟩, [⟨9, some (.upsert 16 [1] [7])⟩], []⟩ }) := by
  refine (rejected_reports_iff (n := leader) rfl rfl rfl rfl).mpr ⟨by decide, ?_⟩
  rintro st ⟨⟩

end Scout.Txn
