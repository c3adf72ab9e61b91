import Scout.Txn.Reader
import Scout.Txn.VersionOrder

/-!
Reads at a given timestamp on a replica of one partition: the check of the safe
timestamp (`reader.checkSafeTimestamp`), and which versions a read that passed it
can see from then on.
-/

namespace Scout.Txn

open Data Mvcc Lib

/-! ## Partitions and replicas -/

/-- A partition with one leader: its writer serves the requests `events`. -/
structure Partition (pid : Nat) where
  cleanAfter : Int
  clock : Clock
  events : List Event
  fits : (Writer.run { clock } events).clock.last < maxUint64

namespace Partition

variable {pid : Nat} (P : Partition pid)

def log : List Entry := (Writer.run { clock := P.clock } P.events).log

abbrev new : Manager × Store := newPartition pid P.cleanAfter

def trace : List MicroStep := logTrace P.new P.log

/-- Everything the partition writes, with the txn it belongs to. -/
def versions : List (TxnId × Record) := P.trace.flatMap MicroStep.tagged

end Partition

/-- A replica applies the log of the partition at its own times. -/
structure Replica {pid : Nat} (P : Partition pid) where
  entries : List Entry
  same : SameLog P.log entries

/-- The replica after `n` entries. -/
def Replica.state {pid : Nat} {P : Partition pid} (R : Replica P) (n : Nat) : Manager × Store :=
  (applyLog P.new (R.entries.take n)).1

def Replica.versions {pid : Nat} {P : Partition pid} (R : Replica P) : List (TxnId × Record) :=
  (logTrace P.new R.entries).flatMap MicroStep.tagged

/-- The version that a read of the address at the timestamp comes to: `Get` and
`GetRange` return it unless it is a tombstone. -/
def versionAt (db : Store) (timestamp : Nat) (a : Address) : Option Record :=
  newest Record.address Record.timestamp db.records a (readTimestamp timestamp)

theorem get_eq_versionAt (db : Store) (timestamp : Nat) (addrs : List Address) :
    db.get timestamp addrs =
      addrs.map fun a => (versionAt db timestamp a).filter fun r => !tombstone r.flags := by
  refine List.map_congr_left ?_
  intro a _
  unfold visible versionAt
  cases newest Record.address Record.timestamp db.records a (readTimestamp timestamp) with
  | none => rfl
  | some r => cases h : tombstone r.flags <;> simp [Option.filter, h]

/-! ## The check -/

/-- `checkSafeTimestamp`, with the moment at which the timestamp was found safe. The
first check is after `first` entries. The leader bumps the max timestamp and checks
again after `second` entries; `none` when the bump fails. -/
def checkSafeTimestamp (isLeader : Bool) (manager : Nat → Manager) (first : Nat)
    (second : Option Nat) (txn : Txn) (timestamp : Nat) : Except Err Nat :=
  let safe := (manager first).getSafeTimestamp txn
  if timestamp ≤ safe.1 then .ok first
  else if safe.2 || !isLeader then .error .timeOutOfRange
  else
    match second with
    | none => .error .unavailable
    | some n =>
      if timestamp ≤ ((manager n).getSafeTimestamp txn).1 then .ok n else .error .timeOutOfRange

variable {txn : Txn} {timestamp : Nat}

theorem checkSafeTimestamp_safe {isLeader : Bool} {manager : Nat → Manager} {first k : Nat}
    {second : Option Nat}
    (h : checkSafeTimestamp isLeader manager first second txn timestamp = .ok k) :
    timestamp ≤ ((manager k).getSafeTimestamp txn).1 := by
  unfold checkSafeTimestamp at h
  dsimp only at h
  split at h
  · rename_i hle
    cases h
    exact hle
  · split at h
    · cases h
    split at h
    · cases h
    split at h
    · rename_i hle
      cases h
      exact hle
    · cases h

/-! ## Replicas write the same versions -/

theorem cmdTrace_tagged_agree {m n : Manager} (h : Sim m n) (db : Store) {cs : List Cmd}
    (ha : ∀ c ∈ cs, Agree m n c.id) :
    (cmdTrace db m cs).flatMap MicroStep.tagged = (cmdTrace db n cs).flatMap MicroStep.tagged := by
  induction cs generalizing m n with
  | nil => rfl
  | cons c cs ih =>
    obtain ⟨ho, hs, hkeep⟩ := h.step db c (ha c (by simp))
    have hrest := ih hs (fun d hd => hkeep _ (ha d (by simp [hd])))
    simp only [cmdTrace, List.flatMap_cons, hrest, MicroStep.tagged, ho]

theorem entryTrace_tagged (s : Manager × Store) (e : Entry) :
    (entryTrace s e).flatMap MicroStep.tagged =
      (cmdTrace s.2 s.1 (batchCmds e.batch)).flatMap MicroStep.tagged := by
  rw [entryTrace, List.flatMap_append]
  exact List.append_nil _

/-- **Replicas that know the same txns write the same versions.** -/
theorem logTrace_tagged_agree {m n : Manager} {db : Store} {es es' : List Entry} (h : Sim m n)
    (hl : SameLog es es') (hk : SameKnown (m, db) (n, db) es es') :
    (logTrace (m, db) es).flatMap MicroStep.tagged =
      (logTrace (n, db) es').flatMap MicroStep.tagged := by
  induction hl generalizing m n db with
  | nil => rfl
  | @cons e e' es es' he _ ih =>
    obtain ⟨m', n', db', hm, hn, _, hsim, hk'⟩ := h.next db he hk
    have hcmds := cmdTrace_tagged_agree h db (fun c hc => h.agree (hk.1 c hc))
    rw [logTrace, logTrace, List.flatMap_append, List.flatMap_append, entryTrace_tagged,
      entryTrace_tagged, ← he.2, hcmds, hm, hn, ih hsim hk']

theorem sameLog_batches {es es' : List Entry} (h : SameLog es es') :
    es.map Entry.batch = es'.map Entry.batch := by
  induction h with
  | nil => rfl
  | cons he _ ih => rw [List.map_cons, List.map_cons, he.2, ih]

theorem logTrace_append (s : Manager × Store) (es es' : List Entry) :
    logTrace s (es ++ es') = logTrace s es ++ logTrace (applyLog s es).1 es' := by
  induction es generalizing s with
  | nil => rfl
  | cons e es ih => rw [List.cons_append, logTrace, ih, logTrace, applyLog_cons, List.append_assoc]

/-! ## Commits -/

def MicroStep.commitsTxn (x : MicroStep) (txn : Txn) (timestamp : Nat) : Bool :=
  x.enters txn.id &&
    (match x.exec with
      | some (.commit c, _) => decide (c = ⟨timestamp, txn.id⟩)
      | _ => false) &&
    decide ((x.before.prepared.lookup txn.id).map Prepared.txn = some txn)

theorem MicroStep.Valid.commit_version {x : MicroStep} (h : x.Valid)
    (hc : x.commitsTxn txn timestamp = true) {a : Address} (hw : txn.writes a = true) :
    ∃ r, (txn.id, r) ∈ x.tagged ∧ r.address = a ∧ r.timestamp = timestamp := by
  unfold MicroStep.commitsTxn at hc
  rw [Bool.and_eq_true_iff, Bool.and_eq_true_iff] at hc
  obtain ⟨⟨henters, hexec⟩, hentry⟩ := hc
  have hentry := of_decide_eq_true hentry
  split at hexec
  · rename_i c o hx
    have hcmd := of_decide_eq_true hexec
    subst hcmd
    obtain ⟨s, txn', hs, hcommitting, _, hwrites⟩ := (h.writes hx).1 henters
    -- the status is that of this commit, and the txn the prepared one
    have hts : s.timestamp = timestamp := by
      rcases h.commitsAt henters with ⟨c, o', hx', _⟩ | ⟨c, p, hat⟩
      · rw [hx] at hx'
        cases hx'
      · obtain ⟨o', hx'⟩ := hat.exec
        rw [hx] at hx'
        cases hx'
        cases hs.symm.trans hat.status
        rfl
    have htxn : txn' = txn := Option.some.inj (hcommitting.symm.trans hentry)
    subst htxn
    rw [hts] at hwrites
    obtain ⟨r, hr, ha⟩ := exists_buildWriteRecords timestamp hw
    refine ⟨r, ?_, ha, (mem_buildWriteRecords hr).1⟩
    unfold MicroStep.tagged
    rw [hx]
    exact List.mem_map.mpr ⟨r, by rw [hwrites]; exact hr, rfl⟩
  · cases hexec

theorem Partition.commit_version {pid : Nat} {P : Partition pid}
    (hc : (P.trace.any fun x => x.commitsTxn txn timestamp) = true) {a : Address}
    (hw : txn.writes a = true) :
    ∃ r, (txn.id, r) ∈ P.versions ∧ r.address = a ∧ r.timestamp = timestamp := by
  obtain ⟨x, hx, hcx⟩ := List.any_eq_true.mp hc
  have hlinked := (logTrace_linked (s := P.new) (sound_new pid P.cleanAfter).kept P.log).1
  obtain ⟨r, hr, ha, ht⟩ := (hlinked.valid x hx).commit_version hcx hw
  exact ⟨r, List.mem_flatMap.mpr ⟨x, hx, hr⟩, ha, ht⟩

/-! ## What a read sees -/

section Replica

variable {pid : Nat} {P : Partition pid} (R : Replica P)

theorem Replica.chain : Chain P.clock.last (R.entries.map Entry.batch)
      (Writer.run { clock := P.clock } P.events).clock.last := by
  rw [← sameLog_batches R.same]
  exact writer_chain P.clock P.events

/-- Versions of one address and timestamp belong to one txn. -/
def OneTxn (v w : TxnId × Record) : Prop :=
  v.2.address = w.2.address → v.2.timestamp = w.2.timestamp → v.1 = w.1

instance OneTxn.symm : Std.Symm OneTxn := ⟨fun _ _ h ha ht => (h ha.symm ht.symm).symm⟩

theorem Replica.versions_inOrder : R.versions.Pairwise InOrder :=
  logTrace_inOrder (s := P.new) (coherent_new pid P.cleanAfter) R.chain

variable {v : TxnId × Record}

theorem Replica.same_txn {w : TxnId × Record} (hv : v ∈ R.versions) (hw : w ∈ R.versions)
    (ha : v.2.address = w.2.address) (ht : v.2.timestamp = w.2.timestamp) : v.1 = w.1 := by
  have hone : R.versions.Pairwise OneTxn := R.versions_inOrder.imp fun h ha ht => (h ha).2 ht
  exact List.Pairwise.forall_of_forall (fun _ _ _ _ => rfl) hone hv hw ha ht

theorem Replica.versions_split (n : Nat) : R.versions =
    (logTrace P.new (R.entries.take n)).flatMap MicroStep.tagged ++
      (logTrace (R.state n) (R.entries.drop n)).flatMap MicroStep.tagged := by
  unfold Replica.versions Replica.state
  rw [← List.flatMap_append, ← logTrace_append, List.take_append_drop]

variable {n : Nat}

theorem Replica.mem_records {r : Record} (h : r ∈ (R.state n).2.records) :
    ∃ id, (id, r) ∈ R.versions := by
  unfold Replica.state at h
  rw [applyLog_records] at h
  rcases mem_of_mem_overwriteAll h with h | h
  · cases h
  · rw [← logTrace_writes, ← tagged_writes] at h
    obtain ⟨⟨id, r'⟩, hv, rfl⟩ := List.mem_map.mp h
    exact ⟨id, by rw [R.versions_split n]; exact List.mem_append.mpr (.inl hv)⟩

variable {R} {T : Nat}

/-- From the moment at which a timestamp is safe, whatever is written at the
addresses of the reader is newer. -/
theorem Replica.later_versions {k : Nat} {txn : Txn}
    (hsafe : T ≤ ((R.state k).1.getSafeTimestamp txn).1)
    (hv : v ∈ (logTrace (R.state k) (R.entries.drop k)).flatMap MicroStep.tagged)
    (ha : txn.reads v.2.address = true) : T < v.2.timestamp := by
  have hchain := R.chain
  rw [← List.take_append_drop k R.entries] at hchain
  obtain ⟨f, hf, hfr, hmax, hpost⟩ := chain_prefix pid P.cleanAfter hchain
  have hset := safeTimestamp_settled hfr (lt_of_le_of_lt hf P.fits) hmax hsafe ha
  have hw := mem_tagged hv
  rw [logTrace_writes] at hw
  exact hset.log hfr.coherent hpost v.2 hw rfl

/-- **A read that passed the check comes to the newest version at its timestamp**,
whenever it is executed: to every version at or before it, or to a newer one. -/
theorem Replica.read_sees {k : Nat} {txn : Txn} (hpos : 0 < T)
    (hsafe : T ≤ ((R.state k).1.getSafeTimestamp txn).1) (hn : k ≤ n) (hv : v ∈ R.versions)
    (ha : txn.reads v.2.address = true) (ht : v.2.timestamp ≤ T) :
    ∃ r, versionAt (R.state n).2 T v.2.address = some r ∧ v.2.timestamp ≤ r.timestamp ∧
      r.timestamp ≤ T ∧ (r.timestamp = v.2.timestamp → (v.1, r) ∈ R.versions) := by
  -- it was written by the moment of the check
  have hbefore : v.2 ∈ logWrites P.new (R.entries.take n) := by
    rw [R.versions_split k] at hv
    rcases List.mem_append.mp hv with hv | hv
    · have hw := mem_tagged hv
      rw [logTrace_writes] at hw
      rw [← List.take_append_drop k (R.entries.take n), List.take_take, min_eq_left hn,
        logWrites_append]
      exact List.mem_append.mpr (.inl hw)
    · have := R.later_versions hsafe hv ha
      omega
  have hrecord : ∃ r ∈ (R.state n).2.records,
      r.address = v.2.address ∧ r.timestamp = v.2.timestamp := by
    unfold Replica.state
    rw [applyLog_records]
    exact exists_mem_overwriteAll hbefore
  obtain ⟨r₀, hmem, ha₀, ht₀⟩ := hrecord
  unfold versionAt
  rw [readTimestamp_of_pos hpos]
  cases hnew : newest Record.address Record.timestamp (R.state n).2.records v.2.address T with
  | none =>
    have := newest_none.mp hnew r₀ hmem ha₀
    omega
  | some r =>
    obtain ⟨hr, hra, hrt, hmax⟩ := newest_spec hnew
    have hle := hmax r₀ hmem ha₀ (by omega)
    refine ⟨r, rfl, by omega, hrt, ?_⟩
    intro he
    obtain ⟨id, hid⟩ := R.mem_records hr
    have hsame : id = v.1 := R.same_txn hid hv hra he
    rw [← hsame]
    exact hid

theorem Replica.read_le (hpos : 0 < T) {a : Address} {r : Record}
    (h : versionAt (R.state n).2 T a = some r) : r.timestamp ≤ T := by
  unfold versionAt at h
  rw [readTimestamp_of_pos hpos] at h
  exact (newest_spec h).2.2.1

end Replica

end Scout.Txn
