import Mathlib.Data.List.TakeWhile
import Scout.Storage.Fsm

/-!
Durability of snapshots. A replica that crashes applies entries again, over a store that may
already hold what they wrote before. It writes the same records again if the batches are stamped
in order and independent and no txn is brought twice; then the entries up to an index have one
meaning (`Log.state`), whatever crashed in between, and a snapshot finds all their records on
disk.
-/

namespace Scout.Fsm

open Data Mvcc Lib Txn

/-! ## The log without crashes -/

/-- The batches, as a replica would apply them at time zero. -/
def batches (es : List LogEntry) : List Entry :=
  es.filterMap fun e => e.payload.map (Entry.mk e.index 0)

def Log.upto (log : Log) (i : Nat) : List Entry :=
  batches (log.entries.takeWhile fun e => decide (e.index ≤ i))

/-- A replica that never crashed, after the entries up to `i`. -/
def Log.state (log : Log) (pid : Nat) (cleanAfter : Int) (i : Nat) : Manager × Store :=
  (applyLog (newPartition pid cleanAfter) (log.upto i)).1

def Log.all (log : Log) (pid : Nat) (cleanAfter : Int) : List Record :=
  (applyLog (newPartition pid cleanAfter) (batches log.entries)).1.2.records

theorem batches_batch (es : List LogEntry) :
    (batches es).map Entry.batch = es.filterMap LogEntry.payload := by
  unfold batches
  rw [List.map_filterMap]
  congr 1
  funext e
  cases e.payload <;> rfl

theorem batches_append (es es' : List LogEntry) : batches (es ++ es') = batches es ++ batches es' :=
  List.filterMap_append

structure Replayable (bs : List TxnBatch) : Prop where
  stamped : StampedInOrder bs
  independent : ∀ b ∈ bs, Independent b
  /-- No txn is brought by two batches. -/
  once : bs.Pairwise fun b c => ∀ id, Brings b id → ¬ Brings c id

theorem Replayable.chain {log : Log} (h : Replayable (log.entries.filterMap LogEntry.payload)) :
    ∃ lo hi, 1 ≤ lo ∧ Chain lo ((batches log.entries).map Entry.batch) hi := by
  rw [batches_batch]
  exact h.stamped

theorem Log.split (log : Log) (i : Nat) : ∃ rest, batches log.entries = log.upto i ++ rest := by
  refine ⟨batches (log.entries.dropWhile fun e => decide (e.index ≤ i)), ?_⟩
  rw [Log.upto, ← batches_append, List.takeWhile_append_dropWhile]

variable {i : Nat}

theorem Log.upto_mono (log : Log) {j : Nat} (h : i ≤ j) :
    ∃ rest, log.upto j = log.upto i ++ rest := by
  have hw : ∀ es : List LogEntry, ∃ rest, es.takeWhile (fun e => decide (e.index ≤ j)) =
      es.takeWhile (fun e => decide (e.index ≤ i)) ++ rest := by
    intro es
    induction es with
    | nil => exact ⟨[], rfl⟩
    | cons e es ih =>
      obtain ⟨rest, hrest⟩ := ih
      by_cases hi : e.index ≤ i
      · exact ⟨rest, by simp [hi, hi.trans h, hrest]⟩
      · exact ⟨(e :: es).takeWhile fun e => decide (e.index ≤ j), by simp [hi]⟩
  obtain ⟨rest, hrest⟩ := hw log.entries
  exact ⟨batches rest, by rw [Log.upto, hrest, batches_append, Log.upto]⟩

theorem Log.upto_zero (log : Log) : log.upto 0 = [] := by
  have hnil : log.entries.takeWhile (fun e => decide (e.index ≤ 0)) = [] := by
    rw [List.takeWhile_eq_nil_iff]
    intro hlen hle
    have hpos := log.positive _ (List.get_mem log.entries ⟨0, hlen⟩)
    exact Nat.not_le.mpr hpos (of_decide_eq_true hle)
  rw [Log.upto, hnil]
  rfl

theorem Log.next_split (log : Log) {e : LogEntry} (h : log.next i = some e) :
    (∃ post, batches log.entries = log.upto i ++ batches (e :: post)) ∧
      log.upto e.index = log.upto i ++ batches [e] := by
  obtain ⟨post, hpost⟩ : ∃ post, (log.entries.dropWhile fun e => decide (e.index ≤ i)) =
      e :: post := List.head?_eq_some_iff.mp h
  have hsplit : log.entries.takeWhile (fun e => decide (e.index ≤ i)) ++ e :: post =
      log.entries := by rw [← hpost, List.takeWhile_append_dropWhile]
  have hinc := log.increasing
  rw [← hsplit, List.pairwise_append, List.pairwise_cons] at hinc
  obtain ⟨_, ⟨hafter, _⟩, hbefore⟩ := hinc
  refine ⟨⟨post, by rw [Log.upto, ← batches_append, hsplit]⟩, ?_⟩
  have htake : log.entries.takeWhile (fun x => decide (x.index ≤ e.index)) =
      log.entries.takeWhile (fun x => decide (x.index ≤ i)) ++ [e] := by
    conv_lhs => rw [← hsplit]
    rw [List.takeWhile_append_of_pos
      (fun x hx => decide_eq_true (hbefore x hx e (by simp)).le)]
    congr 1
    cases post with
    | nil => simp
    | cons x post =>
      have := hafter x (by simp)
      simp [this]
  rw [Log.upto, htake, batches_append, Log.upto]

theorem Log.next_batch (log : Log) {e : LogEntry} {b : TxnBatch} (h : log.next i = some e)
    (hp : e.payload = some b) :
    (∃ post, batches log.entries = log.upto i ++ ⟨e.index, 0, b⟩ :: batches post) ∧
      log.upto e.index = log.upto i ++ [⟨e.index, 0, b⟩] := by
  have hcons : ∀ post, batches (e :: post) = ⟨e.index, 0, b⟩ :: batches post := by
    intro post
    simp [batches, hp]
  obtain ⟨⟨post, hsplit⟩, hupto⟩ := log.next_split h
  rw [hcons] at hsplit hupto
  exact ⟨⟨post, hsplit⟩, hupto⟩

section State

variable (log : Log) (pid : Nat) (cleanAfter : Int) {r : Record}

theorem applyLog_keeps {lo hi : Nat} {es es' : List Entry}
    (hc : Chain lo ((es ++ es').map Entry.batch) hi)
    (hr : r ∈ (applyLog (newPartition pid cleanAfter) es).1.2.records) :
    r ∈ (applyLog (newPartition pid cleanAfter) (es ++ es')).1.2.records := by
  rw [List.map_append] at hc
  obtain ⟨f, h1, h2⟩ := hc.append
  rw [applyLog_append]
  exact ((frontier_new lo pid cleanAfter).log h1).log_keeps h2 hr

variable {i : Nat}

section Stamped

variable {log} (hrep : Replayable (log.entries.filterMap LogEntry.payload))

include hrep

theorem Replayable.state_mono {j : Nat} (h : i ≤ j)
    (hr : r ∈ (log.state pid cleanAfter i).2.records) :
    r ∈ (log.state pid cleanAfter j).2.records := by
  obtain ⟨lo, hi, _, hc⟩ := hrep.chain
  obtain ⟨rest, hrest⟩ := log.split j
  obtain ⟨more, hmore⟩ := log.upto_mono h
  rw [hrest, List.map_append, hmore] at hc
  obtain ⟨f, h1, _⟩ := hc.append
  rw [Log.state, hmore]
  exact applyLog_keeps pid cleanAfter h1 hr

theorem Replayable.state_all (hr : r ∈ (log.state pid cleanAfter i).2.records) :
    r ∈ log.all pid cleanAfter := by
  obtain ⟨lo, hi, _, hc⟩ := hrep.chain
  obtain ⟨rest, hrest⟩ := log.split i
  rw [hrest] at hc
  rw [Log.all, hrest]
  exact applyLog_keeps pid cleanAfter hc hr

theorem Replayable.all_keyed : Keyed (log.all pid cleanAfter) := by
  obtain ⟨lo, hi, _, hc⟩ := hrep.chain
  exact ((frontier_new lo pid cleanAfter).log hc).keyed

end Stamped

theorem Log.state_zero : log.state pid cleanAfter 0 = newPartition pid cleanAfter := by
  rw [Log.state, log.upto_zero]
  rfl

theorem Log.state_config (i : Nat) : (log.state pid cleanAfter i).1.pid = pid ∧
    (log.state pid cleanAfter i).1.cleanAfter = cleanAfter := by
  refine applyLog_invariant (fun s => s.1.pid = pid ∧ s.1.cleanAfter = cleanAfter) _ _ ⟨rfl, rfl⟩ ?_
  intro s e _ h
  rw [applyEntry_pid, applyEntry_cleanAfter]
  exact h

/-- An entry without a batch changes nothing, another one is applied. -/
theorem Log.state_next {e : LogEntry} (h : log.next i = some e) : log.state pid cleanAfter e.index =
      match e.payload with
      | none => log.state pid cleanAfter i
      | some b => (applyEntry (log.state pid cleanAfter i) ⟨e.index, 0, b⟩).1 := by
  cases hp : e.payload with
  | none =>
    have hnil : batches [e] = [] := by simp [batches, hp]
    rw [Log.state, (log.next_split h).2, hnil, List.append_nil]
    rfl
  | some b =>
    rw [Log.state, (log.next_batch h hp).2, applyLog_snoc]
    rfl

theorem applyLog_known {s : Manager × Store} {es : List Entry} {id : TxnId}
    (h : ((applyLog s es).1.1.status.lookup id).isSome = true) :
    (s.1.status.lookup id).isSome = true ∨ ∃ e ∈ es, Brings e.batch id := by
  induction es generalizing s with
  | nil => exact .inl h
  | cons e es ih =>
    rcases ih (s := (applyEntry s e).1) h with hk | ⟨x, hx, hb⟩
    · exact (applyEntry_known hk).imp_right fun hb => ⟨e, by simp, hb⟩
    · exact .inr ⟨x, by simp [hx], hb⟩

end State

/-! ## Replicas that follow the log -/

/-- The manager has applied the entries up to `i`, at any times and with any crashes. -/
structure Follows (log : Log) (pid : Nat) (cleanAfter : Int) (i : Nat) (m : Manager) : Prop where
  reachable : Reachable pid m
  known : ∀ id, (m.status.lookup id).isSome = true → ∃ e ∈ log.upto i, Brings e.batch id
  sim : Sim m (log.state pid cleanAfter i).1

section Follows

variable {log : Log} {pid : Nat} {cleanAfter : Int} {i : Nat} {m : Manager}

theorem follows_new : Follows log pid cleanAfter 0 (newManager pid cleanAfter) where
  reachable := .new cleanAfter
  known := by
    intro id hid
    cases hid
  sim := by
    rw [log.state_zero]
    exact Sim.refl _

theorem Follows.restore (h : Follows log pid cleanAfter i m) :
    Follows log pid cleanAfter i ((newManager pid cleanAfter).restore m.snapshot.roundTrip) := by
  have ha := restore_agree h.reachable.sound (newManager pid cleanAfter)
  obtain ⟨hpid, hclean⟩ := log.state_config pid cleanAfter i
  refine ⟨.restore (.new cleanAfter) h.reachable, ?_, ?_⟩
  · intro id hid
    rw [(ha id).1] at hid
    exact h.known id hid
  · refine ⟨hpid.symm, hclean.symm, h.sim.maxTimestamp, ?_⟩
    intro id
    obtain ⟨hs, hp⟩ := ha id
    rcases h.sim.record id with hr | hr | hr
    · exact .inl ⟨hs.trans hr.1, hp.trans hr.2⟩
    · exact .inr (.inl ⟨hs.trans hr.status, hp.trans hr.prepared, hr.final, hr.released⟩)
    · exact .inr (.inr ⟨hr.status, hr.prepared, hs ▸ hr.final, hp ▸ hr.released⟩)

variable {e : LogEntry} {b : TxnBatch}

/-- Over any store that holds what the entries before it wrote, and nothing that the log does
not write, the next batch runs as it did without crashes. -/
theorem Log.replay_entry (hrep : Replayable (log.entries.filterMap LogEntry.payload))
    (hn : log.next i = some e) (hp : e.payload = some b) {db : Store}
    (hsub : ∀ r ∈ (log.state pid cleanAfter i).2.records, r ∈ db.records)
    (hof : ∀ r ∈ db.records, r ∈ log.all pid cleanAfter) :
    (log.state pid cleanAfter i).1.runCmds (log.state pid cleanAfter i).2 (batchCmds b) =
      (log.state pid cleanAfter i).1.runCmds db (batchCmds b) := by
  obtain ⟨⟨post, hsplit⟩, _⟩ := log.next_batch hn hp
  obtain ⟨lo, hi, hpos, hc⟩ := hrep.chain
  have hind : Independent b := by
    refine hrep.independent b ?_
    rw [← batches_batch, hsplit]
    simp
  rw [hsplit, List.map_append, List.map_cons] at hc
  obtain ⟨f, h1, h2⟩ := hc.append
  have hfront := (frontier_new lo pid cleanAfter).log h1
  cases h2 with
  | cons hle hb hbs =>
    have hahead : ∀ r ∈ db.records, r ∈ (log.state pid cleanAfter i).2.records ∨
        r ∈ logWrites (log.state pid cleanAfter i) (⟨e.index, 0, b⟩ :: batches post) := by
      intro r hr
      have hall := hof r hr
      rw [Log.all, hsplit, applyLog_append] at hall
      rw [applyLog_records _ (_ :: _)] at hall
      exact mem_of_mem_overwriteAll hall
    exact replay_runCmds (e := ⟨e.index, 0, b⟩) (hfront.mono hle) (hpos.trans (h1.le.trans hle))
      hb hbs hind hsub hahead

theorem Follows.fresh (h : Follows log pid cleanAfter i m)
    (hrep : Replayable (log.entries.filterMap LogEntry.payload)) (hn : log.next i = some e)
    (hp : e.payload = some b) :
    ∀ c ∈ batchCmds b, c.newTxn = none ∨ Agree m (log.state pid cleanAfter i).1 c.id := by
  obtain ⟨⟨post, hsplit⟩, _⟩ := log.next_batch hn hp
  have honce := hrep.once
  rw [← batches_batch, hsplit, List.map_append, List.map_cons] at honce
  have hbefore := (List.pairwise_append.mp honce).2.2
  intro c hc
  cases hu : c.newTxn with
  | none => exact .inl rfl
  | some u =>
    have hid : u.id = c.id := by
      cases c <;> cases hu <;> rfl
    have hnot : ¬ ∃ x ∈ log.upto i, Brings x.batch c.id := by
      rintro ⟨x, hx, hbx⟩
      exact hbefore x.batch (List.mem_map_of_mem hx) b (by simp) c.id hbx ⟨c, hc, u, hu, hid⟩
    have hm : (m.status.lookup c.id).isSome = false :=
      Bool.eq_false_of_not_eq_true fun hk => hnot (h.known _ hk)
    have hs : ((log.state pid cleanAfter i).1.status.lookup c.id).isSome = false :=
      Bool.eq_false_of_not_eq_true fun hk =>
        hnot ((applyLog_known hk).resolve_left (by rintro ⟨⟩))
    exact .inr (h.sim.agree (hm.trans hs.symm))

/-- **Replay.** The replica writes the records of the log again. -/
theorem Follows.apply (h : Follows log pid cleanAfter i m)
    (hrep : Replayable (log.entries.filterMap LogEntry.payload)) (hn : log.next i = some e)
    (hp : e.payload = some b) {db : Store}
    (hsub : ∀ r ∈ (log.state pid cleanAfter i).2.records, r ∈ db.records)
    (hof : ∀ r ∈ db.records, r ∈ log.all pid cleanAfter) (now : Int) :
    entryWrites (m, db) ⟨e.index, now, b⟩ =
      entryWrites (log.state pid cleanAfter i) ⟨e.index, 0, b⟩ ∧
    Follows log pid cleanAfter e.index (applyEntry (m, db) ⟨e.index, now, b⟩).1.1 := by
  have hrun := log.replay_entry hrep hn hp hsub hof
  obtain ⟨hman, _, hwrites⟩ := applyEntry_congr (e := ⟨e.index, 0, b⟩) hrun
  have hentry : entryWrites (m, db) ⟨e.index, now, b⟩ =
        entryWrites ((log.state pid cleanAfter i).1, db) ⟨e.index, 0, b⟩ ∧
      Sim (applyEntry (m, db) ⟨e.index, now, b⟩).1.1
        (applyEntry ((log.state pid cleanAfter i).1, db) ⟨e.index, 0, b⟩).1.1 :=
    h.sim.entry_writes db rfl (h.fresh hrep hn hp)
  obtain ⟨hw, hsim⟩ := hentry
  refine ⟨hw.trans hwrites.symm, .batch h.reachable db _, ?_, ?_⟩
  · intro id hid
    rw [(log.next_batch hn hp).2]
    rcases applyEntry_known hid with hk | hb
    · obtain ⟨x, hx, hbx⟩ := h.known id hk
      exact ⟨x, by simp [hx], hbx⟩
    · exact ⟨⟨e.index, 0, b⟩, by simp, hb⟩
  · rw [log.state_next pid cleanAfter hn, hp]
    rw [← hman] at hsim
    exact hsim

end Follows

/-! ## Column families that hold records of the log only -/

section Stored

variable {all : List Record} {db : Store} {ws : List WriteBatch} {r : Record}

theorem writeAll_within (hdb : ∀ r ∈ db.records, r ∈ all)
    (hws : ∀ w ∈ ws, ∀ r ∈ putRecords w.records, r ∈ all) :
    ∀ r ∈ (writeAll db ws).records, r ∈ all := by
  induction ws generalizing db with
  | nil => exact hdb
  | cons w ws ih =>
    have hput : ∀ r ∈ (db.put w.index w.records).records, r ∈ all := by
      intro r hr
      rcases mem_overwriteAll_cases hr with hr | hr
      · exact hdb r hr
      · exact hws w (by simp) r hr
    exact ih hput fun x hx => hws x (by simp [hx])

theorem writeAll_keeps (hk : Keyed all) (hws : ∀ w ∈ ws, ∀ r ∈ putRecords w.records, r ∈ all)
    (hr : r ∈ db.records) (hall : r ∈ all) : r ∈ (writeAll db ws).records := by
  induction ws generalizing db with
  | nil => exact hr
  | cons w ws ih =>
    have hput : r ∈ (db.put w.index w.records).records :=
      hk.mem_overwriteAll (hws w (by simp)) hr hall
    exact ih (fun x hx => hws x (by simp [hx])) hput

/-- On disk and in memory there are only records of `all`. -/
structure Stored (all : List Record) (cf : ColumnFamily) : Prop where
  disk : ∀ r ∈ cf.disk.records, r ∈ all
  memtable : ∀ w ∈ cf.memtable, ∀ r ∈ putRecords w.records, r ∈ all

variable {cf : ColumnFamily}

theorem Stored.view (h : Stored all cf) : ∀ r ∈ cf.view.records, r ∈ all :=
  writeAll_within h.disk h.memtable

theorem Stored.put (h : Stored all cf) {records : List Record}
    (hp : ∀ r ∈ putRecords records, r ∈ all) (index : Nat) : Stored all (cf.put index records) where
  disk := h.disk
  memtable := by
    intro w hw
    rcases List.mem_append.mp hw with hw | hw
    · exact h.memtable w hw
    · rw [List.mem_singleton.mp hw]
      exact hp

theorem Stored.flush (h : Stored all cf) (n : Nat) : Stored all (cf.flush n) where
  disk := writeAll_within h.disk fun w hw => h.memtable w (List.mem_of_mem_take hw)
  memtable := fun w hw => h.memtable w (List.mem_of_mem_drop hw)

theorem Stored.flush_keeps (h : Stored all cf) (hk : Keyed all) (n : Nat)
    (hr : r ∈ cf.disk.records) : r ∈ (cf.flush n).disk.records :=
  writeAll_keeps hk (fun w hw => h.memtable w (List.mem_of_mem_take hw)) hr (h.disk r hr)

theorem Stored.lose (h : Stored all cf) : Stored all cf.lose where
  disk := h.disk
  memtable := by
    intro w hw
    cases hw

end Stored

/-! ## Runs -/

/-- The column family; one that does not exist yet is empty. -/
def Replica.store (s : Replica) : ColumnFamily := s.cf.getD {}

/-- The last snapshot can be restored: it follows the log, and its records are on disk. -/
structure Restorable (log : Log) (pid : Nat) (cleanAfter : Int) (disk : List Record)
    (snap : Snapshot) : Prop where
  manager : ∃ m, snap.txnSnapshot = m.snapshot ∧ Follows log pid cleanAfter snap.index m
  records : ∀ r ∈ (log.state pid cleanAfter snap.index).2.records, r ∈ disk

structure Inv (log : Log) (pid : Nat) (cleanAfter : Int) (s : Replica) : Prop where
  follows : Follows log pid cleanAfter s.index s.txn
  stored : Stored (log.all pid cleanAfter) s.store
  applied : ∀ r ∈ (log.state pid cleanAfter s.index).2.records, r ∈ s.store.view.records
  snapshot : ∀ snap, s.snapshot = some snap →
    Restorable log pid cleanAfter s.store.disk.records snap
  written : ∀ w ∈ s.written, w.2 ∈ (log.state pid cleanAfter w.1).2.records

section Runs

variable {log : Log} {pid : Nat} {cleanAfter : Int} {s : Replica}
  (hrep : Replayable (log.entries.filterMap LogEntry.payload))

theorem inv_new : Inv log pid cleanAfter (newReplica pid cleanAfter) where
  follows := follows_new
  stored := ⟨by rintro r ⟨⟩, by rintro w ⟨⟩⟩
  applied := by
    intro r hr
    change r ∈ (log.state pid cleanAfter 0).2.records at hr
    rw [log.state_zero] at hr
    cases hr
  snapshot := by rintro snap ⟨⟩
  written := by rintro w ⟨⟩

include hrep in
theorem Inv.flush (h : Inv log pid cleanAfter s) (n : Nat) :
    Inv log pid cleanAfter { s with cf := s.cf.map fun cf => cf.flush n } := by
  have hstore : Replica.store { s with cf := s.cf.map fun cf => cf.flush n } = s.store.flush n := by
    unfold Replica.store
    cases s.cf with
    | none => simp [ColumnFamily.flush, writeAll]
    | some cf => rfl
  refine ⟨h.follows, ?_, ?_, ?_, h.written⟩
  · rw [hstore]
    exact h.stored.flush n
  · rw [hstore, ColumnFamily.flush_view]
    exact h.applied
  · intro snap hsnap
    rw [hstore]
    refine ⟨(h.snapshot snap hsnap).manager, fun r hr => ?_⟩
    have hdisk := (h.snapshot snap hsnap).records r hr
    exact h.stored.flush_keeps (hrep.all_keyed pid cleanAfter) n hdisk

include hrep in
theorem Inv.sync (h : Inv log pid cleanAfter s) :
    Inv log pid cleanAfter (s.takeSnapshot pid).1 := by
  rw [takeSnapshot_state]
  have hn : ∃ n, s.cf.map ColumnFamily.sync = s.cf.map fun cf => cf.flush n := by
    cases s.cf with
    | none => exact ⟨0, rfl⟩
    | some cf => exact ⟨cf.memtable.length, rfl⟩
  obtain ⟨n, hn⟩ := hn
  rw [hn]
  exact h.flush hrep n

theorem Inv.restart (h : Inv log pid cleanAfter s) {i : Nat} {m : Manager}
    (hf : Follows log pid cleanAfter i m)
    (hd : ∀ r ∈ (log.state pid cleanAfter i).2.records, r ∈ s.store.disk.records) :
    Inv log pid cleanAfter { s with index := i, txn := m, cf := s.cf.map ColumnFamily.lose } := by
  have hstore : Replica.store { s with index := i, txn := m, cf := s.cf.map ColumnFamily.lose } =
      s.store.lose := by
    unfold Replica.store
    cases s.cf <;> rfl
  refine ⟨hf, ?_, ?_, ?_, h.written⟩
  · rw [hstore]
    exact h.stored.lose
  · rw [hstore]
    exact hd
  · rw [hstore]
    exact h.snapshot

theorem Inv.crash (h : Inv log pid cleanAfter s) :
    Inv log pid cleanAfter (s.crash pid cleanAfter) := by
  rcases crash_cases pid cleanAfter (s := s) with ⟨_, hc⟩ | ⟨snap, hsnap, hc⟩
  · rw [hc]
    refine h.restart follows_new ?_
    intro r hr
    rw [log.state_zero] at hr
    cases hr
  · rw [hc]
    have hres := h.snapshot snap hsnap
    obtain ⟨m, hm, hfollows⟩ := hres.manager
    refine h.restart ?_ hres.records
    rw [hm]
    exact hfollows.restore

variable {e : LogEntry}

theorem Inv.skip (h : Inv log pid cleanAfter s) (hn : log.next s.index = some e)
    (hp : e.payload = none) :
    Inv log pid cleanAfter { s with cf := s.initPartition, index := e.index } := by
  have hnext := log.state_next pid cleanAfter hn
  rw [hp] at hnext
  have hstore : Replica.store { s with cf := s.initPartition, index := e.index } = s.store :=
    initPartition_getD
  refine ⟨⟨h.follows.reachable, ?_, ?_⟩, ?_, ?_, ?_, h.written⟩
  · intro id hid
    obtain ⟨x, hx, hb⟩ := h.follows.known id hid
    refine ⟨x, ?_, hb⟩
    rw [(log.next_split hn).2]
    exact List.mem_append_left _ hx
  · dsimp only
    rw [hnext]
    exact h.follows.sim
  · rw [hstore]
    exact h.stored
  · rw [hstore]
    rw [hnext]
    exact h.applied
  · rw [hstore]
    exact h.snapshot

include hrep in
theorem Inv.putBatch (h : Inv log pid cleanAfter s) {b : TxnBatch}
    (hn : log.next s.index = some e) (hp : e.payload = some b) {m : Manager}
    (hf : Follows log pid cleanAfter e.index m) {writes : List Record}
    (hw : writes = entryWrites (log.state pid cleanAfter s.index) ⟨e.index, 0, b⟩) :
    Inv log pid cleanAfter { s with
        index := e.index
        txn := m
        cf := some (s.store.put e.index writes)
        written := s.written ++ (putRecords writes).map fun r => (e.index, r) } := by
  have hnext := log.state_next pid cleanAfter hn
  rw [hp] at hnext
  have hrec : (log.state pid cleanAfter e.index).2.records =
      overwriteAll Record.address Record.timestamp (log.state pid cleanAfter s.index).2.records
        writes := by
    rw [hnext, hw]
    exact applyEntry_records _ _
  have hput : ∀ r ∈ putRecords writes, r ∈ (log.state pid cleanAfter e.index).2.records := by
    intro r hr
    rw [hrec]
    exact overwriteAll_mono (by simp) hr
  refine ⟨hf, ?_, ?_, h.snapshot, ?_⟩
  · exact h.stored.put (fun r hr => hrep.state_all pid cleanAfter (hput r hr)) e.index
  · intro r hr
    change r ∈ (s.store.put e.index writes).view.records
    rw [ColumnFamily.put_view]
    rw [hrec] at hr
    exact overwriteAll_mono h.applied hr
  · intro w hw'
    rcases List.mem_append.mp hw' with hw' | hw'
    · exact h.written w hw'
    · obtain ⟨r, hr, rfl⟩ := List.mem_map.mp hw'
      exact hput r hr

include hrep in
theorem Inv.apply (h : Inv log pid cleanAfter s) (hn : log.next s.index = some e) (now : Int) :
    Inv log pid cleanAfter (s.apply pid cleanAfter e now) := by
  rcases apply_cases pid cleanAfter (s := s) e now with ⟨hp, ha⟩ | ha | ⟨b, cf, hp, hcf, ha⟩
  · rw [ha]
    exact h.skip hn hp
  · rw [ha]
    exact h.crash
  · have hstore : cf = s.store := by
      have hget := initPartition_getD (s := s)
      rw [hcf] at hget
      exact hget
    subst hstore
    obtain ⟨hw, hf⟩ := h.follows.apply hrep hn hp h.applied h.stored.view now
    rw [ha]
    exact h.putBatch hrep hn hp hf hw

theorem Inv.applied_on_disk (h : Inv log pid cleanAfter s) {cf : ColumnFamily}
    (hcf : s.cf = some cf) {r : Record} (hr : r ∈ (log.state pid cleanAfter s.index).2.records) :
    r ∈ (Replica.store (s.takeSnapshot pid).1).disk.records := by
  have happ := h.applied r hr
  rw [Replica.store, hcf] at happ
  rw [takeSnapshot_state, Replica.store, hcf]
  change r ∈ cf.sync.disk.records
  rw [ColumnFamily.sync_disk]
  exact happ

include hrep in
/-- **Step.** -/
theorem Inv.step (h : Inv log pid cleanAfter s) {a : Action} {s' : Replica}
    (hs : step pid cleanAfter log s a = some s') : Inv log pid cleanAfter s' := by
  cases a with
  | apply now =>
    obtain ⟨e, hn, rfl⟩ := Option.map_eq_some_iff.mp hs
    exact h.apply hrep hn now
  | flush n =>
    cases hs
    exact h.flush hrep n
  | crash =>
    cases hs
    exact h.crash
  | snapshot persisted =>
    rcases step_snapshot pid cleanAfter hs with rfl | ⟨data, hok, rfl⟩
    · exact h.sync hrep
    obtain ⟨cf, hcf, rfl⟩ := takeSnapshot_ok pid hok
    have hsync := h.sync hrep
    refine ⟨hsync.follows, hsync.stored, hsync.applied, ?_, hsync.written⟩
    rintro snap ⟨⟩
    refine ⟨⟨s.txn, rfl, h.follows⟩, fun r hr => ?_⟩
    exact h.applied_on_disk hcf hr

include hrep in
theorem Inv.durable (h : Inv log pid cleanAfter s) : Durable pid s := by
  intro data hdata w hw hle
  obtain ⟨cf, hcf, rfl⟩ := takeSnapshot_ok pid hdata
  have hsynced : (s.takeSnapshot pid).1.cf = some cf.sync := by
    rw [takeSnapshot_state, hcf]
    rfl
  have hdisk := h.applied_on_disk hcf (hrep.state_mono pid cleanAfter hle (h.written w hw))
  rw [Replica.store, hsynced] at hdisk
  exact ⟨cf.sync, hsynced, hdisk⟩

end Runs

/-- **Snapshots are durable**, in every run over a log of independent batches that are stamped in
order and bring each txn once. -/
theorem snapshot_durable (log : Log) (pid : Nat) (cleanAfter : Int)
    (hrep : Replayable (log.entries.filterMap LogEntry.payload)) (acts : List Action) (s : Replica)
    (hrun : runSteps (step pid cleanAfter log) (newReplica pid cleanAfter) acts = some s) :
    Durable pid s := by
  have hinv : Inv log pid cleanAfter s := runSteps_preserves (step pid cleanAfter log)
    (Inv log pid cleanAfter) (fun _ _ _ hi hs => hi.step hrep hs) inv_new hrun
  exact hinv.durable hrep

/-! ## Two logs -/

def Log.ofWriter (es : List Event) (hpos : ∀ e ∈ logOf es, 0 < e.index)
    (hinc : (logOf es).Pairwise fun e e' => e.index < e'.index) : Log where
  entries := (logOf es).map fun e => ⟨e.index, some e.batch⟩
  positive := by
    intro e he
    obtain ⟨x, hx, rfl⟩ := List.mem_map.mp he
    exact hpos x hx
  increasing := List.pairwise_map.mpr hinc

theorem Log.ofWriter_payloads (es : List Event) (hpos : ∀ e ∈ logOf es, 0 < e.index)
    (hinc : (logOf es).Pairwise fun e e' => e.index < e'.index) :
    (Log.ofWriter es hpos hinc).entries.filterMap LogEntry.payload =
      (logOf es).map Entry.batch := by
  rw [Log.ofWriter, List.filterMap_map, ← List.filterMap_eq_map]
  rfl

/-- An autocommit and a prepare that insert the same key are flushed together, and the
prepared txn, which also writes another key, commits. -/
def insertedTwice : Log :=
  Log.ofWriter
    [.autocommit ⟨⟨1, 1, 1⟩, [⟨0, some (.insert 16 [0] [1])⟩], []⟩,
      .prepare ⟨⟨1, 1, 2⟩, [⟨0, some (.insert 16 [0] [2])⟩, ⟨1, some (.upsert 16 [1] [2])⟩],
        [1, 2]⟩,
      .flush [] (some (1, 0)), .commit ⟨1, 1, 2⟩ 3, .flush [] (some (2, 0))]
    (by decide) (by decide)

/-- Only the first entry is flushed before a crash. Its replay finds the key that it inserted
before, so the txn is not prepared, and the replay of its commit writes nothing but the index. -/
def lostCommit : List Action := [.apply 0, .flush 1, .apply 0, .crash, .apply 0, .apply 0]

/-- Not even for the log of one writer. -/
theorem snapshot_not_durable :
    ¬ ∀ (log : Log) (clock : Clock) (es : List Event), log.entries.filterMap LogEntry.payload =
        (Writer.run { clock } es).log.map Entry.batch →
      ∀ (pid : Nat) (cleanAfter : Int) (acts : List Action) (s : Replica),
      runSteps (step pid cleanAfter log) (newReplica pid cleanAfter) acts = some s →
        Durable pid s := by
  intro h
  obtain ⟨cf, hcf, hmem⟩ := h insertedTwice ⟨1, Nat.one_pos⟩ _
    (Log.ofWriter_payloads _ (by decide) (by decide)) 1 0 lostCommit _ rfl ⟨2, _⟩ rfl
    (2, ⟨⟨16, [1]⟩, 3, mustEncodeValue [2], flagEmpty⟩) (by decide) le_rfl
  cases hcf
  exact absurd hmem (by decide)

def separateKeys : Log :=
  Log.ofWriter
    [.autocommit ⟨⟨1, 1, 1⟩, [⟨0, some (.insert 16 [0] [1])⟩], []⟩, .flush [] (some (1, 0)),
      .autocommit ⟨⟨1, 1, 2⟩, [⟨0, some (.insert 16 [1] [1])⟩], []⟩, .flush [] (some (2, 0))]
    (by decide) (by decide)

theorem separateKeys_replayable : Replayable (separateKeys.entries.filterMap LogEntry.payload) := by
  have hbs : separateKeys.entries.filterMap LogEntry.payload =
      [{ autocommit := [⟨2, ⟨1, 1, 1⟩, [⟨0, some (.insert 16 [0] [1])⟩], []⟩], maxTimestamp := 2 },
        { autocommit := [⟨3, ⟨1, 1, 2⟩, [⟨0, some (.insert 16 [1] [1])⟩], []⟩],
          maxTimestamp := 3 }] := rfl
  refine ⟨?_, ?_, ?_⟩
  · rw [separateKeys, Log.ofWriter_payloads]
    exact writer_stampedInOrder ⟨1, Nat.one_pos⟩ _
  · rw [hbs]
    intro b hb
    simp only [List.mem_cons, List.not_mem_nil, or_false] at hb
    rcases hb with rfl | rfl <;> exact ⟨List.pairwise_singleton _ _, by rintro _ _ _ ⟨⟩⟩
  · rw [hbs, List.pairwise_pair]
    rintro id ⟨c, hc, u, hu, rfl⟩ ⟨c', hc', u', hu', hid⟩
    simp only [batchCmds, List.map_nil, List.map_cons, List.nil_append, List.append_nil,
      List.mem_singleton] at hc hc'
    subst hc hc'
    cases hu
    cases hu'
    cases hid

/-- The second entry is lost in a crash after a snapshot, and applied again. -/
def replayedKey : List Action := [.apply 0, .snapshot true, .apply 0, .crash, .apply 5]

theorem snapshot_durable_separateKeys :
    ∃ s data, runSteps (step 1 0 separateKeys) (newReplica 1 0) replayedKey = some s ∧
      (s.takeSnapshot 1).2 = .ok data ∧ s.written.length = 3 ∧ Durable 1 s := by
  obtain ⟨s, data, hrun, hdata, hlen⟩ : ∃ s data,
      runSteps (step 1 0 separateKeys) (newReplica 1 0) replayedKey = some s ∧
      (s.takeSnapshot 1).2 = .ok data ∧ s.written.length = 3 := ⟨_, _, rfl, rfl, by decide⟩
  exact ⟨s, data, hrun, hdata, hlen,
    snapshot_durable separateKeys 1 0 separateKeys_replayable replayedKey s hrun⟩

end Scout.Fsm
