import Scout.Txn.Batch

/-!
The leader's writer (`writer.go`): requests of `Service` are collected into a
batch, `prepareBatch` stamps it from the HLC and hands it to Raft. `Chain` is
what the logs it can produce have in common.
-/

namespace Scout.Txn

open Data Lib

/-- What the writer relies on of the HLC: a reading is above every earlier
reading and every accepted timestamp. It starts from a wall clock, so it is
never zero. -/
structure Clock where
  last : Nat
  pos : 0 < last

/-- `hlc.Now`: the clock may have advanced by any amount since. -/
def Clock.now (h : Clock) (drift : Nat) : Clock := ⟨h.last + 1 + drift, by omega⟩

/-- `hlc.Update`, when it accepts the timestamp: the clock moves past it. -/
def Clock.update (h : Clock) (incoming : Nat) : Clock :=
  ⟨max h.last incoming + 1, Nat.succ_pos _⟩

theorem Clock.le_update (h : Clock) (incoming : Nat) : h.last ≤ (h.update incoming).last :=
  (le_max_left _ _).trans (Nat.le_succ _)

theorem Clock.incoming_le_update (h : Clock) (incoming : Nat) :
    incoming ≤ (h.update incoming).last := (le_max_right _ _).trans (Nat.le_succ _)

/-! ## `prepareBatch` -/

structure Stamper where
  clock : Clock
  drift : List Nat
  maxTS : Nat

def Stamper.hlcNow (s : Stamper) : Stamper :=
  { clock := s.clock.now (s.drift.headD 0), drift := s.drift.tail,
    maxTS := s.clock.last + 1 + s.drift.headD 0 }

/-- One of the loops of `prepareBatch`. -/
def stampAll {α : Type} (set : Nat → α → α) (s : Stamper) (xs : List α) : Stamper × List α :=
  loop (fun s x => (s.hlcNow, set s.hlcNow.maxTS x)) s xs

/-- Commit timestamps are left as the coordinator chose them. -/
def prepareBatch (clock : Clock) (drift : List Nat) (b : TxnBatch) : Clock × TxnBatch :=
  let s : Stamper := { clock, drift, maxTS := 0 }
  let autocommit := stampAll (fun t x => { x with timestamp := t }) s b.autocommit
  let prepare := stampAll (fun t x => { x with timestamp := t }) autocommit.1 b.prepare
  let abort := stampAll (fun t x => { x with timestamp := t }) prepare.1 b.abort
  let decision := stampAll (fun t x => { x with timestamp := t }) abort.1 b.storeDecision
  let timedout := stampAll (fun t x => { x with timestamp := t }) decision.1 b.markTimedout
  let maxTS := b.commit.foldl (fun m x => max m x.timestamp) timedout.1.maxTS
  (timedout.1.clock,
    { autocommit := autocommit.2, prepare := prepare.2, commit := b.commit, abort := abort.2,
      storeDecision := decision.2, markTimedout := timedout.2,
      maxTimestamp := max b.maxTimestamp maxTS })

/-! ## Requests and batches -/

inductive Event where
  | autocommit (txn : Txn)
  | prepare (txn : Txn)
  | commit (id : TxnId) (commitTimestamp : Nat)
  | abort (id : TxnId)
  | storeDecision (decision : Decision)
  | markTimedout (id : TxnId) (releaseLocks : Bool)
  | updateTimestamp (timestamp : Nat)
  /-- `hlc.Update` by a request that writes nothing. -/
  | observe (timestamp : Nat)
  /-- `nextBatch`. Raft may fail to commit the batch; otherwise it gets a log
  index and is applied at some time `now`. -/
  | flush (drift : List Nat) (committed : Option (Nat × Int))

structure Writer where
  clock : Clock
  batch : TxnBatch := {}
  log : List Entry := []

def Writer.flush (w : Writer) (drift : List Nat) (committed : Option (Nat × Int)) : Writer :=
  let r := prepareBatch w.clock drift w.batch
  { clock := r.1, batch := {},
    log := w.log ++ (committed.map fun x => ⟨x.1, x.2, r.2⟩).toList }

/-- `Service` updates the HLC with a commit, decision or read timestamp before
the command reaches the writer. -/
def Writer.step (w : Writer) : Event → Writer
  | .autocommit txn =>
    { w with batch := { w.batch with autocommit := w.batch.autocommit ++ [⟨0, txn⟩] } }
  | .prepare txn =>
    { w with batch := { w.batch with prepare := w.batch.prepare ++ [⟨0, txn⟩] } }
  | .commit id t =>
    { w with clock := w.clock.update t,
             batch := { w.batch with commit := w.batch.commit ++ [⟨t, id⟩] } }
  | .abort id =>
    { w with batch := { w.batch with abort := w.batch.abort ++ [⟨0, id⟩] } }
  | .storeDecision d =>
    { w with clock := w.clock.update d.commitTimestamp,
             batch := { w.batch with storeDecision := w.batch.storeDecision ++ [⟨0, d⟩] } }
  | .markTimedout id r =>
    { w with batch := { w.batch with markTimedout := w.batch.markTimedout ++ [⟨0, id, r⟩] } }
  | .updateTimestamp t =>
    { w with clock := w.clock.update t,
             batch := { w.batch with maxTimestamp := max w.batch.maxTimestamp t } }
  | .observe t => { w with clock := w.clock.update t }
  | .flush drift committed => w.flush drift committed

def Writer.run (w : Writer) (es : List Event) : Writer := es.foldl Writer.step w

/-- The log of a writer whose clock starts at 1. -/
abbrev logOf (es : List Event) : List Entry :=
  (Writer.run { clock := ⟨1, Nat.one_pos⟩ } es).log

/-! ## What the logs have in common -/

/-- The timestamps that `prepareBatch` assigned, in the order it did. -/
def stamps (b : TxnBatch) : List Nat :=
  b.autocommit.map Autocommit.timestamp ++ b.prepare.map Prepare.timestamp ++
    b.abort.map Abort.timestamp ++ b.storeDecision.map StoreDecision.timestamp ++
    b.markTimedout.map MarkTimedout.timestamp

/-- A batch stamped between the clock readings `lo` and `hi`. -/
structure Stamped (lo : Nat) (b : TxnBatch) (hi : Nat) : Prop where
  le : lo ≤ hi
  sorted : (stamps b).Pairwise (· < ·)
  fresh : ∀ t ∈ stamps b, lo < t ∧ t ≤ hi
  commits : ∀ c ∈ b.commit, c.timestamp ≤ lo
  max_le : b.maxTimestamp ≤ hi
  stamp_le : ∀ t ∈ stamps b, t ≤ b.maxTimestamp
  commit_le : ∀ c ∈ b.commit, c.timestamp ≤ b.maxTimestamp

/-- Batches stamped one after the other, by a clock that moves from `lo` to `hi`. -/
inductive Chain : Nat → List TxnBatch → Nat → Prop
  | nil {lo hi : Nat} (h : lo ≤ hi) : Chain lo [] hi
  | cons {lo lo' mid hi : Nat} {b : TxnBatch} {bs : List TxnBatch} (h : lo ≤ lo')
      (hb : Stamped lo' b mid) (hbs : Chain mid bs hi) : Chain lo (b :: bs) hi

variable {lo hi : Nat} {bs : List TxnBatch}

/-- The batches of a log are stamped one after the other, by whichever leaders. -/
def StampedInOrder (bs : List TxnBatch) : Prop := ∃ lo hi, 1 ≤ lo ∧ Chain lo bs hi

theorem Chain.le (h : Chain lo bs hi) : lo ≤ hi := by
  induction h with
  | nil h => exact h
  | cons h hb _ ih => exact h.trans (hb.le.trans ih)

theorem Chain.weaken {hi' : Nat} (h : Chain lo bs hi) (hh : hi ≤ hi') : Chain lo bs hi' := by
  induction h with
  | nil h => exact .nil (h.trans hh)
  | cons h hb _ ih => exact .cons h hb (ih hh)

theorem Chain.snoc {mid lo' : Nat} {b : TxnBatch} (h : Chain lo bs mid) (hle : mid ≤ lo')
    (hb : Stamped lo' b hi) : Chain lo (bs ++ [b]) hi := by
  induction h with
  | nil h => exact .cons (h.trans hle) hb (.nil le_rfl)
  | cons h hb' _ ih => exact .cons h hb' (ih hle)

theorem Chain.append {cs : List TxnBatch} (h : Chain lo (bs ++ cs) hi) :
    ∃ mid, Chain lo bs mid ∧ Chain mid cs hi := by
  induction bs generalizing lo with
  | nil => exact ⟨lo, .nil le_rfl, h⟩
  | cons b bs ih =>
    cases h with
    | cons hle hb hbs =>
      obtain ⟨mid, h1, h2⟩ := ih hbs
      exact ⟨mid, .cons hle hb h1, h2⟩

/-! ## `prepareBatch` stamps in order -/

/-- What one stamping loop did between `s` and `s'`. -/
structure StampedBy (s s' : Stamper) (ts : List Nat) : Prop where
  le : s.clock.last ≤ s'.clock.last
  sorted : ts.Pairwise (· < ·)
  fresh : ∀ t ∈ ts, s.clock.last < t ∧ t ≤ s'.clock.last
  maxTS : s'.maxTS = if ts = [] then s.maxTS else s'.clock.last
  idle : ts = [] → s'.clock = s.clock

theorem StampedBy.append {s s' s'' : Stamper} {ts us : List Nat} (h : StampedBy s s' ts)
    (h' : StampedBy s' s'' us) : StampedBy s s'' (ts ++ us) where
  le := h.le.trans h'.le
  sorted := by
    rw [List.pairwise_append]
    refine ⟨h.sorted, h'.sorted, ?_⟩
    intro t ht u hu
    have h1 := (h.fresh t ht).2
    have h2 := (h'.fresh u hu).1
    omega
  fresh := by
    intro t ht
    rcases List.mem_append.mp ht with ht | ht
    · have := h.fresh t ht
      have := h'.le
      omega
    · have := h'.fresh t ht
      have := h.le
      omega
  maxTS := by
    rw [h'.maxTS, h.maxTS]
    by_cases hu : us = []
    · by_cases ht : ts = []
      · simp [hu, ht]
      · simp [hu, ht, h'.idle hu]
    · simp [hu]
  idle := by
    intro e
    obtain ⟨ht, hu⟩ := List.append_eq_nil_iff.mp e
    rw [h'.idle hu, h.idle ht]

theorem stampAll_spec {α : Type} (set : Nat → α → α) (get : α → Nat)
    (hget : ∀ t x, get (set t x) = t) (s : Stamper) (xs : List α) :
    StampedBy s (stampAll set s xs).1 ((stampAll set s xs).2.map get) := by
  induction xs generalizing s with
  | nil => exact ⟨le_rfl, .nil, by simp [stampAll], rfl, fun _ => rfl⟩
  | cons x xs ih =>
    have hx : StampedBy s s.hlcNow [s.hlcNow.maxTS] := by
      refine ⟨?_, List.pairwise_singleton _ _, ?_, rfl, fun h => by cases h⟩
      · simp only [Stamper.hlcNow, Clock.now]; omega
      · simp only [List.mem_singleton, Stamper.hlcNow, Clock.now]; omega
    have h := hx.append (ih s.hlcNow)
    simpa [stampAll, loop_cons, hget] using h

theorem foldl_max_le (cs : List Commit) (m hi : Nat) (hm : m ≤ hi)
    (h : ∀ c ∈ cs, c.timestamp ≤ hi) : cs.foldl (fun m x => max m x.timestamp) m ≤ hi := by
  induction cs generalizing m with
  | nil => exact hm
  | cons c cs ih =>
    have hc := h c (by simp)
    exact ih _ (Nat.max_le.mpr ⟨hm, hc⟩) (fun x hx => h x (by simp [hx]))

theorem le_foldl_max (cs : List Commit) (m : Nat) : m ≤ cs.foldl (fun m x => max m x.timestamp) m ∧
      ∀ c ∈ cs, c.timestamp ≤ cs.foldl (fun m x => max m x.timestamp) m := by
  induction cs generalizing m with
  | nil => simp
  | cons c cs ih =>
    obtain ⟨h1, h2⟩ := ih (max m c.timestamp)
    rw [List.foldl_cons]
    refine ⟨by omega, ?_⟩
    intro x hx
    rcases List.mem_cons.mp hx with rfl | hx
    · omega
    · exact h2 x hx

theorem prepareBatch_stampedBy (clock : Clock) (drift : List Nat) (b : TxnBatch) :
    ∃ s' : Stamper, s'.clock = (prepareBatch clock drift b).1 ∧
      StampedBy { clock, drift, maxTS := 0 } s' (stamps (prepareBatch clock drift b).2) ∧
      (prepareBatch clock drift b).2.maxTimestamp =
        max b.maxTimestamp (b.commit.foldl (fun m x => max m x.timestamp) s'.maxTS) := by
  have h1 := stampAll_spec (fun t (x : Autocommit) => { x with timestamp := t })
    Autocommit.timestamp (fun _ _ => rfl) { clock, drift, maxTS := 0 } b.autocommit
  have h2 := fun s => stampAll_spec (fun t (x : Prepare) => { x with timestamp := t })
    Prepare.timestamp (fun _ _ => rfl) s b.prepare
  have h3 := fun s => stampAll_spec (fun t (x : Abort) => { x with timestamp := t })
    Abort.timestamp (fun _ _ => rfl) s b.abort
  have h4 := fun s => stampAll_spec (fun t (x : StoreDecision) => { x with timestamp := t })
    StoreDecision.timestamp (fun _ _ => rfl) s b.storeDecision
  have h5 := fun s => stampAll_spec (fun t (x : MarkTimedout) => { x with timestamp := t })
    MarkTimedout.timestamp (fun _ _ => rfl) s b.markTimedout
  exact ⟨_, rfl, (((h1.append (h2 _)).append (h3 _)).append (h4 _)).append (h5 _), rfl⟩

theorem prepareBatch_max (clock : Clock) (drift : List Nat) (b : TxnBatch) :
    b.maxTimestamp ≤ (prepareBatch clock drift b).2.maxTimestamp ∧
      (∀ t ∈ stamps (prepareBatch clock drift b).2,
        t ≤ (prepareBatch clock drift b).2.maxTimestamp) ∧
      ∀ c ∈ b.commit, c.timestamp ≤ (prepareBatch clock drift b).2.maxTimestamp := by
  obtain ⟨s', _, h, hmax⟩ := prepareBatch_stampedBy clock drift b
  obtain ⟨hf1, hf2⟩ := le_foldl_max b.commit s'.maxTS
  rw [hmax]
  refine ⟨le_max_left _ _, ?_, ?_⟩
  · intro t ht
    have hne : stamps (prepareBatch clock drift b).2 ≠ [] := List.ne_nil_of_mem ht
    have h2 := (h.fresh t ht).2
    have h3 := h.maxTS
    rw [if_neg hne] at h3
    omega
  · intro c hcm
    have := hf2 c hcm
    omega

/-- **`prepareBatch` stamps a batch between two clock readings.** -/
theorem prepareBatch_stamped (clock : Clock) (drift : List Nat) (b : TxnBatch)
    (hc : ∀ c ∈ b.commit, c.timestamp ≤ clock.last) (hm : b.maxTimestamp ≤ clock.last) :
    Stamped clock.last (prepareBatch clock drift b).2 (prepareBatch clock drift b).1.last := by
  obtain ⟨s', hs, h, hmax⟩ := prepareBatch_stampedBy clock drift b
  obtain ⟨_, hstamp, hcommit⟩ := prepareBatch_max clock drift b
  have hle : s'.maxTS ≤ s'.clock.last := by
    rw [h.maxTS]
    split
    · exact Nat.zero_le _
    · exact le_rfl
  have hcl : clock.last ≤ s'.clock.last := h.le
  rw [← hs]
  refine ⟨hcl, h.sorted, h.fresh, hc, ?_, hstamp, hcommit⟩
  rw [hmax]
  have := foldl_max_le b.commit s'.maxTS s'.clock.last hle
    (fun c hcm => (hc c hcm).trans hcl)
  omega

/-! ## Every log of the writer is a chain -/

structure WriterInv (lo : Nat) (w : Writer) : Prop where
  chain : Chain lo (w.log.map Entry.batch) w.clock.last
  commits : ∀ c ∈ w.batch.commit, c.timestamp ≤ w.clock.last
  max_le : w.batch.maxTimestamp ≤ w.clock.last

theorem WriterInv.step {w : Writer} (h : WriterInv lo w) (e : Event) : WriterInv lo (w.step e) := by
  have hup := w.clock.le_update
  have hin := w.clock.incoming_le_update
  cases e with
  | autocommit txn => exact ⟨h.chain, h.commits, h.max_le⟩
  | prepare txn => exact ⟨h.chain, h.commits, h.max_le⟩
  | abort id => exact ⟨h.chain, h.commits, h.max_le⟩
  | markTimedout id r => exact ⟨h.chain, h.commits, h.max_le⟩
  | commit id t =>
    refine ⟨h.chain.weaken (hup t), ?_, h.max_le.trans (hup t)⟩
    intro c hc
    rcases List.mem_append.mp hc with hc | hc
    · exact (h.commits c hc).trans (hup t)
    · rw [List.mem_singleton.mp hc]
      exact hin t
  | storeDecision d =>
    exact ⟨h.chain.weaken (hup _), fun c hc => (h.commits c hc).trans (hup _),
      h.max_le.trans (hup _)⟩
  | updateTimestamp t =>
    refine ⟨h.chain.weaken (hup t), fun c hc => (h.commits c hc).trans (hup t), ?_⟩
    exact Nat.max_le.mpr ⟨h.max_le.trans (hup t), hin t⟩
  | observe t =>
    exact ⟨h.chain.weaken (hup t), fun c hc => (h.commits c hc).trans (hup t),
      h.max_le.trans (hup t)⟩
  | flush drift committed =>
    have hs := prepareBatch_stamped w.clock drift w.batch h.commits h.max_le
    refine ⟨?_, by simp [Writer.step, Writer.flush], Nat.zero_le _⟩
    cases committed with
    | some x => simpa [Writer.step, Writer.flush] using h.chain.snoc le_rfl hs
    | none => simpa [Writer.step, Writer.flush] using h.chain.weaken hs.le

theorem WriterInv.run {w : Writer} (h : WriterInv lo w) (es : List Event) :
    WriterInv lo (w.run es) := by
  induction es generalizing w with
  | nil => exact h
  | cons e es ih => exact ih (h.step e)

theorem writerInv_new (clock : Clock) : WriterInv clock.last { clock } :=
  ⟨.nil le_rfl, by simp, Nat.zero_le _⟩

/-- **Every log of the writer is stamped in order**, whatever requests it
served. -/
theorem writer_chain (clock : Clock) (es : List Event) :
    Chain clock.last ((Writer.run { clock } es).log.map Entry.batch)
      (Writer.run { clock } es).clock.last := ((writerInv_new clock).run es).chain

theorem writer_stampedInOrder (clock : Clock) (es : List Event) :
    StampedInOrder ((Writer.run { clock } es).log.map Entry.batch) :=
  ⟨_, _, clock.pos, writer_chain clock es⟩

end Scout.Txn
