import Scout.Txn.Settled

/-!
`Manager.maxTimestamp`. `ApplyBatch` overwrites it with the value that
`prepareBatch` computed for the batch. It therefore goes back whenever a batch
holds nothing stamped and only older commit and update timestamps.
-/

namespace Scout.Txn

open Data Mvcc Lib

/-! ## The batches of a run -/

/-- The batches that a run of the writer commits: as collected, and as the
entry that `prepareBatch` made of it. -/
def flushes (w : Writer) : List Event → List (TxnBatch × Entry)
  | [] => []
  | .flush drift (some x) :: es =>
    (w.batch, ⟨x.1, x.2, (prepareBatch w.clock drift w.batch).2⟩) ::
      flushes (w.step (.flush drift (some x))) es
  | e :: es => flushes (w.step e) es

theorem flushes_log (w : Writer) (es : List Event) :
    (w.run es).log = w.log ++ (flushes w es).map Prod.snd := by
  induction es generalizing w with
  | nil => simp [Writer.run, flushes]
  | cons e es ih =>
    have hrun : w.run (e :: es) = (w.step e).run es := rfl
    rw [hrun, ih]
    cases e with
    | flush drift committed =>
      cases committed with
      | none => simp [flushes, Writer.step, Writer.flush]
      | some x => simp [flushes, Writer.step, Writer.flush]
    | _ => rfl

theorem flushes_split {w : Writer} {es : List Event} {pre post : List (TxnBatch × Entry)}
    {b : TxnBatch} {e : Entry} (h : flushes w es = pre ++ (b, e) :: post) :
    ∃ es₁ drift, pre = flushes w es₁ ∧ b = (w.run es₁).batch ∧
      e.batch = (prepareBatch (w.run es₁).clock drift b).2 := by
  induction es generalizing w pre with
  | nil => simp [flushes] at h
  | cons x es ih =>
    have skip : (∀ es, flushes w (x :: es) = flushes (w.step x) es) →
        ∃ es₁ drift, pre = flushes w es₁ ∧ b = (w.run es₁).batch ∧
          e.batch = (prepareBatch (w.run es₁).clock drift b).2 := by
      intro hx
      rw [hx] at h
      obtain ⟨es₁, drift, h1, h2⟩ := ih h
      exact ⟨x :: es₁, drift, by rw [hx]; exact h1, h2⟩
    cases x with
    | flush drift committed =>
      cases committed with
      | none => exact skip (fun _ => rfl)
      | some x =>
        rw [flushes] at h
        cases pre with
        | nil =>
          obtain ⟨rfl, rfl⟩ := Prod.mk.inj (List.cons.inj h).1
          exact ⟨[], drift, rfl, rfl, rfl⟩
        | cons y pre =>
          rw [List.cons_append] at h
          obtain ⟨rfl, htail⟩ := List.cons.inj h
          obtain ⟨es₁, drift', h1, h2⟩ := ih htail
          exact ⟨.flush drift (some x) :: es₁, drift', by rw [flushes, ← h1], h2⟩
    | _ => exact skip (fun _ => rfl)

/-! ## The value after a batch -/

theorem applyEntry_maxTimestamp (s : Manager × Store) (e : Entry) :
    (applyEntry s e).1.1.maxTimestamp = e.batch.maxTimestamp := by
  rw [applyEntry_manager]
  rfl

theorem maxTimestamp_le_clock {s : Manager × Store} {es : List Entry} {lo hi : Nat}
    (hc : Chain lo (es.map Entry.batch) hi) (hs : s.1.maxTimestamp ≤ lo) :
    (applyLog s es).1.1.maxTimestamp ≤ hi := by
  induction es generalizing s lo with
  | nil => exact hs.trans hc.le
  | cons e es ih =>
    rw [List.map_cons] at hc
    cases hc with
    | cons _ hb hbs =>
      refine ih (s := (applyEntry s e).1) hbs ?_
      rw [applyEntry_maxTimestamp]
      exact hb.max_le

/-- A collected batch moves the max timestamp on from `current`: it holds a
command to be stamped, or a commit or update timestamp that is not older. -/
def Advances (current : Nat) (b : TxnBatch) : Prop :=
  b.autocommit ≠ [] ∨ b.prepare ≠ [] ∨ b.abort ≠ [] ∨ b.storeDecision ≠ [] ∨
    b.markTimedout ≠ [] ∨ (∃ c ∈ b.commit, current ≤ c.timestamp) ∨ current ≤ b.maxTimestamp

theorem stampAll_eq_nil {α : Type} (set : Nat → α → α) (s : Stamper) (xs : List α) :
    (stampAll set s xs).2 = [] ↔ xs = [] := by
  rw [← List.length_eq_zero_iff, ← List.length_eq_zero_iff, stampAll, loop_length]

theorem stamps_prepareBatch_eq_nil (clock : Clock) (drift : List Nat) (b : TxnBatch) :
    stamps (prepareBatch clock drift b).2 = [] ↔
      b.autocommit = [] ∧ b.prepare = [] ∧ b.abort = [] ∧ b.storeDecision = [] ∧
        b.markTimedout = [] := by
  simp only [stamps, prepareBatch, List.append_eq_nil_iff, List.map_eq_nil_iff, stampAll_eq_nil,
    and_assoc]

theorem le_foldl_max_iff (cs : List Commit) (m x : Nat) :
    x ≤ cs.foldl (fun m c => max m c.timestamp) m ↔ x ≤ m ∨ ∃ c ∈ cs, x ≤ c.timestamp := by
  induction cs generalizing m with
  | nil => simp
  | cons c cs ih =>
    rw [List.foldl_cons, ih, le_max_iff]
    simp only [List.mem_cons, exists_eq_or_imp, or_assoc]

/-- **`prepareBatch` keeps up with the current value exactly for the batches
that advance it.** -/
theorem prepareBatch_advances (clock : Clock) (drift : List Nat) (b : TxnBatch) (current : Nat)
    (hc : current ≤ clock.last) :
    current ≤ (prepareBatch clock drift b).2.maxTimestamp ↔ Advances current b := by
  obtain ⟨s', _, h, hmax⟩ := prepareBatch_stampedBy clock drift b
  have hle : clock.last ≤ s'.clock.last := h.le
  rw [hmax, le_max_iff, le_foldl_max_iff, h.maxTS]
  by_cases hn : stamps (prepareBatch clock drift b).2 = []
  · -- nothing was stamped: only commits and updates count
    obtain ⟨h1, h2, h3, h4, h5⟩ := (stamps_prepareBatch_eq_nil clock drift b).mp hn
    rw [if_pos hn]
    simp only [Advances, h1, h2, h3, h4, h5, ne_eq, not_true_eq_false, false_or]
    constructor
    · rintro (h | h | h)
      · exact .inr h
      · exact .inr (h.trans (Nat.zero_le _))
      · exact .inl h
    · rintro (h | h)
      · exact .inr (.inr h)
      · exact .inl h
  · -- a stamp is above the clock, which is above the current value
    rw [if_neg hn]
    refine iff_of_true (.inr (.inl (hc.trans hle))) ?_
    rw [stamps_prepareBatch_eq_nil] at hn
    tauto

/-! ## Runs -/

theorem entryWrites_le_max {s : Manager × Store} {e : Entry} {lo hi : Nat} (hm : Coherent s.1)
    (hb : Stamped lo e.batch hi) : ∀ r ∈ entryWrites s e, r.timestamp ≤ e.batch.maxTimestamp := by
  intro r hr
  obtain ⟨pre, c, post, he, hw⟩ := mem_entryWrites hr
  have hc : c ∈ batchCmds e.batch := by simp [he]
  rcases (applyCmd_change s.2 _ c).writes (hm.runCmds s.2 pre) hw with
    ⟨x, rfl, ht, _⟩ | ⟨x, p, rfl, ht, _⟩
  · rw [ht]
    refine hb.stamp_le _ ?_
    simp only [stamps, List.mem_append, List.mem_map]
    exact .inl (.inl (.inl (.inl ⟨x, (mem_batchCmds _ _).mp hc, rfl⟩)))
  · rw [ht]
    exact hb.commit_le x ((mem_batchCmds _ _).mp hc)

/-- The max timestamp does not go back at any entry of the log, and is not
below any record written by then. -/
def MaxTimestampAdvances (s : Manager × Store) (log : List Entry) : Prop :=
  ∀ pre e post, log = pre ++ e :: post →
    (applyLog s pre).1.1.maxTimestamp ≤ (applyLog s (pre ++ [e])).1.1.maxTimestamp ∧
    ∀ r ∈ logWrites s (pre ++ [e]), r.timestamp ≤ (applyLog s (pre ++ [e])).1.1.maxTimestamp

section Runs

variable (clock : Clock) (es : List Event) (pid : Nat) (cleanAfter : Int)

/-- At each batch of a run: the stamping, and when the value goes back. -/
theorem flush_advances {pre post : List (TxnBatch × Entry)} {b : TxnBatch} {e : Entry}
    (h : flushes { clock } es = pre ++ (b, e) :: post) :
    let s := (applyLog (newPartition pid cleanAfter) (pre.map Prod.snd)).1
    (∃ lo hi, Stamped lo e.batch hi) ∧
      (s.1.maxTimestamp ≤ (applyEntry s e).1.1.maxTimestamp ↔ Advances s.1.maxTimestamp b) := by
  intro s
  obtain ⟨es₁, drift, hpre, hb, he⟩ := flushes_split h
  have hinv : WriterInv clock.last (Writer.run { clock } es₁) :=
    (writerInv_new clock).run es₁
  have hlog : pre.map Prod.snd = (Writer.run { clock } es₁).log := by
    rw [flushes_log, hpre]
    rfl
  have hle : s.1.maxTimestamp ≤ (Writer.run { clock } es₁).clock.last :=
    maxTimestamp_le_clock (by rw [hlog]; exact hinv.chain) (Nat.zero_le _)
  subst hb
  refine ⟨⟨_, _, by rw [he]; exact prepareBatch_stamped _ drift _ hinv.commits hinv.max_le⟩, ?_⟩
  rw [applyEntry_maxTimestamp, he]
  exact prepareBatch_advances _ drift _ _ hle

/-- **The max timestamp never goes back exactly when every batch advances it**,
in every run of the writer from a fresh partition. -/
theorem maxTimestamp_advances_iff :
    MaxTimestampAdvances (newPartition pid cleanAfter) (Writer.run { clock } es).log ↔
      ∀ pre b e post, flushes { clock } es = pre ++ (b, e) :: post →
        Advances (applyLog (newPartition pid cleanAfter)
          (pre.map Prod.snd)).1.1.maxTimestamp b := by
  have hlog : (Writer.run { clock } es).log = (flushes { clock } es).map Prod.snd := by
    rw [flushes_log]
    rfl
  rw [hlog]
  constructor
  · intro h pre b e post hsplit
    have hm := (h (pre.map Prod.snd) e (post.map Prod.snd) (by simp [hsplit])).1
    rw [applyLog_snoc] at hm
    exact (flush_advances clock es pid cleanAfter hsplit).2.mp hm
  · intro h
    -- by induction from the end of the prefix: all records so far are below the value
    have below : ∀ pre post, flushes { clock } es = pre ++ post →
        ∀ r ∈ logWrites (newPartition pid cleanAfter) (pre.map Prod.snd),
          r.timestamp ≤ (applyLog (newPartition pid cleanAfter)
            (pre.map Prod.snd)).1.1.maxTimestamp := by
      intro pre
      induction pre using List.reverseRecOn with
      | nil => intro post _ r hr; cases hr
      | append_singleton pre x ih =>
        obtain ⟨b, e⟩ := x
        intro post hsplit r hr
        rw [List.append_assoc] at hsplit
        obtain ⟨⟨lo, hi, hb⟩, hiff⟩ := flush_advances clock es pid cleanAfter hsplit
        have hup := hiff.mpr (h pre b e post hsplit)
        rw [List.map_append, List.map_singleton, applyLog_snoc]
        rw [List.map_append, List.map_singleton, logWrites_append, List.mem_append] at hr
        rcases hr with hr | hr
        · exact (ih _ hsplit r hr).trans hup
        · rw [applyEntry_maxTimestamp]
          refine entryWrites_le_max (coherent_run pid cleanAfter (pre.map Prod.snd)) hb r ?_
          simpa [logWrites] using hr
    intro pre' e post' hsplit
    obtain ⟨pre, rest, hsplit', rfl, hrest⟩ := List.map_eq_append_iff.mp hsplit
    obtain ⟨⟨b, e'⟩, post, rfl, rfl, rfl⟩ := List.map_eq_cons_iff.mp hrest
    have hall : flushes { clock } es = (pre ++ [(b, e')]) ++ post := by simp [hsplit']
    refine ⟨?_, by simpa using below _ _ hall⟩
    rw [applyLog_snoc]
    exact (flush_advances clock es pid cleanAfter hsplit').2.mpr (h pre b e' post hsplit')

end Runs

/-- A txn is prepared at 2, another one is written at 6, and the first one
commits at its own prepare timestamp. -/
def lateCommit : List Event :=
  [.prepare ⟨⟨1, 1, 1⟩, [⟨0, some (.upsert 16 [0] [])⟩], []⟩, .flush [] (some (1, 0)),
    .autocommit ⟨⟨1, 1, 2⟩, [⟨0, some (.upsert 16 [1] [])⟩], []⟩, .flush [3] (some (2, 0)),
    .commit ⟨1, 1, 1⟩ 2, .flush [] (some (3, 0))]

/-- The last batch of `lateCommit` takes the value from 6 back to 2. -/
theorem maxTimestamp_goes_back :
    ¬ ∀ (clock : Clock) (es : List Event) (pid : Nat) (cleanAfter : Int),
      MaxTimestampAdvances (newPartition pid cleanAfter) (Writer.run { clock } es).log := by
  intro h
  have hsplit : ∃ e, logOf lateCommit = (logOf lateCommit).take 2 ++ [e] := ⟨_, rfl⟩
  obtain ⟨e, he⟩ := hsplit
  have hle := (h ⟨1, Nat.one_pos⟩ lateCommit 1 0 _ e [] he).1
  rw [← he] at hle
  exact absurd hle (by decide)

end Scout.Txn
