import Scout.Txn.Trace

/-!
The order in which the versions of an address are written. A two-phase commit is
written at a timestamp that may be older than much of what the partition has
applied since the prepare, but nothing of that is at an address of the txn: a
record is settled as soon as it is written, so whatever comes later at its
address is newer.
-/

namespace Scout.Txn

open Data Mvcc Lib

def MicroStep.tagged (x : MicroStep) : List (TxnId × Record) :=
  match x.exec with
  | some (c, o) => o.writes.map fun r => (c.id, r)
  | none => []

/-- `a` may be written before `b`: at one address `b` is newer, or both are
versions of one txn at one timestamp. -/
def InOrder (a b : TxnId × Record) : Prop :=
  a.2.address = b.2.address →
    a.2.timestamp ≤ b.2.timestamp ∧ (a.2.timestamp = b.2.timestamp → a.1 = b.1)

theorem inOrder_of_lt {a b : TxnId × Record}
    (h : b.2.address = a.2.address → a.2.timestamp < b.2.timestamp) : InOrder a b := by
  intro he
  have hlt := h he.symm
  refine ⟨le_of_lt hlt, ?_⟩
  intro e
  omega

theorem tagged_writes (l : List MicroStep) :
    (l.flatMap MicroStep.tagged).map Prod.snd = l.flatMap MicroStep.writes := by
  induction l with
  | nil => rfl
  | cons x l ih =>
    have hx : x.tagged.map Prod.snd = x.writes := by
      unfold MicroStep.tagged MicroStep.writes
      cases x.exec with
      | none => rfl
      | some y => simp
    rw [List.flatMap_cons, List.map_append, ih, hx, List.flatMap_cons]

theorem mem_tagged {l : List MicroStep} {a : TxnId × Record}
    (h : a ∈ l.flatMap MicroStep.tagged) : a.2 ∈ l.flatMap MicroStep.writes := by
  rw [← tagged_writes]
  exact List.mem_map.mpr ⟨a, h, rfl⟩

/-! ## Inside a batch -/

variable {m : Manager}

theorem Change.tagged_inOrder {db : Store} {m' : Manager} {c : Cmd} {o : Outcome}
    (h : Change db m c m' o) : (o.writes.map fun r => (c.id, r)).Pairwise InOrder := by
  have one : ∀ t txn, ∀ r ∈ buildWriteRecords t txn, r.timestamp = t :=
    fun t txn r hr => (mem_buildWriteRecords hr).1
  have same : ∃ t, ∀ r ∈ o.writes, r.timestamp = t := by
    cases h with
    | autocommit c => exact ⟨c.timestamp, one _ _⟩
    | commit c s p => exact ⟨c.timestamp, one _ _⟩
    | _ => exact ⟨0, fun r hr => by cases hr⟩
  obtain ⟨t, ht⟩ := same
  rw [List.pairwise_map]
  refine List.Pairwise.imp_of_mem ?_ (List.pairwise_of_forall (R := fun _ _ => True) (by simp))
  intro r r' hr hr' _ _
  refine ⟨le_of_eq ?_, fun _ => rfl⟩
  rw [ht r hr, ht r' hr']

theorem runCmds_writes_settled (hm : Coherent m) (db : Store) {cs : List Cmd} {f : Nat}
    (hf : FitsAll f cs) : ∀ r ∈ (m.runCmds db cs).2.flatMap Outcome.writes,
      Settled (m.runCmds db cs).1 (frontier f cs) r.address r.timestamp := by
  induction cs generalizing m f with
  | nil => intro r hr; cases hr
  | cons c cs ih =>
    intro r hr
    rw [runCmds_cons, List.flatMap_cons] at hr
    rcases List.mem_append.mp hr with hr | hr
    · have hset := (applyCmd_change db m c).writes_settled hm hf.1 r hr
      exact (hset.runCmds db (hm.applyCmd db c) hf.2).1
    · exact ih (hm.applyCmd db c) hf.2 r hr

theorem cmdTrace_inOrder (hm : Coherent m) (db : Store) {cs : List Cmd} {f : Nat}
    (hf : FitsAll f cs) : ((cmdTrace db m cs).flatMap MicroStep.tagged).Pairwise InOrder := by
  induction cs generalizing m f with
  | nil => exact .nil
  | cons c cs ih =>
    have hch := applyCmd_change db m c
    rw [cmdTrace, List.flatMap_cons, List.pairwise_append]
    refine ⟨hch.tagged_inOrder, ih (hm.applyCmd db c) hf.2, ?_⟩
    -- a record of the first command against one of a later command
    intro a ha b hb
    obtain ⟨r, hr, rfl⟩ := List.mem_map.mp ha
    have hset := hch.writes_settled hm hf.1 r hr
    have hb := mem_tagged hb
    rw [cmdTrace_writes] at hb
    exact inOrder_of_lt ((hset.runCmds db (hm.applyCmd db c) hf.2).2 b.2 hb)

/-! ## Along a log -/

variable {s : Manager × Store} {lo hi : Nat}

theorem entryTrace_inOrder (hm : Coherent s.1) {e : Entry} (hb : Stamped lo e.batch hi) :
    ((entryTrace s e).flatMap MicroStep.tagged).Pairwise InOrder := by
  have h := cmdTrace_inOrder hm s.2 hb.fits.1
  rw [entryTrace, List.flatMap_append]
  simpa [MicroStep.tagged] using h

theorem entryWrites_settled (hm : Coherent s.1) {e : Entry} (hb : Stamped lo e.batch hi) :
    ∀ r ∈ entryWrites s e, Settled (applyEntry s e).1.1 hi r.address r.timestamp := by
  intro r hr
  have h := runCmds_writes_settled hm s.2 hb.fits.1 r hr
  refine ⟨h.le.trans hb.fits.2, ?_⟩
  intro id p hp
  exact h.later id p (applyEntry_active hp)

theorem logTrace_inOrder (hm : Coherent s.1) {es : List Entry}
    (hc : Chain lo (es.map Entry.batch) hi) :
    ((logTrace s es).flatMap MicroStep.tagged).Pairwise InOrder := by
  induction es generalizing s lo with
  | nil => exact .nil
  | cons e es ih =>
    rw [List.map_cons] at hc
    cases hc with
    | cons hle hb hbs =>
      rw [logTrace, List.flatMap_append, List.pairwise_append]
      refine ⟨entryTrace_inOrder hm hb, ih (hm.entry e) hbs, ?_⟩
      intro a ha b hb'
      have ha := mem_tagged ha
      have hb' := mem_tagged hb'
      rw [entryTrace_writes] at ha
      rw [logTrace_writes] at hb'
      have hset := entryWrites_settled hm hb a.2 ha
      exact inOrder_of_lt (Settled.log (s := (applyEntry s e).1) (hm.entry e) hbs hset b.2 hb')

/-- **Version order.** Along every log of the writer, the records of an address
are written in the order of their timestamps, and only records of one txn have
the same one. These are the records that the store is made of. -/
theorem versions_in_order (clock : Clock) (es : List Event) (pid : Nat) (cleanAfter : Int) :
    let log := (Writer.run { clock } es).log
    let versions := (logTrace (newPartition pid cleanAfter) log).flatMap MicroStep.tagged
    versions.Pairwise (fun a b => a.2.address = b.2.address →
      a.2.timestamp ≤ b.2.timestamp ∧ (a.2.timestamp = b.2.timestamp → a.1 = b.1)) ∧
    (applyLog (newPartition pid cleanAfter) log).1.2.records =
      overwriteAll Record.address Record.timestamp [] (versions.map Prod.snd) := by
  refine ⟨logTrace_inOrder (s := newPartition pid cleanAfter) (coherent_new pid cleanAfter)
    (writer_chain clock es), ?_⟩
  rw [tagged_writes, logTrace_writes, applyLog_records]
  rfl

end Scout.Txn
