import Scout.Txn.Coherent
import Scout.Txn.Writer

/-!
When the past of an address is settled. The frontier is the largest timestamp
handed out so far; `Settled m f a t` says that nothing still open can write
address `a` at or before `t`. Every batch that the writer stamps keeps it, and
writes nothing there at or before `t`.
-/

namespace Scout.Txn

open Data Mvcc Lib

/-! ## Open txns -/

/-- A txn that is prepared or decided and may still commit. -/
structure Active (m : Manager) (id : TxnId) (p : Prepared) : Prop where
  entry : m.prepared.lookup id = some p
  open_status : ∃ s, m.status.lookup id = some s ∧ s.state.isFinal = false

variable {m : Manager} {id : TxnId} {p : Prepared}

theorem Active.held (hm : Coherent m) (h : Active m id p) :
    p.locksReleased = false ∧ p.locks = p.txn.buildLocks := by
  obtain ⟨s, hs, hf⟩ := h.open_status
  have hr := (hm.record id).open_held p s h.entry hs hf
  exact ⟨hr, (hm.record id).held p h.entry hr⟩

variable {db : Reads} {m' : Manager} {c : Cmd} {o : Outcome}

/-- **Inversion.** A txn that is open after a command was open before it with
the same content and timestamp, or is the one just prepared. -/
theorem Change.active (h : Change db m c m' o) (ha : Active m' id p) :
    (∃ q, Active m id q ∧ q.txn = p.txn ∧ q.timestamp = p.timestamp) ∨
      ∃ x, c = .prepare x ∧ id = x.txn.id ∧ p.txn = x.txn ∧ p.timestamp = x.timestamp ∧
        m.checkLocks x.txn.id x.timestamp x.txn.buildLocks = none ∧
        validate db x.txn.id x.timestamp x.txn = none := by
  obtain ⟨hp, s, hs, hf⟩ := ha
  by_cases hid : id = c.id
  · subst hid
    cases h with
    | idle => exact .inl ⟨p, ⟨hp, s, hs, hf⟩, rfl, rfl⟩
    | autocommit c =>
      simp only [Cmd.id, AList.lookup_insert, Option.some.injEq] at hs
      subst hs
      cases hf
    | prepare c hn hl hv =>
      simp only [Cmd.id, AList.lookup_insert, Option.some.injEq] at hp
      subst hp
      exact .inr ⟨c, rfl, rfl, rfl, rfl, hl, hv⟩
    | commit c =>
      simp only [Cmd.id, AList.lookup_insert, Option.some.injEq] at hs
      subst hs
      cases hf
    | abort c =>
      simp only [Cmd.id, AList.lookup_insert, Option.some.injEq] at hs
      subst hs
      cases hf
    | storeDecision c s' q hs' hq _ hst =>
      simp only [Cmd.id, AList.lookup_insert, Option.some.injEq] at hp
      subst hp
      exact .inl ⟨q, ⟨hq, s', hs', by rw [hst]; rfl⟩, rfl, rfl⟩
    | markTimedout c =>
      simp only [Cmd.id, AList.lookup_insert, Option.some.injEq] at hs
      subst hs
      cases hf
    | release c s' q hs' _ _ hst =>
      simp only [Cmd.id] at hs
      rw [hs'] at hs
      cases hs
      rw [hst] at hf
      cases hf
  · obtain ⟨h1, h2⟩ := h.frame hid
    rw [h1] at hs
    rw [h2] at hp
    exact .inl ⟨p, ⟨hp, s, hs, hf⟩, rfl, rfl⟩

variable {t : Nat}

theorem finish_active {os : List Outcome} {now : Int} (ha : Active (m.finish os t now) id p)
    (hf : ∀ i ∈ os.filterMap Outcome.completion,
      ∃ s, m.status.lookup i = some s ∧ s.state = .committed) : Active m id p := by
  obtain ⟨hp, s, hs, hfs⟩ := ha
  unfold Manager.finish at hp hs
  rw [cleanup_status] at hs
  rw [cleanup_prepared] at hp
  split at hs
  · cases hs
  rename_i hn
  rw [if_neg hn] at hp
  rw [(releaseAll_rest m _).1] at hs
  rw [releaseAll_prepared] at hp
  split at hp
  · rename_i hc
    obtain ⟨s', hs', hst⟩ := hf id hc
    rw [hs'] at hs
    cases hs
    rw [hst] at hfs
    cases hfs
  · exact ⟨hp, s, hs, hfs⟩

variable {s : Manager × Store} {e : Entry}

theorem applyEntry_active (h : Active (applyEntry s e).1.1 id p) :
    Active (s.1.runCmds s.2 (batchCmds e.batch)).1 id p := by
  rw [applyEntry_manager] at h
  exact finish_active h (runCmds_completion_final s.1 s.2 _)

/-! ## The frontier -/

/-- The fresh timestamp of a command that brings a new txn. -/
def Cmd.newStamp : Cmd → Option Nat
  | .autocommit c => some c.timestamp
  | .prepare c => some c.timestamp
  | _ => none

def Cmd.advance (f : Nat) (c : Cmd) : Nat := c.newStamp.getD f

/-- New txns come after the frontier, commits do not. -/
def Cmd.Fits (f : Nat) : Cmd → Prop
  | .autocommit c => f < c.timestamp
  | .prepare c => f < c.timestamp
  | .commit c => c.timestamp ≤ f
  | _ => True

def frontier (f : Nat) (cs : List Cmd) : Nat := cs.foldl Cmd.advance f

def FitsAll (f : Nat) : List Cmd → Prop
  | [] => True
  | c :: cs => c.Fits f ∧ FitsAll (c.advance f) cs

variable {f : Nat}

theorem Cmd.Fits.le (h : c.Fits f) : f ≤ c.advance f := by
  cases c <;> simp only [Cmd.Fits] at h <;> simp only [Cmd.advance, Cmd.newStamp, Option.getD] <;>
    omega

theorem frontier_snoc (f : Nat) (cs : List Cmd) (c : Cmd) :
    frontier f (cs ++ [c]) = c.advance (frontier f cs) := by
  simp [frontier, List.foldl_append]

variable {pre post : List Cmd}

theorem FitsAll.left (h : FitsAll f (pre ++ post)) : FitsAll f pre := by
  induction pre generalizing f with
  | nil => trivial
  | cons x pre ih => exact ⟨h.1, ih h.2⟩

theorem FitsAll.right (h : FitsAll f (pre ++ post)) : FitsAll (frontier f pre) post := by
  induction pre generalizing f with
  | nil => exact h
  | cons x pre ih => exact ih h.2

theorem FitsAll.at (h : FitsAll f (pre ++ c :: post)) : c.Fits (frontier f pre) := h.right.1

variable {cs : List Cmd}

theorem FitsAll.le_frontier (h : FitsAll f cs) : f ≤ frontier f cs := by
  induction cs generalizing f with
  | nil => exact le_rfl
  | cons c cs ih => exact h.1.le.trans (ih h.2)

variable {hi : Nat}

theorem frontier_le (hf : f ≤ hi) (h : ∀ t ∈ cs.filterMap Cmd.newStamp, t ≤ hi) :
    frontier f cs ≤ hi := by
  induction cs generalizing f with
  | nil => exact hf
  | cons c cs ih =>
    cases hc : c.newStamp with
    | none =>
      simp only [List.filterMap_cons, hc] at h
      exact ih (by simpa [Cmd.advance, hc] using hf) h
    | some t =>
      simp only [List.filterMap_cons, hc, List.mem_cons] at h
      refine ih ?_ (fun u hu => h u (.inr hu))
      simpa [Cmd.advance, hc] using h t (.inl rfl)

theorem fitsAll_of_sorted (hc : ∀ c, .commit c ∈ cs → c.timestamp ≤ f)
    (hs : (cs.filterMap Cmd.newStamp).Pairwise (· < ·))
    (hf : ∀ t ∈ cs.filterMap Cmd.newStamp, f < t) : FitsAll f cs := by
  induction cs generalizing f with
  | nil => trivial
  | cons c cs ih =>
    have fits : c.Fits f := by
      cases c with
      | autocommit x => exact hf x.timestamp (by simp [Cmd.newStamp])
      | prepare x => exact hf x.timestamp (by simp [Cmd.newStamp])
      | commit x => exact hc x (by simp)
      | _ => trivial
    refine ⟨fits, ?_⟩
    cases hn : c.newStamp with
    | none =>
      simp only [List.filterMap_cons, hn] at hs hf
      have he : c.advance f = f := by simp [Cmd.advance, hn]
      rw [he]
      exact ih (fun x hx => hc x (by simp [hx])) hs hf
    | some t =>
      simp only [List.filterMap_cons, hn, List.pairwise_cons] at hs
      have he : c.advance f = t := by simp [Cmd.advance, hn]
      refine ih (fun x hx => (hc x (by simp [hx])).trans fits.le) hs.2 ?_
      rw [he]
      exact hs.1

theorem newStamps_batchCmds (b : TxnBatch) : (batchCmds b).filterMap Cmd.newStamp =
    b.autocommit.map Autocommit.timestamp ++ b.prepare.map Prepare.timestamp := by
  simp only [batchCmds, List.filterMap_append, List.filterMap_map]
  have h1 : Cmd.newStamp ∘ Cmd.abort = fun _ => none := rfl
  have h2 : Cmd.newStamp ∘ Cmd.markTimedout = fun _ => none := rfl
  have h3 : Cmd.newStamp ∘ Cmd.commit = fun _ => none := rfl
  have h4 : Cmd.newStamp ∘ Cmd.storeDecision = fun _ => none := rfl
  have h5 : Cmd.newStamp ∘ Cmd.autocommit = some ∘ Autocommit.timestamp := rfl
  have h6 : Cmd.newStamp ∘ Cmd.prepare = some ∘ Prepare.timestamp := rfl
  simp only [h1, h2, h3, h4, h5, h6, List.filterMap_eq_map]
  simp

variable {lo : Nat}

/-- **A stamped batch moves the frontier from `lo` to at most `hi`.** -/
theorem Stamped.fits {b : TxnBatch} (h : Stamped lo b hi) :
    FitsAll lo (batchCmds b) ∧ frontier lo (batchCmds b) ≤ hi := by
  have hsub : ((batchCmds b).filterMap Cmd.newStamp).Sublist (stamps b) := by
    rw [newStamps_batchCmds]
    unfold stamps
    simp only [List.append_assoc]
    exact (List.Sublist.refl _).append (List.sublist_append_left _ _)
  constructor
  · refine fitsAll_of_sorted ?_ (h.sorted.sublist hsub) ?_
    · intro c hc
      exact h.commits c ((mem_batchCmds b (.commit c)).mp hc)
    · intro t ht
      exact (h.fresh t (hsub.subset ht)).1
  · exact frontier_le h.le (fun t ht => (h.fresh t (hsub.subset ht)).2)

/-! ## Settled addresses -/

/-- No open txn can write `a` at or before `t`, and no new one will. -/
structure Settled (m : Manager) (f : Nat) (a : Address) (t : Nat) : Prop where
  le : t ≤ f
  later : ∀ id p, Active m id p → p.txn.writes a = true → t < p.timestamp

variable {a : Address}

theorem Settled.mono {f' : Nat} (h : Settled m f a t) (hf : f ≤ f') :
    Settled m f' a t := ⟨h.le.trans hf, h.later⟩

variable {r : Record} {txn : Txn}

theorem mem_buildWriteRecords (h : r ∈ buildWriteRecords t txn) :
    r.timestamp = t ∧ txn.writes r.address = true := by
  obtain ⟨x, hx, hr⟩ := List.mem_filterMap.mp h
  unfold writeRecord at hr
  have key : r.timestamp = t ∧ x.writeAddr = some r.address := by
    unfold Action.writeAddr
    split at hr <;> simp_all <;> subst hr <;> simp
  exact ⟨key.1, List.any_eq_true.mpr ⟨x, hx, by simp [key.2]⟩⟩

theorem exists_buildWriteRecords (t : Nat) (h : txn.writes a = true) :
    ∃ r ∈ buildWriteRecords t txn, r.address = a := by
  obtain ⟨x, hx, hw⟩ := List.any_eq_true.mp h
  have hrec : ∃ r, writeRecord t x = some r ∧ r.address = a := by
    unfold writeRecord
    unfold Action.writeAddr at hw
    split at hw <;> simp_all
  obtain ⟨r, hr, ha⟩ := hrec
  exact ⟨r, List.mem_filterMap.mpr ⟨x, hx, hr⟩, ha⟩

theorem CommitGuard.le {s : TxnStatus} (hm : Coherent m) (hs : m.status.lookup id = some s)
    (hp : m.prepared.lookup id = some p) (hg : CommitGuard s p t) :
    s.state.isFinal = false ∧ p.timestamp ≤ t := by
  rcases hg with ⟨hst, ht⟩ | ⟨hst, ht⟩
  · rw [← (hm.record id).prepared_ts p s hp hs hst]
    exact ⟨by rw [hst]; rfl, ht⟩
  · obtain ⟨d, hd, hle⟩ := (hm.record id).decided_ts p s hp hs hst
    refine ⟨by rw [hst]; rfl, ?_⟩
    simpa [ht, hd] using hle

/-- Where the records of a command come from: a new txn that passed the lock
check, or an open txn that commits. -/
theorem Change.writes (hm : Coherent m) (h : Change db m c m' o) (hr : r ∈ o.writes) :
    (∃ x, c = .autocommit x ∧ r.timestamp = x.timestamp ∧ x.txn.writes r.address = true ∧
      m.checkLocks x.txn.id x.timestamp x.txn.buildLocks = none) ∨
    ∃ x p, c = .commit x ∧ r.timestamp = x.timestamp ∧ Active m x.id p ∧
      p.txn.writes r.address = true ∧ p.timestamp ≤ x.timestamp ∧
      m'.prepared = m.prepared ∧ m'.status.lookup x.id = some (committedStatus x p) := by
  cases h with
  | autocommit c _ hl =>
    obtain ⟨ht, hw⟩ := mem_buildWriteRecords hr
    exact .inl ⟨c, rfl, ht, hw, hl⟩
  | commit c s p hs hp hg =>
    obtain ⟨ht, hw⟩ := mem_buildWriteRecords hr
    obtain ⟨hf, hle⟩ := hg.le hm hs hp
    exact .inr ⟨c, p, rfl, ht, ⟨hp, s, hs, hf⟩, hw, hle, rfl, AList.lookup_insert _⟩
  | _ => cases hr

/-- **Step.** A command that fits the frontier keeps a settled address settled
and writes only after it. -/
theorem Settled.step (hm : Coherent m) (h : Change db m c m' o) (hf : c.Fits f)
    (hs : Settled m f a t) :
    Settled m' (c.advance f) a t ∧ ∀ r ∈ o.writes, r.address = a → t < r.timestamp := by
  have ht := hs.le
  refine ⟨⟨ht.trans hf.le, ?_⟩, ?_⟩
  · intro id p hp hw
    rcases h.active hp with ⟨q, hq, hqt, hqs⟩ | ⟨x, rfl, _, _, hts, _⟩
    · rw [← hqs]
      exact hs.later id q hq (by rw [hqt]; exact hw)
    · rw [hts]
      exact lt_of_le_of_lt ht hf
  · intro r hr ha
    subst ha
    rcases h.writes hm hr with ⟨x, rfl, hts, _⟩ | ⟨x, p, rfl, hts, hp, hw, hle, _⟩
    · rw [hts]
      exact lt_of_le_of_lt ht hf
    · rw [hts]
      exact lt_of_lt_of_le (hs.later x.id p hp hw) hle

theorem Settled.runCmds (db : Store) (hm : Coherent m) (hf : FitsAll f cs) (hs : Settled m f a t) :
    Settled (m.runCmds db cs).1 (frontier f cs) a t ∧
      ∀ r ∈ (m.runCmds db cs).2.flatMap Outcome.writes, r.address = a → t < r.timestamp := by
  have key := loop_history (Manager.applyCmd db)
    (fun pre m os => Coherent m ∧ Settled m (frontier f pre) a t ∧
      ∀ r ∈ os.flatMap Outcome.writes, r.address = a → t < r.timestamp)
    cs m ⟨hm, hs, by simp⟩ ?_
  · exact key.2
  · rintro pre c post m os e ⟨hm, hs, hw⟩
    rw [e] at hf
    obtain ⟨h1, h2⟩ := hs.step hm (applyCmd_change db m c) hf.at
    rw [frontier_snoc]
    refine ⟨hm.applyCmd db c, h1, ?_⟩
    intro r hr ha
    rw [List.flatMap_append, List.mem_append] at hr
    rcases hr with hr | hr
    · exact hw r hr ha
    · simp only [List.flatMap_cons, List.flatMap_nil, List.append_nil] at hr
      exact h2 r hr ha

/-- **Batch.** A stamped batch keeps a settled address settled and writes only
after it. -/
theorem Settled.entry (hm : Coherent s.1) (hb : Stamped lo e.batch hi) (hs : Settled s.1 lo a t) :
    Settled (applyEntry s e).1.1 hi a t ∧
      ∀ r ∈ entryWrites s e, r.address = a → t < r.timestamp := by
  obtain ⟨hfit, hhi⟩ := hb.fits
  obtain ⟨h1, h2⟩ := hs.runCmds s.2 hm hfit
  refine ⟨⟨h1.le.trans hhi, ?_⟩, h2⟩
  intro id p hp
  exact h1.later id p (applyEntry_active hp)

variable {es : List Entry}

/-- **Run.** In a whole log of stamped batches nothing is written to a settled
address at or before its time. -/
theorem Settled.log (hm : Coherent s.1) (hc : Chain lo (es.map Entry.batch) hi)
    (hs : Settled s.1 lo a t) : ∀ r ∈ logWrites s es, r.address = a → t < r.timestamp := by
  induction es generalizing s lo with
  | nil => intro r hr; cases hr
  | cons e es ih =>
    rw [List.map_cons] at hc
    cases hc with
    | cons hle hb hbs =>
      obtain ⟨h1, h2⟩ := (hs.mono hle).entry hm hb
      intro r hr ha
      rcases List.mem_append.mp hr with hr | hr
      · exact h2 r hr ha
      · exact ih (s := (applyEntry s e).1) (hm.entry e) hbs h1 r hr ha

/-! ## Reachable states -/

theorem checkLocks_active {i : TxnId} (hm : Coherent m)
    (h : m.checkLocks id t txn.buildLocks = none) (hp : Active m i p) :
    Compatible txn.buildLocks p.txn.buildLocks := by
  obtain ⟨hr, hl⟩ := hp.held hm
  rw [← hl]
  exact (checkLocks_none_iff m id t _).mp h i p hp.entry hr

theorem Active.compatible {i j : TxnId} {q : Prepared} (hm : Coherent m) (hij : i ≠ j)
    (hp : Active m i p) (hq : Active m j q) : Compatible p.txn.buildLocks q.txn.buildLocks := by
  obtain ⟨hpr, hpl⟩ := hp.held hm
  obtain ⟨hqr, hql⟩ := hq.held hm
  rw [← hpl, ← hql]
  exact hm.exclusive i j p q hij hp.entry hq.entry hpr hqr

/-- What the state and the records of a partition have to do with the frontier:
open txns were stamped by it, and each record is the last word on its address
up to its time. -/
structure Frontier (f : Nat) (m : Manager) (rs : List Record) : Prop where
  coherent : Coherent m
  stamped : ∀ id p, Active m id p → 0 < p.timestamp ∧ p.timestamp ≤ f
  records : ∀ r ∈ rs, Settled m f r.address r.timestamp
  keyed : Keyed rs

theorem frontier_new (f pid : Nat) (cleanAfter : Int) :
    Frontier f (newPartition pid cleanAfter).1 (newPartition pid cleanAfter).2.records where
  coherent := coherent_new pid cleanAfter
  stamped := fun _ _ h => by cases h.entry
  records := fun _ h => by cases h
  keyed := fun _ h => by cases h

theorem Frontier.mono {f' : Nat} {rs : List Record} (h : Frontier f m rs) (hf : f ≤ f') :
    Frontier f' m rs where
  coherent := h.coherent
  stamped := fun id p hp => ⟨(h.stamped id p hp).1, (h.stamped id p hp).2.trans hf⟩
  records := fun r hr => (h.records r hr).mono hf
  keyed := h.keyed

theorem Change.writes_settled (hm : Coherent m) (h : Change db m c m' o) (hf : c.Fits f) :
    ∀ r ∈ o.writes, Settled m' (c.advance f) r.address r.timestamp := by
  intro r hr
  rcases h.writes hm hr with ⟨x, rfl, ht, hw, hl⟩ | ⟨x, p, rfl, ht, hp, hw, _, _, hst⟩
  · refine ⟨le_of_eq ht, ?_⟩
    intro id q hq hqw
    rcases h.active hq with ⟨q', hq', htx, _⟩ | ⟨y, hy, _⟩
    · have hd := (checkLocks_active hm hl hq').writes_disjoint hw
      rw [htx, hqw] at hd
      cases hd
    · cases hy
  · refine ⟨by rw [ht]; exact hf, ?_⟩
    intro id q hq hqw
    by_cases hid : id = x.id
    · -- the committed txn itself is no longer open
      subst hid
      obtain ⟨s, hs, hfin⟩ := hq.open_status
      rw [hst] at hs
      cases hs
      cases hfin
    · rcases h.active hq with ⟨q', hq', htx, _⟩ | ⟨y, hy, _⟩
      · have hd := (Active.compatible hm (Ne.symm hid) hp hq').writes_disjoint hw
        rw [htx, hqw] at hd
        cases hd
      · cases hy

theorem Frontier.step {rs : List Record} (h : Frontier f m rs) (hch : Change db m c m' o)
    (hf : c.Fits f) :
    Frontier (c.advance f) m' (overwriteAll Record.address Record.timestamp rs o.writes) where
  coherent := h.coherent.step hch
  stamped := by
    intro id p hp
    rcases hch.active hp with ⟨q, hq, _, hts⟩ | ⟨x, rfl, _, _, hts, _⟩
    · rw [← hts]
      exact ⟨(h.stamped id q hq).1, (h.stamped id q hq).2.trans hf.le⟩
    · rw [hts]
      exact ⟨lt_of_le_of_lt (Nat.zero_le _) hf, le_rfl⟩
  records := by
    intro r hr
    rcases mem_of_mem_overwriteAll hr with hr | hr
    · exact ((h.records r hr).step h.coherent hch hf).1
    · exact hch.writes_settled h.coherent hf r hr
  keyed := h.keyed.overwriteAll _

theorem Frontier.runCmds {db : Store} (h : Frontier f m db.records) (hf : FitsAll f cs) :
    Frontier (frontier f cs) (m.runCmds db cs).1
      (overwriteAll Record.address Record.timestamp db.records
        ((m.runCmds db cs).2.flatMap Outcome.writes)) := by
  refine loop_history (Manager.applyCmd db)
    (fun pre m os => Frontier (frontier f pre) m
      (overwriteAll Record.address Record.timestamp db.records (os.flatMap Outcome.writes)))
    cs m h ?_
  intro pre c post m os e ih
  rw [e] at hf
  rw [frontier_snoc, List.flatMap_append, overwriteAll_append]
  simpa using ih.step (applyCmd_change db m c) hf.at

theorem Frontier.entry (h : Frontier lo s.1 s.2.records) (hb : Stamped lo e.batch hi) :
    Frontier hi (applyEntry s e).1.1 (applyEntry s e).1.2.records := by
  obtain ⟨hfit, hhi⟩ := hb.fits
  have hr := (h.runCmds hfit).mono hhi
  rw [applyEntry_records]
  refine ⟨h.coherent.entry e, ?_, ?_, hr.keyed⟩
  · intro id p hp
    exact hr.stamped id p (applyEntry_active hp)
  · intro r hm
    refine ⟨(hr.records r hm).le, ?_⟩
    intro id p hp
    exact (hr.records r hm).later id p (applyEntry_active hp)

theorem Frontier.log (h : Frontier lo s.1 s.2.records) (hc : Chain lo (es.map Entry.batch) hi) :
    Frontier hi (applyLog s es).1.1 (applyLog s es).1.2.records := by
  induction es generalizing s lo with
  | nil => exact h.mono hc.le
  | cons e es ih =>
    rw [List.map_cons] at hc
    cases hc with
    | cons hle hb hbs => exact ih (s := (applyEntry s e).1) ((h.mono hle).entry hb) hbs

theorem Frontier.log_keeps (h : Frontier lo s.1 s.2.records)
    (hc : Chain lo (es.map Entry.batch) hi) (hr : r ∈ s.2.records) :
    r ∈ (applyLog s es).1.2.records := by
  rw [applyLog_records]
  refine mem_overwriteAll_of_mem hr ?_
  rintro w hw ⟨ha, ht⟩
  have hlt := (h.records r hr).log h.coherent hc w hw ha.symm
  omega

end Scout.Txn
