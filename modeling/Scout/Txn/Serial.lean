import Scout.Txn.Validation

/-!
Serial validity of committed writes. Along a log of independent batches every
committed txn stays valid at the point of the serial order that its timestamp
names, in the final store. One batch with two inserts of the same key shows
that independence is needed.
-/

namespace Scout.Txn

open Data Mvcc Lib

/-! ## Executed txns -/

/-- The txn that a command commits, with its timestamp; `o` is the outcome of
`c` in state `m`. Repeated commands execute nothing. -/
def executed (m : Manager) (c : Cmd) (o : Outcome) : Option (Txn × Nat) :=
  match c with
  | .autocommit x =>
    match m.status.lookup x.txn.id, o.result with
    | none, .ok s => if s.state = .committed then some (x.txn, s.timestamp) else none
    | _, _ => none
  | .commit x =>
    o.completion.bind fun id => (m.prepared.lookup id).map fun p => (p.txn, x.timestamp)
  | _ => none

def executedCmds (db : Store) : Manager → List Cmd → List (Txn × Nat)
  | _, [] => []
  | m, c :: cs =>
    (executed m c (m.applyCmd db c).2).toList ++ executedCmds db (m.applyCmd db c).1 cs

def executedLog : Manager × Store → List Entry → List (Txn × Nat)
  | _, [] => []
  | s, e :: es => executedCmds s.2 s.1 (batchCmds e.batch) ++ executedLog (applyEntry s e).1 es

variable {m : Manager} {c : Cmd}

theorem executed_idle {r : BatchResult} (h : Idle m c r) : executed m c { result := r } = none := by
  cases c with
  | autocommit x =>
    cases h with
    | missing h => cases h
    | refused e s hs =>
      simp only [Cmd.id] at hs
      simp only [executed, hs]
    | repeated s hs =>
      simp only [Cmd.id] at hs
      simp only [executed, hs]
    | failed s h hn hf =>
      simp only [Cmd.id] at hn
      simp only [executed, hn, hf]
      rfl
  | _ => rfl

/-! ## The invariant -/

/-- Every open txn is still valid at its prepare timestamp and untouched since,
every executed txn is valid for good, and committed statuses come from executed
txns. -/
structure Serial (f : Nat) (m : Manager) (rs : List Record) (done : List (Txn × Nat)) : Prop where
  order : Frontier f m rs
  held : ∀ id p, Active m id p → SerialValid rs p.timestamp p.txn ∧
    ∀ r ∈ rs, p.txn.checks r.address = true → r.timestamp < p.timestamp
  valid : ∀ x ∈ done, SerialValid rs x.2 x.1 ∧
    ∀ a, x.1.checks a = true → Settled m f a (x.2 - 1)
  recorded : ∀ id s, m.status.lookup id = some s → s.state = .committed →
    s.id = id ∧ ∃ txn, (txn, s.timestamp) ∈ done ∧ txn.id = id

theorem serial_new (f pid : Nat) (cleanAfter : Int) :
    Serial f (newPartition pid cleanAfter).1 (newPartition pid cleanAfter).2.records [] where
  order := frontier_new f pid cleanAfter
  held := fun _ _ h => by cases h.entry
  valid := fun _ h => by cases h
  recorded := fun _ _ h => by cases h

variable {done : List (Txn × Nat)}

theorem Serial.mono {f f' : Nat} {rs : List Record} (h : Serial f m rs done) (hf : f ≤ f') :
    Serial f' m rs done where
  order := h.order.mono hf
  held := h.held
  valid := fun x hx => ⟨(h.valid x hx).1, fun a ha => ((h.valid x hx).2 a ha).mono hf⟩
  recorded := h.recorded

variable {ws : List Record}

theorem SerialValid.overwrite {rs : List Record} {t : Nat} {txn : Txn} (hk : Keyed rs)
    (h : SerialValid rs t txn) (hw : ∀ w ∈ ws, txn.checks w.address = true → t - 1 < w.timestamp) :
    SerialValid (overwriteAll Record.address Record.timestamp rs ws) t txn := by
  refine (serialValid_congr fun a ha => ?_).mp h
  exact live_congr hk (agreeAt_overwriteAll fun w hm e => hw w hm (e ▸ ha))

variable {db : Store}

theorem Change.writes_avoid_active {m' : Manager} {o : Outcome} (hm : Coherent m)
    (h : Change db m c m' o) {id : TxnId} {p : Prepared} (hp : Active m' id p) :
    ∀ r ∈ o.writes, p.txn.checks r.address = false := by
  intro r hr
  cases hc : p.txn.checks r.address with
  | false => rfl
  | true =>
    obtain ⟨l, hl, hcov⟩ := txn_checks_lock p.txn _ hc
    rcases h.writes hm hr with ⟨x, rfl, _, hw, hlock⟩ | ⟨x, q, rfl, _, hq, hw, _, _, hst⟩
    · rcases h.active hp with ⟨p', hp', htx, _⟩ | ⟨y, hy, _⟩
      · have hcomp := (checkLocks_active hm hlock hp').symm
        rw [htx] at hcomp
        rw [writes_not_covered x.txn _ _ hcomp l hl hcov] at hw
        cases hw
      · cases hy
    · rcases h.active hp with ⟨p', hp', htx, _⟩ | ⟨y, hy, _⟩
      · have hne : id ≠ x.id := by
          rintro rfl
          obtain ⟨s, hs, hf⟩ := hp.open_status
          rw [hst] at hs
          cases hs
          cases hf
        have hcomp := Active.compatible hm hne hp' hq
        rw [htx] at hcomp
        rw [writes_not_covered q.txn _ _ hcomp l hl hcov] at hw
        cases hw
      · cases hy

/-! ## One command -/

section Step

variable {f : Nat} {db : Store} {m m' : Manager} {c : Cmd} {o : Outcome} {rs : List Record}
  {done : List (Txn × Nat)}

/-- The pending records are at no address that the new txn checks. -/
def ReadsCurrent (db : Store) (m : Manager) (rs : List Record) (c : Cmd) : Prop :=
  ∀ u id t, c.newTxn = some u → m.checkLocks id t u.buildLocks = none →
    ∀ a, u.checks a = true → ∀ t, live rs t a = live db.records t a

theorem Serial.step_held (h : Serial f m rs done) (hch : Change db m c m' o) (hf : c.Fits f)
    (hpos : 1 ≤ f) (hcur : ReadsCurrent db m rs c) (id : TxnId) (p : Prepared)
    (hp : Active m' id p) :
    SerialValid (overwriteAll Record.address Record.timestamp rs o.writes) p.timestamp p.txn ∧
      ∀ r ∈ overwriteAll Record.address Record.timestamp rs o.writes,
        p.txn.checks r.address = true → r.timestamp < p.timestamp := by
  have hm := h.order.coherent
  have havoid := hch.writes_avoid_active hm hp
  have hold : SerialValid rs p.timestamp p.txn ∧
      ∀ r ∈ rs, p.txn.checks r.address = true → r.timestamp < p.timestamp := by
    rcases hch.active hp with ⟨q, hq, htx, hts⟩ | ⟨x, rfl, _, htx, hts, hl, hv⟩
    · rw [← htx, ← hts]
      exact h.held id q hq
    · have hlt : f < x.timestamp := hf
      rw [htx, hts]
      refine ⟨?_, fun r hr _ => lt_of_le_of_lt (h.order.records r hr).le hlt⟩
      rw [validate_none_iff db _ (by omega)] at hv
      exact (serialValid_congr fun a ha => (hcur x.txn _ _ rfl hl a ha _).symm).mp hv
  constructor
  · refine hold.1.overwrite h.order.keyed ?_
    intro w hw hc
    rw [havoid w hw] at hc
    cases hc
  · intro r hr hc
    rcases mem_of_mem_overwriteAll hr with hr | hr
    · exact hold.2 r hr hc
    · rw [havoid r hr] at hc
      cases hc

theorem Serial.step_valid (h : Serial f m rs done) (hch : Change db m c m' o) (hf : c.Fits f)
    (x : Txn × Nat) (hx : x ∈ done) :
    SerialValid (overwriteAll Record.address Record.timestamp rs o.writes) x.2 x.1 ∧
      ∀ a, x.1.checks a = true → Settled m' (c.advance f) a (x.2 - 1) := by
  obtain ⟨hv, hs⟩ := h.valid x hx
  have hstep := fun a ha => (hs a ha).step h.order.coherent hch hf
  exact ⟨hv.overwrite h.order.keyed fun w hw hc => (hstep _ hc).2 w hw rfl,
    fun a ha => (hstep a ha).1⟩

theorem Serial.step_executed (h : Serial f m rs done) (hch : Change db m c m' o) (hf : c.Fits f)
    (hpos : 1 ≤ f) (hcur : ReadsCurrent db m rs c) (x : Txn × Nat) (hx : executed m c o = some x) :
    SerialValid (overwriteAll Record.address Record.timestamp rs o.writes) x.2 x.1 ∧
      ∀ a, x.1.checks a = true → Settled m' (c.advance f) a (x.2 - 1) := by
  have hm := h.order.coherent
  have hact := fun id p => @Change.active m id p _ _ _ _ hch
  cases hch with
  | idle c r hi =>
    rw [executed_idle hi] at hx
    cases hx
  | autocommit c hn hl hv =>
    simp only [executed, hn, newStatus, if_true, Option.some.injEq] at hx
    subst hx
    have hlt : f < c.timestamp := hf
    rw [validate_none_iff db _ (by omega)] at hv
    refine ⟨?_, fun a ha => ⟨Nat.sub_le _ _, ?_⟩⟩
    · refine SerialValid.overwrite h.order.keyed
        ((serialValid_congr fun a ha => (hcur c.txn _ _ rfl hl a ha _).symm).mp hv) ?_
      intro w hw _
      rw [(mem_buildWriteRecords hw).1]
      omega
    · intro id q hq hw
      rcases hact _ _ hq with ⟨q', hq', htx, _⟩ | ⟨y, hy, _⟩
      · rw [← htx, checkLocks_not_written hm hl hq'.entry (hq'.held hm).1 ha] at hw
        cases hw
      · cases hy
  | commit c s p hs hp hg =>
    simp only [executed, Option.bind_some, hp, Option.map_some, Option.some.injEq] at hx
    subst hx
    obtain ⟨hfin, hle⟩ := hg.le hm hs hp
    have ha : Active m c.id p := ⟨hp, s, hs, hfin⟩
    obtain ⟨hv, hbefore⟩ := h.held c.id p ha
    have hpos := (h.order.stamped c.id p ha).1
    have hcf : c.timestamp ≤ f := hf
    refine ⟨?_, fun a hca => ⟨?_, ?_⟩⟩
    · -- nothing was written at a checked address between prepare and commit
      have hv' : SerialValid rs c.timestamp p.txn := by
        refine (serialValid_congr fun a hca => ?_).mp hv
        unfold live visible
        have hback : p.timestamp - 1 ≤ c.timestamp - 1 := by omega
        rw [newest_later hback]
        intro r hr e
        have := hbefore r hr (e ▸ hca)
        omega
      refine hv'.overwrite h.order.keyed ?_
      intro w hw _
      rw [(mem_buildWriteRecords hw).1]
      omega
    · change c.timestamp - 1 ≤ f
      omega
    · intro id q hq hw
      have hne : id ≠ c.id := by
        rintro rfl
        obtain ⟨s', hs', hf'⟩ := hq.open_status
        simp only [AList.lookup_insert, Option.some.injEq] at hs'
        subst hs'
        cases hf'
      rcases hact _ _ hq with ⟨q', hq', htx, _⟩ | ⟨y, hy, _⟩
      · obtain ⟨l, hl, hcov⟩ := txn_checks_lock p.txn a hca
        have hcomp := Active.compatible hm (Ne.symm hne) ha hq'
        rw [← htx, writes_not_covered q'.txn _ a hcomp l hl hcov] at hw
        cases hw
      · cases hy
  | _ => cases hx

theorem Serial.step_recorded (h : Serial f m rs done) (hch : Change db m c m' o) (id : TxnId)
    (s : TxnStatus) (hs : m'.status.lookup id = some s) (hst : s.state = .committed) :
    s.id = id ∧ ∃ txn, (txn, s.timestamp) ∈ done ++ (executed m c o).toList ∧ txn.id = id := by
  have old : m.status.lookup id = some s →
      s.id = id ∧ ∃ txn, (txn, s.timestamp) ∈ done ++ (executed m c o).toList ∧ txn.id = id := by
    intro hs
    obtain ⟨h1, txn, hmem, h2⟩ := h.recorded id s hs hst
    exact ⟨h1, txn, by simp [hmem], h2⟩
  by_cases hid : id = c.id
  · subst hid
    cases hch with
    | idle => exact old hs
    | release => exact old hs
    | autocommit c hn =>
      simp only [Cmd.id, AList.lookup_insert, Option.some.injEq] at hs
      subst hs
      exact ⟨rfl, c.txn, by simp [executed, hn, newStatus], rfl⟩
    | commit c s' p hs' hp =>
      simp only [Cmd.id, AList.lookup_insert, Option.some.injEq] at hs
      subst hs
      exact ⟨rfl, p.txn, by simp [executed, hp, committedStatus, newStatus],
        (h.order.coherent.record c.id).txn_id p hp⟩
    | _ =>
      simp only [Cmd.id, AList.lookup_insert, Option.some.injEq] at hs
      subst hs
      cases hst
  · rw [(hch.frame hid).1] at hs
    exact old hs

/-- **Step.** -/
theorem Serial.step (h : Serial f m rs done) (hch : Change db m c m' o) (hf : c.Fits f)
    (hpos : 1 ≤ f) (hcur : ReadsCurrent db m rs c) :
    Serial (c.advance f) m' (overwriteAll Record.address Record.timestamp rs o.writes)
      (done ++ (executed m c o).toList) where
  order := h.order.step hch hf
  held := h.step_held hch hf hpos hcur
  valid := by
    intro x hx
    rcases List.mem_append.mp hx with hx | hx
    · exact h.step_valid hch hf x hx
    · exact h.step_executed hch hf hpos hcur x (Option.mem_toList.mp hx)
  recorded := h.step_recorded hch

theorem Serial.step_reported (h : Serial f m rs done) (hch : Change db m c m' o) {s : TxnStatus}
    (ho : o.result = .ok s) (hst : s.state = .committed) :
    ∃ txn, (txn, s.timestamp) ∈ done ++ (executed m c o).toList ∧ txn.id = s.id := by
  cases hch with
  | idle c r hi =>
    cases hi with
    | missing => cases ho
    | refused => cases ho
    | repeated s' hs =>
      cases ho
      obtain ⟨h1, txn, hmem, h2⟩ := h.recorded _ s hs hst
      exact ⟨txn, by simp [hmem], by rw [h1, h2]⟩
    | failed s' _ _ hf =>
      cases ho
      rw [hf] at hst
      cases hst
  | autocommit c hn =>
    cases ho
    exact ⟨c.txn, by simp [executed, hn, newStatus], rfl⟩
  | commit c s' p hs hp =>
    cases ho
    exact ⟨p.txn, by simp [executed, hp, committedStatus, newStatus],
      (h.order.coherent.record c.id).txn_id p hp⟩
  | release c s' p hs hp hpid hst' =>
    cases ho
    rw [hst'] at hst
    cases hst
  | _ =>
    cases ho
    cases hst

end Step

/-! ## Batches and logs -/

theorem Pending.readsCurrent {b : TxnBatch} {pre post : List Cmd} (hb : Independent b)
    (hsplit : batchCmds b = pre ++ c :: post) (hm : Coherent m) (hk : Keyed db.records)
    (hp : Pending m pre ws) :
    ReadsCurrent db m (overwriteAll Record.address Record.timestamp db.records ws) c := by
  intro u id t hu hl a ha t'
  refine (live_congr hk (agreeAt_overwriteAll ?_)).symm
  intro w hw e
  have := hp.avoided hm hl (fun x hx => hb.avoids hsplit hx hu) w hw
  rw [e, ha] at this
  cases this

/-- The reported commits of these answers come from executed txns. -/
def Reported (done : List (Txn × Nat)) (results : List BatchResult) : Prop :=
  ∀ s, .ok s ∈ results → s.state = .committed → ∃ txn, (txn, s.timestamp) ∈ done ∧ txn.id = s.id

theorem Reported.mono {done' : List (Txn × Nat)} {results : List BatchResult}
    (h : Reported done results) (hsub : ∀ x ∈ done, x ∈ done') : Reported done' results := by
  intro s hs hst
  obtain ⟨txn, hmem, hid⟩ := h s hs hst
  exact ⟨txn, hsub _ hmem, hid⟩

theorem Serial.runCmds {b : TxnBatch} (hb : Independent b) (hk : Keyed db.records)
    {cs pre : List Cmd} {f : Nat} (hsplit : batchCmds b = pre ++ cs) (hf : FitsAll f cs)
    (hpos : 1 ≤ f) (hp : Pending m pre ws)
    (h : Serial f m (overwriteAll Record.address Record.timestamp db.records ws) done) :
    Serial (frontier f cs) (m.runCmds db cs).1
      (overwriteAll Record.address Record.timestamp db.records
        (ws ++ (m.runCmds db cs).2.flatMap Outcome.writes)) (done ++ executedCmds db m cs) ∧
    Reported (done ++ executedCmds db m cs) ((m.runCmds db cs).2.map Outcome.result) := by
  induction cs generalizing pre f m ws done with
  | nil =>
    refine ⟨by simpa [Manager.runCmds, executedCmds, frontier] using h, ?_⟩
    intro s hs
    cases hs
  | cons c cs ih =>
    have hm := h.order.coherent
    have hch := applyCmd_change db m c
    have hcur := hp.readsCurrent hb hsplit hm hk
    have h' := h.step hch hf.1 hpos hcur
    rw [← overwriteAll_append] at h'
    have hsplit' : batchCmds b = (pre ++ [c]) ++ cs := by simp [hsplit]
    obtain ⟨h1, h2⟩ := ih hsplit' hf.2 (hpos.trans hf.1.le) (hp.step hm hch) h'
    rw [runCmds_cons, executedCmds, ← List.append_assoc, List.flatMap_cons, ← List.append_assoc]
    refine ⟨h1, ?_⟩
    intro s hs hst
    rcases List.mem_cons.mp hs with hs | hs
    · obtain ⟨txn, hmem, hid⟩ := h.step_reported hch hs.symm hst
      exact ⟨txn, List.mem_append.mpr (.inl hmem), hid⟩
    · exact h2 s hs hst

theorem Serial.entry {s : Manager × Store} {e : Entry} {lo hi : Nat} (hb : Stamped lo e.batch hi)
    (hind : Independent e.batch) (hpos : 1 ≤ lo) (h : Serial lo s.1 s.2.records done) :
    Serial hi (applyEntry s e).1.1 (applyEntry s e).1.2.records
      (done ++ executedCmds s.2 s.1 (batchCmds e.batch)) ∧
    Reported (done ++ executedCmds s.2 s.1 (batchCmds e.batch)) (applyEntry s e).2.all := by
  obtain ⟨hfit, hhi⟩ := hb.fits
  have hsplit : batchCmds e.batch = [] ++ batchCmds e.batch := rfl
  have hp : Pending s.1 [] [] := fun w hw => by cases hw
  obtain ⟨hr, hrep⟩ := Serial.runCmds hind h.order.keyed hsplit hfit hpos hp h
  rw [List.nil_append] at hr
  constructor
  · refine ⟨h.order.entry hb, ?_, ?_, ?_⟩
    · intro id p hp
      rw [applyEntry_records]
      exact hr.held id p (applyEntry_active hp)
    · intro x hx
      rw [applyEntry_records]
      obtain ⟨h1, h2⟩ := hr.valid x hx
      exact ⟨h1, fun a ha => ⟨((h2 a ha).le).trans hhi,
        fun id p hp => (h2 a ha).later id p (applyEntry_active hp)⟩⟩
    · intro id st hst
      exact hr.recorded id st (applyEntry_status hst)
  · rw [applyEntry_results]
    exact hrep

theorem Serial.log {s : Manager × Store} {es : List Entry} {lo hi : Nat}
    (hc : Chain lo (es.map Entry.batch) hi) (hind : ∀ e ∈ es, Independent e.batch) (hpos : 1 ≤ lo)
    (h : Serial lo s.1 s.2.records done) :
    Serial hi (applyLog s es).1.1 (applyLog s es).1.2.records (done ++ executedLog s es) ∧
    ∀ rs ∈ (applyLog s es).2, Reported (done ++ executedLog s es) rs.all := by
  induction es generalizing s lo done with
  | nil =>
    rw [executedLog, List.append_nil]
    refine ⟨h.mono hc.le, ?_⟩
    intro rs hrs
    cases hrs
  | cons e es ih =>
    rw [List.map_cons] at hc
    cases hc with
    | cons hle hb hbs =>
      have hpos' := hpos.trans hle
      obtain ⟨h1, h2⟩ := (h.mono hle).entry hb (hind e (by simp)) hpos'
      obtain ⟨h3, h4⟩ := ih (s := (applyEntry s e).1) hbs
        (fun x hx => hind x (by simp [hx])) (hpos'.trans hb.le) h1
      rw [executedLog, ← List.append_assoc, applyLog_cons]
      refine ⟨h3, ?_⟩
      intro rs hrs
      rcases List.mem_cons.mp hrs with rfl | hrs
      · exact h2.mono fun x hx => List.mem_append.mpr (.inl hx)
      · exact h4 rs hrs

/-- Every executed txn is valid in the final store at its place in the serial
order, and every reported commit is one of an executed txn. -/
def SeriallyValid (s : Manager × Store) (log : List Entry) : Prop :=
  (∀ x ∈ executedLog s log, SerialValid (applyLog s log).1.2.records x.2 x.1) ∧
  ∀ rs ∈ (applyLog s log).2, Reported (executedLog s log) rs.all

/-- **Serial validity of committed writes**, for every run of the writer whose
batches are independent. -/
theorem committed_serially_valid (clock : Clock) (es : List Event) (pid : Nat) (cleanAfter : Int)
    (hind : ∀ e ∈ (Writer.run { clock } es).log, Independent e.batch) :
    SeriallyValid (newPartition pid cleanAfter) (Writer.run { clock } es).log := by
  obtain ⟨h1, h2⟩ := Serial.log (writer_chain clock es) hind clock.pos
    (serial_new clock.last pid cleanAfter)
  rw [List.nil_append] at h1 h2
  exact ⟨fun x hx => (h1.valid x hx).1, h2⟩

/-! ## Two inserts in one batch -/

def insertZero (timestamp : Nat) : Txn :=
  ⟨⟨1, 1, timestamp⟩, [⟨0, some (.insert 16 [0] [])⟩], []⟩

/-- Two autocommits that insert the same key, flushed together. -/
def twoInserts : List Event :=
  [.autocommit (insertZero 1), .autocommit (insertZero 2), .flush [] (some (1, 0))]

/-- Both inserts are executed, the second one over the first. -/
theorem committed_not_serially_valid :
    ¬ ∀ (clock : Clock) (es : List Event) (pid : Nat) (cleanAfter : Int),
      SeriallyValid (newPartition pid cleanAfter) (Writer.run { clock } es).log := by
  intro h
  have hv := (h ⟨1, Nat.one_pos⟩ twoInserts 1 0).1 (insertZero 2, 3) (by decide)
    ⟨0, some (.insert 16 [0] [])⟩ (by decide)
  exact absurd hv (by decide : ¬ live _ _ _ = false)

/-- The same inserts in two batches. -/
def separateInserts : List Event :=
  [.autocommit (insertZero 1), .flush [] (some (1, 0)), .autocommit (insertZero 2),
    .flush [] (some (2, 0))]

theorem separateInserts_independent : ∀ e ∈ logOf separateInserts, Independent e.batch := by
  intro e he
  simp only [separateInserts, logOf, Writer.run, List.foldl_cons, List.foldl_nil, Writer.step,
    Writer.flush, Option.map_some, Option.toList, List.nil_append, List.cons_append,
    List.mem_cons, List.not_mem_nil, or_false] at he
  rcases he with rfl | rfl
  · exact ⟨List.pairwise_singleton _ _, by rintro _ _ _ ⟨⟩⟩
  · exact ⟨List.pairwise_singleton _ _, by rintro _ _ _ ⟨⟩⟩

theorem committed_serially_valid_separateInserts :
    (∀ e ∈ logOf separateInserts, Independent e.batch) ∧
      SeriallyValid (newPartition 1 0) (logOf separateInserts) :=
  ⟨separateInserts_independent,
    committed_serially_valid _ separateInserts 1 0 separateInserts_independent⟩

end Scout.Txn
