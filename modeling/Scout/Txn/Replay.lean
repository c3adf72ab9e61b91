import Scout.Txn.Serial

/-!
Replay over a store that is ahead of the log. A restarted or joining replica
re-applies entries whose records are already in its store, all or in part. The
replay answers as the first run did because `validate` reads at
`timestamp - 1`: the records that are ahead are later than that, or at
addresses that the txn does not check.
-/

namespace Scout.Txn

open Data Mvcc Lib

/-! ## Where a command depends on the store -/

variable {m : Manager} {db : Store} {c : Cmd}

theorem applyCmd_congr {db' : Store} (h : ∀ u t, c.newTxn = some u → c.newStamp = some t →
      m.checkLocks u.id t u.buildLocks = none → validate db u.id t u = validate db' u.id t u) :
    m.applyCmd db c = m.applyCmd db' c := by
  cases c with
  | autocommit x =>
    simp only [Manager.applyCmd, Manager.applyAutocommit]
    cases m.status.lookup x.txn.id with
    | some s => rfl
    | none =>
      cases hl : m.checkLocks x.txn.id x.timestamp x.txn.buildLocks with
      | some s => rfl
      | none => simp only [h x.txn x.timestamp rfl rfl hl]
  | prepare x =>
    simp only [Manager.applyCmd, Manager.applyPrepare]
    cases m.status.lookup x.txn.id with
    | some s => rfl
    | none =>
      cases hl : m.checkLocks x.txn.id x.timestamp x.txn.buildLocks with
      | some s => rfl
      | none => simp only [h x.txn x.timestamp rfl rfl hl]
  | _ => rfl

variable {s : Manager × Store} {e : Entry}

theorem applyEntry_results_congr {s' : Manager × Store} {e' : Entry} (hb : e.batch = e'.batch)
    (h : (applyEntry s e).2.all = (applyEntry s' e').2.all) :
    (applyEntry s e).2 = (applyEntry s' e').2 := by
  obtain ⟨index, now, b⟩ := e
  obtain ⟨index', now', b'⟩ := e'
  cases hb
  simp only [applyEntry] at h ⊢
  simp only [Manager.applyBatch, BatchResults.all, Manager.runCmds] at h ⊢
  obtain ⟨h, h6⟩ := List.append_inj h (by simp)
  obtain ⟨h, h5⟩ := List.append_inj h (by simp)
  obtain ⟨h, h4⟩ := List.append_inj h (by simp)
  obtain ⟨h, h3⟩ := List.append_inj h (by simp)
  obtain ⟨h1, h2⟩ := List.append_inj h (by simp)
  rw [h1, h2, h3, h4, h5, h6]

theorem applyEntry_congr {db' : Store}
    (h : m.runCmds db (batchCmds e.batch) = m.runCmds db' (batchCmds e.batch)) :
    (applyEntry (m, db) e).1.1 = (applyEntry (m, db') e).1.1 ∧
    (applyEntry (m, db) e).2 = (applyEntry (m, db') e).2 ∧
    entryWrites (m, db) e = entryWrites (m, db') e := by
  refine ⟨?_, ?_, ?_⟩
  · rw [applyEntry_manager, applyEntry_manager, h]
  · refine applyEntry_results_congr rfl ?_
    rw [applyEntry_results, applyEntry_results, h]
  · unfold entryWrites
    rw [h]

/-! ## Records that are ahead -/

theorem Pending.runCmds (hm : Coherent m) (db : Store) (cs : List Cmd) :
    Pending (m.runCmds db cs).1 cs ((m.runCmds db cs).2.flatMap Outcome.writes) := by
  have key := loop_history (Manager.applyCmd db)
    (fun pre m os => Coherent m ∧ Pending m pre (os.flatMap Outcome.writes))
    cs m ⟨hm, fun w hw => by cases hw⟩ ?_
  · exact key.2
  · rintro pre c post m os _ ⟨hm, hp⟩
    refine ⟨hm.applyCmd db c, ?_⟩
    have := hp.step hm (applyCmd_change db m c)
    simpa [List.flatMap_append] using this

/-- Once a new txn passed the lock check at `t`, its checked addresses are
settled up to `t - 1`, whether or not it is then accepted. -/
theorem settled_after_new {m' : Manager} {o : Outcome} {u : Txn} {t : Nat} {a : Address}
    (hm : Coherent m) (hch : Change db m c m' o) (hu : c.newTxn = some u)
    (ht : c.newStamp = some t) (hpos : 1 ≤ t) (hl : m.checkLocks u.id t u.buildLocks = none)
    (ha : u.checks a = true) :
    Settled m' t a (t - 1) ∧ ∀ r ∈ o.writes, r.address = a → t - 1 < r.timestamp := by
  refine ⟨⟨Nat.sub_le _ _, ?_⟩, ?_⟩
  · intro id p hp hw
    rcases hch.active hp with ⟨q, hq, htx, _⟩ | ⟨x, rfl, _, _, hts, _⟩
    · rw [← htx, checkLocks_not_written hm hl hq.entry (hq.held hm).1 ha] at hw
      cases hw
    · cases ht
      omega
  · intro r hr _
    rcases hch.writes hm hr with ⟨x, rfl, hts, _⟩ | ⟨x, p, rfl, _⟩
    · cases ht
      omega
    · cases hu

variable {es : List Entry} {lo hi : Nat}

/-- **Records that are ahead do not matter.** In an independent batch whatever
is written from this entry on is later than the validation of each of its new
txns, or at an address that the txn does not check. -/
theorem ahead_is_later {mid : Nat} (hm : Coherent s.1) (hb : Stamped lo e.batch mid)
    (hc : Chain mid (es.map Entry.batch) hi) (hind : Independent e.batch) {pre post : List Cmd}
    (hsplit : batchCmds e.batch = pre ++ c :: post) {u : Txn} {t : Nat} (hu : c.newTxn = some u)
    (ht : c.newStamp = some t)
    (hl : (s.1.runCmds s.2 pre).1.checkLocks u.id t u.buildLocks = none) {a : Address}
    (ha : u.checks a = true) :
    ∀ r ∈ logWrites s (e :: es), r.address = a → t - 1 < r.timestamp := by
  obtain ⟨hfit, hhi⟩ := hb.fits
  have hm₁ := hm.runCmds s.2 pre
  have hch := applyCmd_change s.2 (s.1.runCmds s.2 pre).1 c
  have hmid := hm₁.applyCmd s.2 c
  -- the frontier right after `c` is its stamp
  have hfits : FitsAll lo (pre ++ c :: post) := hsplit ▸ hfit
  have hadv : c.advance (frontier lo pre) = t := by simp [Cmd.advance, ht]
  have hrest : FitsAll t post := hadv ▸ hfits.right.2
  have hpos : 1 ≤ t := by
    have hlt := hfits.at
    cases c with
    | autocommit x => cases ht; exact Nat.one_le_of_lt hlt
    | prepare x => cases ht; exact Nat.one_le_of_lt hlt
    | _ => cases ht
  obtain ⟨hset, hown⟩ := settled_after_new hm₁ hch hu ht hpos hl ha
  obtain ⟨hset', hpost⟩ := hset.runCmds s.2 hmid hrest
  have hfrontier : frontier t post = frontier lo (batchCmds e.batch) := by
    rw [hsplit, ← hadv]
    simp [frontier, List.foldl_append]
  have hrun : s.1.runCmds s.2 (batchCmds e.batch) =
      ((((s.1.runCmds s.2 pre).1.applyCmd s.2 c).1.runCmds s.2 post).1,
        (s.1.runCmds s.2 pre).2 ++ ((s.1.runCmds s.2 pre).1.applyCmd s.2 c).2 ::
          (((s.1.runCmds s.2 pre).1.applyCmd s.2 c).1.runCmds s.2 post).2) := by
    rw [hsplit, runCmds_append, runCmds_cons]
  intro r hr har
  rcases List.mem_append.mp hr with hr | hr
  · -- written by this batch: before `c`, by `c`, or after it
    rw [entryWrites, hrun, List.flatMap_append, List.flatMap_cons, List.mem_append,
      List.mem_append] at hr
    rcases hr with hr | hr | hr
    · have := (Pending.runCmds hm s.2 pre).avoided hm₁ hl
        (fun x hx => hind.avoids hsplit hx hu) r hr
      rw [har, ha] at this
      cases this
    · exact hown r hr har
    · exact hpost r hr har
  · -- written by a later batch
    refine Settled.log (hm.entry e) hc ⟨?_, ?_⟩ r hr har
    · have := hset'.le
      omega
    · intro id p hp
      have hp' := applyEntry_active hp
      rw [hrun] at hp'
      exact hset'.later id p hp'

/-! ## Replay -/

theorem replay_runCmds {E : Store} {mid : Nat} (h : Frontier lo s.1 s.2.records) (hpos : 1 ≤ lo)
    (hb : Stamped lo e.batch mid) (hc : Chain mid (es.map Entry.batch) hi)
    (hind : Independent e.batch) (hsub : ∀ r ∈ s.2.records, r ∈ E.records)
    (hof : ∀ r ∈ E.records, r ∈ s.2.records ∨ r ∈ logWrites s (e :: es)) :
    s.1.runCmds s.2 (batchCmds e.batch) = s.1.runCmds E (batchCmds e.batch) := by
  refine loop_congr _ _ _ _ ?_
  intro pre c post hsplit
  refine applyCmd_congr ?_
  intro u t hu ht hl
  have hlater := fun a ha => ahead_is_later h.coherent hb hc hind hsplit hu ht hl (a := a) ha
  have ht2 : 2 ≤ t := by
    have hfit := (hsplit ▸ hb.fits.1 : FitsAll lo (pre ++ c :: post))
    have hlt := hfit.at
    have hle : lo ≤ frontier lo pre := FitsAll.le_frontier hfit.left
    cases c with
    | autocommit x => cases ht; have : _ < x.timestamp := hlt; omega
    | prepare x => cases ht; have : _ < x.timestamp := hlt; omega
    | _ => cases ht
  have hread : readTimestamp (decUint64 t) = t - 1 := by
    rw [decUint64_of_pos (by omega), readTimestamp_of_pos (by omega)]
  refine validate_congr fun a ha => ?_
  rw [hread]
  refine live_congr h.keyed ?_
  intro r har hrt
  refine ⟨hsub r, fun hr => ?_⟩
  rcases hof r hr with hr | hr
  · exact hr
  · have := hlater a ha r hr har
    omega

/-- The replay gives the same answers and the same manager after every entry,
and ends with the same records. -/
def Repeatable (s : Manager × Store) (E : Store) (log : List Entry) : Prop :=
  (applyLog (s.1, E) log).2 = (applyLog s log).2 ∧
  (∀ p q, log = p ++ q → (applyLog (s.1, E) p).1.1 = (applyLog s p).1.1) ∧
  ∀ r, r ∈ (applyLog (s.1, E) log).1.2.records ↔ r ∈ (applyLog s log).1.2.records

theorem replay_log {E : Store} (h : Frontier lo s.1 s.2.records) (hpos : 1 ≤ lo)
    (hc : Chain lo (es.map Entry.batch) hi) (hind : ∀ e ∈ es, Independent e.batch)
    (hsub : ∀ r ∈ s.2.records, r ∈ E.records)
    (hof : ∀ r ∈ E.records, r ∈ s.2.records ∨ r ∈ logWrites s es) : Repeatable s E es := by
  induction es generalizing s E lo with
  | nil =>
    refine ⟨rfl, ?_, fun r => ⟨fun hr => (hof r hr).resolve_right (by simp [logWrites]), hsub r⟩⟩
    intro p q e
    rw [(List.append_eq_nil_iff.mp e.symm).1]
    rfl
  | cons e es ih =>
    rw [List.map_cons] at hc
    cases hc with
    | cons hle hb hbs =>
      have hrun := replay_runCmds (h.mono hle) (hpos.trans hle) hb hbs (hind e (by simp)) hsub hof
      obtain ⟨h1, h2, h3⟩ := applyEntry_congr (e := e) hrun
      have hs : (s.1, s.2) = s := rfl
      rw [hs] at h1 h2 h3
      have hrec : (applyEntry (s.1, E) e).1.2.records =
          overwriteAll Record.address Record.timestamp E.records (entryWrites s e) := by
        rw [applyEntry_records, h3]
      -- both stores hold what this entry wrote, and keep what it did not replace
      have hsub' : ∀ r ∈ (applyEntry s e).1.2.records, r ∈ (applyEntry (s.1, E) e).1.2.records := by
        intro r hr
        rw [applyEntry_records] at hr
        rw [hrec]
        exact overwriteAll_mono hsub hr
      have hof' : ∀ r ∈ (applyEntry (s.1, E) e).1.2.records,
          r ∈ (applyEntry s e).1.2.records ∨ r ∈ logWrites (applyEntry s e).1 es := by
        intro r hr
        rw [hrec] at hr
        rw [applyEntry_records]
        by_cases hw : ∃ w ∈ entryWrites s e, r.address = w.address ∧ r.timestamp = w.timestamp
        · exact .inl ((mem_overwriteAll_iff hw).mp hr)
        have hE := (mem_of_mem_overwriteAll hr).resolve_right (fun hm => hw ⟨r, hm, rfl, rfl⟩)
        rcases hof r hE with hr' | hr'
        · exact .inl (mem_overwriteAll_of_mem hr' (fun w hm hk => hw ⟨w, hm, hk⟩))
        · rcases List.mem_append.mp hr' with hm | hm
          · exact absurd ⟨r, hm, rfl, rfl⟩ hw
          · exact .inr hm
      obtain ⟨i1, i2, i3⟩ := ih (s := (applyEntry s e).1) (E := (applyEntry (s.1, E) e).1.2)
        ((h.mono hle).entry hb) ((hpos.trans hle).trans hb.le) hbs
        (fun x hx => hind x (by simp [hx])) hsub' hof'
      have hnext : ((applyEntry s e).1.1, (applyEntry (s.1, E) e).1.2) =
          (applyEntry (s.1, E) e).1 := Prod.ext h1 rfl
      rw [hnext] at i1 i2 i3
      refine ⟨?_, ?_, ?_⟩
      · rw [applyLog_cons, applyLog_cons, i1, h2]
      · intro p q hpq
        cases p with
        | nil => rfl
        | cons x p =>
          obtain ⟨rfl, rfl⟩ := List.cons.inj hpq
          exact i2 p q rfl
      · exact i3

/-- **Replay over an ahead-of-log store is repeatable**, for every log that is
stamped in order, every point of it to restart from and every store in between,
if the batches re-applied are independent. -/
theorem replay_repeatable (pid : Nat) (cleanAfter : Int) (pre post : List Entry)
    (hlog : StampedInOrder ((pre ++ post).map Entry.batch))
    (hind : ∀ e ∈ post, Independent e.batch) (E : Store)
    (hsub : ∀ r ∈ (applyLog (newPartition pid cleanAfter) pre).1.2.records, r ∈ E.records)
    (hof : ∀ r ∈ E.records,
      r ∈ (applyLog (newPartition pid cleanAfter) (pre ++ post)).1.2.records) :
    Repeatable (applyLog (newPartition pid cleanAfter) pre).1 E post := by
  obtain ⟨lo, hi, hpos, hc⟩ := hlog
  rw [List.map_append] at hc
  obtain ⟨f, h1, h2⟩ := hc.append
  refine replay_log ((frontier_new _ pid cleanAfter).log h1) (hpos.trans h1.le) h2 hind hsub ?_
  intro r hr
  have hD := hof r hr
  rw [applyLog_append] at hD
  rw [applyLog_records _ post] at hD
  exact mem_of_mem_overwriteAll hD

/-! ## Two inserts in one batch, replayed -/

/-- The first insert finds the key free again, the second one finds the record
of the first. -/
theorem replay_not_repeatable :
    ¬ ∀ (clock : Clock) (es : List Event) (pid : Nat) (cleanAfter : Int) (pre post : List Entry),
      (Writer.run { clock } es).log = pre ++ post → ∀ E : Store,
      (∀ r ∈ (applyLog (newPartition pid cleanAfter) pre).1.2.records, r ∈ E.records) →
      (∀ r ∈ E.records, r ∈ (applyLog (newPartition pid cleanAfter) (pre ++ post)).1.2.records) →
      Repeatable (applyLog (newPartition pid cleanAfter) pre).1 E post := by
  intro h
  have hrep := h ⟨1, Nat.one_pos⟩ twoInserts 1 0 [] (logOf twoInserts) rfl
    (applyLog (newPartition 1 0) (logOf twoInserts)).1.2 (fun r hr => by cases hr)
    (fun r hr => hr)
  have hstatus := congrArg (fun m : Manager => m.status.lookup (insertZero 2).id)
    (hrep.2.1 _ [] (List.append_nil _).symm)
  exact absurd hstatus (by decide)

/-- The second of two batches re-applied over the final store. -/
theorem replay_repeatable_separateInserts :
    ((∀ e ∈ (logOf separateInserts).drop 1, Independent e.batch) ∧
      ∀ r ∈ (applyLog (newPartition 1 0) ((logOf separateInserts).take 1)).1.2.records,
        r ∈ (applyLog (newPartition 1 0) (logOf separateInserts)).1.2.records) ∧
    Repeatable (applyLog (newPartition 1 0) ((logOf separateInserts).take 1)).1
      (applyLog (newPartition 1 0) (logOf separateInserts)).1.2
      ((logOf separateInserts).drop 1) := by
  have hind : ∀ e ∈ (logOf separateInserts).drop 1, Independent e.batch :=
    fun e he => separateInserts_independent e (List.mem_of_mem_drop he)
  have hsub : ∀ r ∈ (applyLog (newPartition 1 0) ((logOf separateInserts).take 1)).1.2.records,
      r ∈ (applyLog (newPartition 1 0) (logOf separateInserts)).1.2.records := by decide
  refine ⟨⟨hind, hsub⟩, replay_repeatable 1 0 _ _ ?_ hind _ hsub ?_⟩
  · rw [List.take_append_drop]
    exact writer_stampedInOrder ⟨1, Nat.one_pos⟩ separateInserts
  · intro r hr
    rw [List.take_append_drop]
    exact hr

end Scout.Txn
