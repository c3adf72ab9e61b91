import Scout.Txn.Manager

/-!
The main loop of the watchdog on the principal partition (`watchdog_2pc.go`):
which txns it tracks, and when it hands one to a resolver. A txn enters the
`all` map only in `loadRunning`, and a queue is only looked at up to its first
entry that is not timed out yet. What the resolvers then do is modelled with
the protocol.
-/

namespace Scout.Txn

open Data Lib

/-! ## Records of running txns -/

structure Running where
  id : TxnId
  timestamp : Nat
  state : State
  participantPids : List Nat := []
  decision : Option Decision := none
  deriving DecidableEq, Repr

/-- `Manager.getRunning`, in the order of the map entries. A prepared txn always
has a status. -/
def Manager.getRunning (m : Manager) : List Running :=
  m.prepared.entries.filterMap fun e =>
    if e.1.principalPid ≠ m.pid || e.2.locksReleased then none
    else (m.status.lookup e.1).map fun status =>
      { id := e.1, timestamp := status.timestamp, state := status.state,
        participantPids := status.participantPids, decision := e.2.decision }

/-- `UpdateStatus`: the record it sends to the main loop, if any. -/
def updateStatus (pid : Nat) (status : Option TxnStatus) (prepared : Option Txn)
    (decision : Option Decision) : Option Running :=
  match status with
  | none => none
  | some s =>
    if s.id.principalPid ≠ pid then none
    else some
      { id := s.id, timestamp := s.timestamp, state := s.state, decision,
        participantPids := (prepared.map Txn.participantPids).getD [] }

/-! ## The main loop -/

/-- The variables of `mainLoop`. -/
structure Dog where
  all : AList (fun _ : TxnId => State) := ∅
  prepared : List Running := []
  decided : List Running := []

/-- `int(a.Timestamp - b.Timestamp)` on 64-bit integers. -/
def cmpFn (a b : Running) : Int :=
  let x : Nat := (a.timestamp + (2 ^ 64 - b.timestamp % 2 ^ 64)) % 2 ^ 64
  if x < 2 ^ 63 then x else (x : Int) - 2 ^ 64

/-- A txn in state `Timedout` goes to the prepared queue, to be aborted. -/
def loadRunning (running : List Running) : Dog :=
  let tracked := running.filter fun p =>
    p.state == .prepared || p.state == .decided || p.state == .timedout
  { all := tracked.foldl (fun all p => all.insert p.id p.state) ∅
    prepared := (running.filter fun p => p.state == .prepared || p.state == .timedout).insertionSort
      (fun a b => cmpFn a b ≤ 0)
    decided := (running.filter fun p => p.state == .decided).insertionSort
      (fun a b => cmpFn a b ≤ 0) }

/-- `checkTimedout`: what is left of `all` and the queue, and the txns handed to
the resolver. An id that is not in `all` reads as the zero value `Pending`. -/
def checkTimedout (oldest : Nat) (expectedState : State) (all : AList (fun _ : TxnId => State)) :
    List Running → AList (fun _ : TxnId => State) × List Running × List Running
  | [] => (all, [], [])
  | r :: queue =>
    if r.timestamp > oldest then (all, r :: queue, [])
    else if (all.lookup r.id).getD .pending ≠ expectedState then
      checkTimedout oldest expectedState all queue
    else
      let rest := checkTimedout oldest expectedState (all.erase r.id) queue
      (rest.1, rest.2.1, r :: rest.2.2)

structure Timeouts where
  phase1 : Int
  phase2 : Int

inductive DogEvent where
  | status (r : Running)
  | tickerPhase1 (now : Int)
  | tickerPhase2 (now : Int)
  deriving Repr

inductive Resolver where
  | abort | commit
  deriving DecidableEq, Repr

/-- One iteration of the main loop, with the txns it hands over. -/
def Dog.step (t : Timeouts) (d : Dog) : DogEvent → Dog × List (Resolver × Running)
  | .status r =>
    match d.all.lookup r.id with
    | none => (d, [])
    | some _ =>
      match r.state with
      | .prepared =>
        ({ d with all := d.all.insert r.id r.state, prepared := d.prepared ++ [r] }, [])
      | .decided =>
        ({ d with all := d.all.insert r.id r.state, decided := d.decided ++ [r] }, [])
      | .committed | .aborted => ({ d with all := d.all.erase r.id }, [])
      | _ => (d, [])
  | .tickerPhase1 now =>
    let r := checkTimedout (fromTime (now - t.phase1)) .prepared d.all d.prepared
    ({ d with all := r.1, prepared := r.2.1 }, r.2.2.map (Prod.mk .abort))
  | .tickerPhase2 now =>
    let r := checkTimedout (fromTime (now - t.phase2)) .decided d.all d.decided
    ({ d with all := r.1, decided := r.2.1 }, r.2.2.map (Prod.mk .commit))

def Dog.run (t : Timeouts) (d : Dog) (es : List DogEvent) :
    Dog × List (List (Resolver × Running)) := loop (Dog.step t) d es

/-! ## What one check hands over -/

section Check

variable (oldest : Nat) (expectedState : State)

theorem checkTimedout_all (all : AList (fun _ : TxnId => State)) (queue : List Running)
    (id : TxnId) (h : ∀ r ∈ (checkTimedout oldest expectedState all queue).2.2, r.id ≠ id) :
    (checkTimedout oldest expectedState all queue).1.lookup id = all.lookup id := by
  induction queue generalizing all with
  | nil => rfl
  | cons r queue ih =>
    unfold checkTimedout at h ⊢
    split
    · rfl
    split
    · simp_all
    rename_i h1 h2
    rw [if_neg h1, if_neg h2] at h
    have hne : r.id ≠ id := h r (by simp)
    have hrest := ih (all.erase r.id) (fun x hx => h x (by simp [hx]))
    rw [hrest, AList.lookup_erase_ne (Ne.symm hne)]

theorem checkTimedout_none (all : AList (fun _ : TxnId => State)) (queue : List Running)
    (id : TxnId) (h : all.lookup id = none) :
    (checkTimedout oldest expectedState all queue).1.lookup id = none := by
  induction queue generalizing all with
  | nil => exact h
  | cons r queue ih =>
    unfold checkTimedout
    split
    · exact h
    split
    · exact ih all h
    refine ih (all.erase r.id) ?_
    by_cases hid : id = r.id
    · subst hid
      exact AList.lookup_erase _ _
    · rw [AList.lookup_erase_ne hid]
      exact h

theorem checkTimedout_gone (all : AList (fun _ : TxnId => State)) (queue : List Running)
    (r : Running) (h : r ∈ (checkTimedout oldest expectedState all queue).2.2) :
    (checkTimedout oldest expectedState all queue).1.lookup r.id = none := by
  induction queue generalizing all with
  | nil => cases h
  | cons x queue ih =>
    unfold checkTimedout at h ⊢
    split
    · rename_i hx
      rw [if_pos hx] at h
      cases h
    · rename_i hx
      rw [if_neg hx] at h
      split
      · rename_i hst
        rw [if_pos hst] at h
        exact ih all h
      · rename_i hst
        rw [if_neg hst] at h
        rcases List.mem_cons.mp h with rfl | h
        · exact checkTimedout_none _ _ _ _ _ (AList.lookup_erase _ _)
        · exact ih _ h

theorem checkTimedout_mem (all : AList (fun _ : TxnId => State)) (queue : List Running)
    (r : Running) (h : r ∈ (checkTimedout oldest expectedState all queue).2.2) : r ∈ queue := by
  induction queue generalizing all with
  | nil => exact h
  | cons x queue ih =>
    unfold checkTimedout at h
    split at h
    · cases h
    split at h
    · exact List.mem_cons_of_mem _ (ih _ h)
    · rcases List.mem_cons.mp h with rfl | h
      · exact List.mem_cons_self
      · exact List.mem_cons_of_mem _ (ih _ h)

theorem checkTimedout_keeps (all : AList (fun _ : TxnId => State)) (queue : List Running)
    (r : Running) (hr : r ∈ queue) (hlate : oldest < r.timestamp) :
    r ∈ (checkTimedout oldest expectedState all queue).2.1 := by
  induction queue generalizing all with
  | nil => exact hr
  | cons x queue ih =>
    unfold checkTimedout
    split
    · exact hr
    rename_i hx
    have hne : r ≠ x := by
      rintro rfl
      exact hx hlate
    have hr' := (List.mem_cons.mp hr).resolve_left hne
    split
    · exact ih _ hr'
    · exact ih _ hr'

theorem checkTimedout_suffix (all : AList (fun _ : TxnId => State)) (queue : List Running) :
    (checkTimedout oldest expectedState all queue).2.1 <:+ queue := by
  induction queue generalizing all with
  | nil => exact List.suffix_rfl
  | cons x queue ih =>
    unfold checkTimedout
    split
    · exact List.suffix_rfl
    · split
      · exact (ih _).trans (List.suffix_cons _ _)
      · exact (ih _).trans (List.suffix_cons _ _)

/-- **In a sorted queue every timed out record in the expected state is handed
over**, this one or another of the same txn. -/
theorem checkTimedout_hands (all : AList (fun _ : TxnId => State)) (queue : List Running)
    (hs : queue.Pairwise fun a b => a.timestamp ≤ b.timestamp) (r : Running) (hr : r ∈ queue)
    (ht : r.timestamp ≤ oldest) (hst : all.lookup r.id = some expectedState) :
    ∃ x ∈ (checkTimedout oldest expectedState all queue).2.2, x.id = r.id := by
  induction queue generalizing all with
  | nil => cases hr
  | cons x queue ih =>
    have hx : ¬ x.timestamp > oldest := by
      rcases List.mem_cons.mp hr with rfl | hr
      · omega
      · have := (List.pairwise_cons.mp hs).1 r hr
        omega
    have hs' := (List.pairwise_cons.mp hs).2
    unfold checkTimedout
    rw [if_neg hx]
    by_cases hid : x.id = r.id
    · have hx' : all.lookup x.id = some expectedState := hid ▸ hst
      rw [if_neg (by simp [hx'])]
      exact ⟨x, by simp, hid⟩
    · have hr' : r ∈ queue := by
        rcases List.mem_cons.mp hr with rfl | hr
        · exact absurd rfl hid
        · exact hr
      split
      · exact ih all hs' hr' hst
      · obtain ⟨y, hy, hyid⟩ := ih (all.erase x.id) hs' hr'
          (by rw [AList.lookup_erase_ne (Ne.symm hid)]; exact hst)
        exact ⟨y, by simp [hy], hyid⟩

end Check

/-! ## Runs of the main loop -/

/-- The last status of a txn that reached the main loop. -/
def latest (running : List Running) (es : List DogEvent) (id : TxnId) : Option Running :=
  es.foldl (fun last e =>
    match e with
    | .status r => if r.id = id then some r else last
    | _ => last) (running.find? fun r => r.id = id)

def handedOver (outs : List (List (Resolver × Running))) (id : TxnId) : Prop :=
  ∃ out ∈ outs, ∃ x ∈ out, x.2.id = id

section Runs

variable (t : Timeouts) (running : List Running)

/-- **Tracking.** At each tick every txn whose last status is that of the phase
and has timed out is handed over, unless it was before; and a txn loaded in
state `Timedout` is handed over at the first tick of phase 1. -/
def Tracked (es : List DogEvent) : Prop :=
  ∀ pre e post, es = pre ++ e :: post →
    let d := Dog.run t (loadRunning running) pre
    (∀ now, e = .tickerPhase1 now → ∀ r, latest running pre r.id = some r → r.state = .prepared →
      r.timestamp ≤ fromTime (now - t.phase1) → ¬ handedOver d.2 r.id →
      ∃ x ∈ (d.1.step t e).2, x.1 = .abort ∧ x.2.id = r.id) ∧
    (∀ now, e = .tickerPhase2 now → ∀ r, latest running pre r.id = some r → r.state = .decided →
      r.timestamp ≤ fromTime (now - t.phase2) → ¬ handedOver d.2 r.id →
      ∃ x ∈ (d.1.step t e).2, x.1 = .commit ∧ x.2.id = r.id) ∧
    (∀ now, e = .tickerPhase1 now → (∀ n, .tickerPhase1 n ∉ pre) →
      ∀ r ∈ running, r.state = .timedout →
      ∃ x ∈ (d.1.step t e).2, x.1 = .abort ∧ x.2.id = r.id)

/-- An event that the main loop keeps in order: a `Prepared` or `Decided` status
is of a txn in `all` and not older than those queued before, or the txn was
handed over already. -/
def DogEvent.Orderly (d : Dog) (outs : List (List (Resolver × Running))) : DogEvent → Prop
  | .status r =>
    (r.state = .prepared →
      (r.id ∈ d.all ∧ ∀ q ∈ d.prepared, q.timestamp ≤ r.timestamp) ∨ handedOver outs r.id) ∧
    (r.state = .decided →
      (r.id ∈ d.all ∧ ∀ q ∈ d.decided, q.timestamp ≤ r.timestamp) ∨ handedOver outs r.id)
  | _ => True

def OrderlyRun (es : List DogEvent) : Prop :=
  ∀ pre e post, es = pre ++ e :: post →
    e.Orderly (Dog.run t (loadRunning running) pre).1 (Dog.run t (loadRunning running) pre).2

/-- What `all` and the queue of one phase know about a txn whose last status is
the one of the phase and that was not handed over. -/
structure InQueue (pre : List DogEvent) (all : AList (fun _ : TxnId => State))
    (outs : List (List (Resolver × Running))) (state : State) (queue : List Running) : Prop where
  sorted : queue.Pairwise fun a b => a.timestamp ≤ b.timestamp
  tracked : ∀ r, latest running pre r.id = some r → r.state = state → ¬ handedOver outs r.id →
    all.lookup r.id = some state ∧ r ∈ queue

structure Follows (pre : List DogEvent) (d : Dog) (outs : List (List (Resolver × Running))) :
    Prop where
  prepared : InQueue running pre d.all outs .prepared d.prepared
  decided : InQueue running pre d.all outs .decided d.decided
  gone : ∀ id, handedOver outs id → d.all.lookup id = none

end Runs

theorem latest_snoc (running : List Running) (es : List DogEvent) (e : DogEvent) (id : TxnId) :
    latest running (es ++ [e]) id =
      match e with
      | .status r => if r.id = id then some r else latest running es id
      | _ => latest running es id := by
  unfold latest
  rw [List.foldl_append]
  cases e <;> rfl

theorem handedOver_snoc (outs : List (List (Resolver × Running))) (out : List (Resolver × Running))
    (id : TxnId) : handedOver (outs ++ [out]) id ↔ handedOver outs id ∨ ∃ x ∈ out, x.2.id = id := by
  simp [handedOver, or_and_right, exists_or]

/-! ## The loaded state -/

theorem cmpFn_nonpos (a b : Running) (ha : a.timestamp < 2 ^ 63) (hb : b.timestamp < 2 ^ 63) :
    cmpFn a b ≤ 0 ↔ a.timestamp ≤ b.timestamp := by
  unfold cmpFn
  dsimp only
  split <;> omega

/-- Timestamps of a 64-bit signed clock are sorted by `cmpFn`. -/
theorem sorted_of_cmpFn (rs : List Running) (h : ∀ r ∈ rs, r.timestamp < 2 ^ 63) :
    (rs.insertionSort fun a b => cmpFn a b ≤ 0).Pairwise fun a b => a.timestamp ≤ b.timestamp := by
  have he := List.map_insertionSort (fun a b : Running => cmpFn a b ≤ 0)
    (fun a b : Running => a.timestamp ≤ b.timestamp) (fun r : Running => r) rs
    (fun a ha b hb => cmpFn_nonpos a b (h a ha) (h b hb))
  rw [List.map_id', List.map_id'] at he
  rw [he]
  exact List.pairwise_insertionSort _ _

theorem lookup_foldl_insert (rs : List Running) (hnd : (rs.map Running.id).Nodup)
    (all : AList (fun _ : TxnId => State)) (r : Running) (hr : r ∈ rs) :
    (rs.foldl (fun all p => all.insert p.id p.state) all).lookup r.id = some r.state := by
  have other : ∀ (rs : List Running) (all : AList (fun _ : TxnId => State)) (id : TxnId),
      id ∉ rs.map Running.id →
      (rs.foldl (fun all p => all.insert p.id p.state) all).lookup id = all.lookup id := by
    intro rs
    induction rs with
    | nil => exact fun _ _ _ => rfl
    | cons x rs ih =>
      intro all id hid
      rw [List.map_cons, List.mem_cons, not_or] at hid
      rw [List.foldl_cons, ih _ _ hid.2, AList.lookup_insert_ne hid.1]
  induction rs generalizing all with
  | nil => cases hr
  | cons x rs ih =>
    rw [List.map_cons, List.nodup_cons] at hnd
    rw [List.foldl_cons]
    rcases List.mem_cons.mp hr with rfl | hr
    · rw [other _ _ _ hnd.1, AList.lookup_insert]
    · exact ih hnd.2 _ hr

theorem find_mem {rs : List Running} {r : Running}
    (h : rs.find? (fun x => x.id = r.id) = some r) : r ∈ rs := List.mem_of_find?_eq_some h

theorem follows_load (running : List Running) (hnd : (running.map Running.id).Nodup)
    (hts : ∀ r ∈ running, r.timestamp < 2 ^ 63) : Follows running [] (loadRunning running) [] := by
  have hall : ∀ r ∈ running, (r.state == .prepared || r.state == .decided ||
      r.state == .timedout) = true → (loadRunning running).all.lookup r.id = some r.state := by
    intro r hr hst
    exact lookup_foldl_insert _ ((List.filter_sublist.map Running.id).nodup hnd) _ r
      (List.mem_filter.mpr ⟨hr, hst⟩)
  refine ⟨⟨sorted_of_cmpFn _ (fun r hr => hts r (List.mem_of_mem_filter hr)), ?_⟩,
    ⟨sorted_of_cmpFn _ (fun r hr => hts r (List.mem_of_mem_filter hr)), ?_⟩, ?_⟩
  · intro r hr hst _
    have hm := find_mem hr
    refine ⟨hst ▸ hall r hm (by simp [hst]), ?_⟩
    unfold loadRunning
    simp [hm, hst]
  · intro r hr hst _
    have hm := find_mem hr
    refine ⟨hst ▸ hall r hm (by simp [hst]), ?_⟩
    unfold loadRunning
    simp [hm, hst]
  · rintro id ⟨out, hout, _⟩
    cases hout

/-! ## One event -/

section Step

variable {t : Timeouts} {running : List Running} {pre : List DogEvent} {d : Dog}
  {outs : List (List (Resolver × Running))}

theorem step_status_all (r : Running) (id : TxnId) :
    (id ≠ r.id → (d.step t (.status r)).1.all.lookup id = d.all.lookup id) ∧
    (d.all.lookup r.id = none → (d.step t (.status r)).1.all.lookup r.id = none) ∧
    (r.id ∈ d.all → r.state = .prepared ∨ r.state = .decided →
      (d.step t (.status r)).1.all.lookup r.id = some r.state) := by
  have hmem : r.id ∈ d.all ↔ (d.all.lookup r.id).isSome = true := AList.lookup_isSome.symm
  unfold Dog.step
  dsimp only
  cases hl : d.all.lookup r.id with
  | none => simp [hmem, hl]
  | some s =>
    refine ⟨fun hne => ?_, by simp, fun _ hst => ?_⟩
    · cases r.state <;> simp [AList.lookup_insert_ne hne, AList.lookup_erase_ne hne]
    · rcases hst with hst | hst <;> simp [hst]

theorem step_status_queues (r : Running) : (d.step t (.status r)).1.prepared =
      (if r.id ∈ d.all ∧ r.state = .prepared then d.prepared ++ [r] else d.prepared) ∧
    (d.step t (.status r)).1.decided =
      (if r.id ∈ d.all ∧ r.state = .decided then d.decided ++ [r] else d.decided) ∧
    (d.step t (.status r)).2 = [] := by
  have hmem : r.id ∈ d.all ↔ (d.all.lookup r.id).isSome = true := AList.lookup_isSome.symm
  unfold Dog.step
  dsimp only
  cases hl : d.all.lookup r.id with
  | none => simp [hmem, hl]
  | some s => cases hst : r.state <;> simp [hmem, hl]

variable {all : AList (fun _ : TxnId => State)} {state : State} {queue : List Running}

theorem InQueue.status {all' : AList (fun _ : TxnId => State)}
    (h : InQueue running pre all outs state queue) (r : Running)
    (hgone : ∀ id, handedOver outs id → all.lookup id = none) (hord : r.state = state →
      (r.id ∈ all ∧ ∀ q ∈ queue, q.timestamp ≤ r.timestamp) ∨ handedOver outs r.id)
    (hother : ∀ id, id ≠ r.id → all'.lookup id = all.lookup id)
    (hown : r.id ∈ all → r.state = state → all'.lookup r.id = some r.state) :
    InQueue running (pre ++ [.status r]) all' (outs ++ [[]]) state
      (if r.id ∈ all ∧ r.state = state then queue ++ [r] else queue) := by
  have hhand : ∀ id, handedOver (outs ++ [[]]) id ↔ handedOver outs id := by
    intro id
    rw [handedOver_snoc]
    simp
  constructor
  · split
    · rename_i hc
      rcases hord hc.2 with ⟨_, hle⟩ | hh
      · rw [List.pairwise_append]
        refine ⟨h.sorted, List.pairwise_singleton _ _, ?_⟩
        intro a ha b hb
        rw [List.mem_singleton.mp hb]
        exact hle a ha
      · -- a txn that was handed over is not in `all` any more
        have hin := AList.lookup_isSome.mpr hc.1
        rw [hgone _ hh] at hin
        cases hin
    · exact h.sorted
  · intro x hx hst hn
    rw [hhand] at hn
    rw [latest_snoc] at hx
    dsimp only at hx
    by_cases hid : r.id = x.id
    · rw [if_pos hid] at hx
      cases hx
      obtain ⟨hin, _⟩ := (hord hst).resolve_right hn
      rw [if_pos ⟨hin, hst⟩]
      exact ⟨hst ▸ hown hin hst, by simp⟩
    · rw [if_neg hid] at hx
      obtain ⟨h1, h2⟩ := h.tracked x hx hst hn
      refine ⟨by rw [hother _ (Ne.symm hid)]; exact h1, ?_⟩
      split
      · exact List.mem_append.mpr (.inl h2)
      · exact h2

theorem Follows.status (h : Follows running pre d outs) (r : Running)
    (ho : (DogEvent.status r).Orderly d outs) :
    Follows running (pre ++ [.status r]) (d.step t (.status r)).1
      (outs ++ [(d.step t (.status r)).2]) := by
  obtain ⟨hq1, hq2, hout⟩ := @step_status_queues t d r
  have hall := @step_status_all t d r
  refine ⟨?_, ?_, ?_⟩
  · rw [hq1, hout]
    exact h.prepared.status r h.gone ho.1 (fun id => (hall id).1)
      (fun hin hst => (hall r.id).2.2 hin (.inl hst))
  · rw [hq2, hout]
    exact h.decided.status r h.gone ho.2 (fun id => (hall id).1)
      (fun hin hst => (hall r.id).2.2 hin (.inr hst))
  · intro id hh
    rw [handedOver_snoc, hout] at hh
    have hh' : handedOver outs id := by simpa using hh
    by_cases hid : id = r.id
    · subst hid
      exact (hall r.id).2.1 (h.gone _ hh')
    · rw [(hall id).1 hid]
      exact h.gone _ hh'

/-- A tick through the phase it checks: what is timed out is handed over, the
rest stays. -/
theorem InQueue.tick (h : InQueue running pre all outs state queue) (oldest : Nat) (k : Resolver)
    (e : DogEvent) (he : ∀ r, e ≠ .status r) :
    InQueue running (pre ++ [e]) (checkTimedout oldest state all queue).1
      (outs ++ [(checkTimedout oldest state all queue).2.2.map (Prod.mk k)]) state
      (checkTimedout oldest state all queue).2.1 := by
  have hlast : ∀ id, latest running (pre ++ [e]) id = latest running pre id := by
    intro id
    rw [latest_snoc]
    cases e with
    | status r => exact absurd rfl (he r)
    | _ => rfl
  constructor
  · exact h.sorted.sublist (checkTimedout_suffix oldest state all queue).sublist
  · intro r hr hst hn
    rw [hlast] at hr
    rw [handedOver_snoc, not_or] at hn
    obtain ⟨h1, h2⟩ := h.tracked r hr hst hn.1
    have hnot : ∀ x ∈ (checkTimedout oldest state all queue).2.2, x.id ≠ r.id := by
      intro x hx hid
      exact hn.2 ⟨(k, x), List.mem_map.mpr ⟨x, hx, rfl⟩, hid⟩
    refine ⟨by rw [checkTimedout_all oldest state all queue r.id hnot]; exact h1, ?_⟩
    refine checkTimedout_keeps oldest state all queue r h2 ?_
    by_contra hle
    obtain ⟨x, hx, hid⟩ := checkTimedout_hands oldest state all queue h.sorted r h2
      (not_lt.mp hle) h1
    exact hnot x hx hid

theorem InQueue.other {all' : AList (fun _ : TxnId => State)}
    (h : InQueue running pre all outs state queue) (e : DogEvent) (he : ∀ r, e ≠ .status r)
    (out : List (Resolver × Running))
    (hall : ∀ id, (∀ x ∈ out, x.2.id ≠ id) → all'.lookup id = all.lookup id) :
    InQueue running (pre ++ [e]) all' (outs ++ [out]) state queue := by
  refine ⟨h.sorted, ?_⟩
  intro r hr hst hn
  rw [handedOver_snoc, not_or] at hn
  rw [latest_snoc] at hr
  have hr' : latest running pre r.id = some r := by
    cases e with
    | status r => exact absurd rfl (he r)
    | _ => exact hr
  obtain ⟨h1, h2⟩ := h.tracked r hr' hst hn.1
  refine ⟨?_, h2⟩
  rw [hall r.id (fun x hx hid => hn.2 ⟨x, hx, hid⟩)]
  exact h1

theorem gone_tick (hgone : ∀ id, handedOver outs id → d.all.lookup id = none) (oldest : Nat)
    (state : State) (queue : List Running) (k : Resolver) (id : TxnId) (hh : handedOver
      (outs ++ [(checkTimedout oldest state d.all queue).2.2.map (Prod.mk k)]) id) :
    (checkTimedout oldest state d.all queue).1.lookup id = none := by
  rw [handedOver_snoc] at hh
  rcases hh with hh | ⟨x, hx, hid⟩
  · exact checkTimedout_none oldest state d.all queue id (hgone id hh)
  · obtain ⟨r, hr, rfl⟩ := List.mem_map.mp hx
    exact hid ▸ checkTimedout_gone oldest state d.all queue r hr

/-- **Step.** -/
theorem Follows.step (h : Follows running pre d outs) (e : DogEvent) (ho : e.Orderly d outs) :
    Follows running (pre ++ [e]) (d.step t e).1 (outs ++ [(d.step t e).2]) := by
  have hrest : ∀ oldest state queue (k : Resolver) (id : TxnId),
      (∀ x ∈ (checkTimedout oldest state d.all queue).2.2.map (Prod.mk k), x.2.id ≠ id) →
      (checkTimedout oldest state d.all queue).1.lookup id = d.all.lookup id := by
    intro oldest state queue k id hne
    refine checkTimedout_all oldest state d.all queue id ?_
    intro r hr
    exact hne (k, r) (List.mem_map.mpr ⟨r, hr, rfl⟩)
  cases e with
  | status r => exact h.status r ho
  | tickerPhase1 now =>
    exact ⟨h.prepared.tick _ .abort _ (fun _ he => by cases he),
      h.decided.other _ (fun _ he => by cases he) _ (hrest _ _ _ .abort),
      gone_tick h.gone _ _ _ .abort⟩
  | tickerPhase2 now =>
    exact ⟨h.prepared.other _ (fun _ he => by cases he) _ (hrest _ _ _ .commit),
      h.decided.tick _ .commit _ (fun _ he => by cases he),
      gone_tick h.gone _ _ _ .commit⟩

end Step

/-- **The watchdog tracks every txn** of a run in which no loaded txn is timed
out and every event is orderly. -/
theorem watchdog_tracks (t : Timeouts) (running : List Running) (es : List DogEvent)
    (hnd : (running.map Running.id).Nodup) (hts : ∀ r ∈ running, r.timestamp < 2 ^ 63)
    (hto : ∀ r ∈ running, r.state ≠ .timedout) (ho : OrderlyRun t running es) :
    Tracked t running es := by
  intro pre e post hsplit
  have hf : Follows running pre (Dog.run t (loadRunning running) pre).1
      (Dog.run t (loadRunning running) pre).2 := by
    refine loop_history (Dog.step t) (fun p d outs => Follows running p d outs ∧
      (d, outs) = Dog.run t (loadRunning running) p) pre (loadRunning running)
      ⟨follows_load running hnd hts, rfl⟩ ?_ |>.1
    rintro p x q d outs hp ⟨h, hrun⟩
    have hx := ho p x (q ++ e :: post) (by rw [hsplit, hp]; simp)
    rw [← hrun] at hx
    refine ⟨h.step x hx, ?_⟩
    rw [Dog.run] at hrun ⊢
    rw [loop_snoc, ← hrun]
  refine ⟨?_, ?_, ?_⟩
  · rintro now rfl r hr hst htime hn
    obtain ⟨h1, h2⟩ := hf.prepared.tracked r hr hst hn
    obtain ⟨x, hx, hid⟩ := checkTimedout_hands _ .prepared _ _ hf.prepared.sorted r h2 htime h1
    exact ⟨(.abort, x), List.mem_map.mpr ⟨x, hx, rfl⟩, rfl, hid⟩
  · rintro now rfl r hr hst htime hn
    obtain ⟨h1, h2⟩ := hf.decided.tracked r hr hst hn
    obtain ⟨x, hx, hid⟩ := checkTimedout_hands _ .decided _ _ hf.decided.sorted r h2 htime h1
    exact ⟨(.commit, x), List.mem_map.mpr ⟨x, hx, rfl⟩, rfl, hid⟩
  · intro _ _ _ r hr hst
    exact absurd hst (hto r hr)

/-! ## A txn prepared after the watchdog started -/

def lateTxn : Running := { id := ⟨1, 1, 1⟩, timestamp := 1, state := .prepared }

/-- The main loop drops the status of a txn that was not there when it was
loaded, so that the tick finds nothing. -/
theorem watchdog_loses_txn : ¬ ∀ (t : Timeouts) (running : List Running) (es : List DogEvent),
      (running.map Running.id).Nodup → (∀ r ∈ running, r.timestamp < 2 ^ 63) →
      Tracked t running es := by
  intro h
  have htick := (h ⟨5, 5⟩ [] [.status lateTxn, .tickerPhase1 10] List.nodup_nil
    (fun r hr => by cases hr) [.status lateTxn] (.tickerPhase1 10) [] rfl).1 10 rfl lateTxn
    (by decide) rfl (by decide)
    (by rintro ⟨out, hout, x, hx, _⟩; simp_all [Dog.run, loop, loadRunning, Dog.step])
  obtain ⟨x, hx, _⟩ := htick
  cases hx

/-- The same txn, loaded and then decided, is tracked. -/
def decidedEvents : List DogEvent :=
  [.status { lateTxn with timestamp := 3, state := .decided }, .tickerPhase1 10, .tickerPhase2 10]

theorem decidedEvents_orderly : OrderlyRun ⟨5, 5⟩ [lateTxn] decidedEvents := by
  intro pre e post hsplit
  cases pre with
  | nil =>
    obtain ⟨rfl, _⟩ := List.cons.inj hsplit
    refine ⟨fun h => ?_, fun _ => .inl ⟨by decide, fun q hq => ?_⟩⟩
    · cases h
    · cases hq
  | cons x pre =>
    have he : e ∈ [DogEvent.tickerPhase1 10, .tickerPhase2 10] := by
      rw [(List.cons.inj hsplit).2]
      simp
    rcases List.mem_cons.mp he with rfl | he
    · trivial
    · rw [List.mem_singleton.mp he]
      trivial

theorem watchdog_tracks_decidedEvents :
    (([lateTxn].map Running.id).Nodup ∧ (∀ r ∈ [lateTxn], r.timestamp < 2 ^ 63) ∧
      (∀ r ∈ [lateTxn], r.state ≠ .timedout) ∧ OrderlyRun ⟨5, 5⟩ [lateTxn] decidedEvents) ∧
    Tracked ⟨5, 5⟩ [lateTxn] decidedEvents := by
  have h1 : ([lateTxn].map Running.id).Nodup := by decide
  have h2 : ∀ r ∈ [lateTxn], r.timestamp < 2 ^ 63 := by decide
  have h3 : ∀ r ∈ [lateTxn], r.state ≠ .timedout := by decide
  exact ⟨⟨h1, h2, h3, decidedEvents_orderly⟩,
    watchdog_tracks _ _ _ h1 h2 h3 decidedEvents_orderly⟩

end Scout.Txn
