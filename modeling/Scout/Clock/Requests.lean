import Scout.Clock.Hlc

/-!
The clock between processes (`internal/rpc/interceptors/hlc.go`). A client call takes
a timestamp and sends it along as text; a server moves its clock past it before the
handler runs, except for admin methods. Answers carry no timestamp. Requests may be
lost, overtake each other and be received again.
-/

namespace Scout.Interceptors

open Clock Lib

/-- `strconv.FormatUint(t, 10)`. -/
def formatUint (t : UInt64) : String := toString t.toNat

/-- `strconv.ParseUint(s, 10, 64)`: nothing but digits, of a number with 64 bits. -/
def parseUint (s : String) : Option UInt64 :=
  let n := Nat.ofDigitChars 10 s.toList 0
  if s ≠ "" ∧ s.toList.all Char.isDigit ∧ n < 2 ^ 64 then some (.ofNat n) else none

inductive RequestError where
  | validationError (message : String)
  | hlc (error : Data.Err)

def isAdmin (fullMethod : String) : Bool := fullMethod = "/control.Service/GetClusterInfo"

/-- `value` is the first value of `scout-hlc` in the metadata. -/
def updateHlc (wall : Nat → UInt64) (p : Process) (fullMethod : String) (value : Option String) :
    Except String (Process × Option RequestError) :=
  if isAdmin fullMethod then .ok (p, none)
  else match value.map parseUint with
  | none => .ok (p, some (.validationError "missing hlc timestamp"))
  | some none => .ok (p, some (.validationError "invalid hlc timestamp"))
  | some (some timestamp) => (update wall p timestamp).map fun (p, err) => (p, err.map .hlc)

/-- The text that `appendHlc` adds to a request, and the timestamps that its sender knew of. -/
structure Request where
  value : String
  past : List UInt64

/-- The processes, the timestamps that each of them knows of (its own, and those that the
senders of its accepted requests knew of), and all requests. A process that the clock has
shut down is gone; one that starts anew is another process. -/
structure Cluster where
  procs : Nat → Option Process
  past : Nat → List UInt64
  sent : List Request

inductive Event where
  /-- A timestamp is taken, in the client interceptor or elsewhere. -/
  | now (i : Nat) (client : Bool)
  | receive (i k : Nat) (fullMethod : String)
  /-- A request from elsewhere, with any metadata or none. -/
  | stray (i : Nat) (fullMethod : String) (value : Option String)

def Cluster.set (s : Cluster) (i : Nat) (p : Option Process) (past : List UInt64) : Cluster :=
  { s with procs := Function.update s.procs i p, past := Function.update s.past i past }

section

variable (walls : Nat → Nat → UInt64)

def Cluster.new (offsets : Nat → UInt64) : Cluster :=
  ⟨fun i => some (Clock.new (walls i) (offsets i)), fun _ => [], []⟩

/-- The server interceptor; `seen` is what an accepted request makes known. -/
def Cluster.serve (s : Cluster) (i : Nat) (p : Process) (fullMethod : String)
    (value : Option String) (seen : List UInt64) : Cluster :=
  match updateHlc (walls i) p fullMethod value with
  | .error _ => s.set i none (s.past i)
  | .ok (p, some _) => s.set i (some p) (s.past i)
  | .ok (p, none) => s.set i (some p) (if isAdmin fullMethod then s.past i else seen ++ s.past i)

def step (s : Cluster) : Event → Option Cluster
  | .now i client => do
    let p ← s.procs i
    match now (walls i) p with
    | .error _ => some (s.set i none (s.past i))
    | .ok (p, t) =>
      let past := t :: s.past i
      let sent := if client then s.sent ++ [⟨formatUint t, past⟩] else s.sent
      some { s.set i (some p) past with sent }
  | .receive i k fullMethod => do
    let p ← s.procs i
    let r ← s.sent[k]?
    some (s.serve walls i p fullMethod (some r.value) r.past)
  | .stray i fullMethod value => do
    let p ← s.procs i
    some (s.serve walls i p fullMethod value [])

end

theorem parseUint_formatUint (t : UInt64) : parseUint (formatUint t) = some t := by
  have hl : (formatUint t).toList = Nat.toDigits 10 t.toNat := Nat.toList_repr
  have hn : Nat.ofDigitChars 10 (formatUint t).toList 0 = t.toNat := by
    rw [hl, Nat.ofDigitChars_toDigits (by decide) (by decide)]
  have hd : (formatUint t).toList.all Char.isDigit = true := by
    rw [hl, List.all_eq_true]
    exact fun c hc => Nat.isDigit_of_mem_toDigits (by decide) (by decide) hc
  rw [parseUint, hn, if_pos ⟨Nat.repr_ne_empty, hd, t.toNat_lt⟩, UInt64.ofNat_toNat]

/-! ## Causality -/

/-- The clock has reached all timestamps that the process knows of. -/
structure Reaches (p : Process) (past : List UInt64) : Prop where
  packed : p.hlc.Packed
  le : ∀ t ∈ past, t.toNat ≤ p.hlc.last

structure Causal (s : Cluster) : Prop where
  procs : ∀ i p, s.procs i = some p → Reaches p (s.past i)
  sent : ∀ r ∈ s.sent, ∃ t, r.value = formatUint t ∧ ∀ u ∈ r.past, u.toNat ≤ t.toNat

variable {wall : Nat → UInt64} {walls : Nat → Nat → UInt64} {s s' : Cluster} {p p' : Process}
  {past : List UInt64} {i : Nat} {t : UInt64}

theorem Reaches.moves {h' : Hlc} {n : Nat} {a : Answer} (h : Reaches p past)
    (hm : Moves p.hlc h' a) : Reaches ⟨h', n⟩ past :=
  ⟨hm.packed, fun u hu => (h.le u hu).trans hm.le⟩

theorem Reaches.now (h : Reaches p past) (hn : now wall p = .ok (p', t)) :
    Reaches p' (t :: past) ∧ ∀ u ∈ past, u < t := by
  obtain ⟨hp, ht, hlt⟩ := nowLoop_spec h.packed hn
  refine ⟨⟨hp, ?_⟩, fun u hu => ?_⟩
  · simp only [List.mem_cons, forall_eq_or_imp]
    exact ⟨le_of_eq ht, fun u hu => (h.le u hu).trans hlt.le⟩
  · have := h.le u hu
    rw [UInt64.lt_iff_toNat_lt]
    omega

theorem Reaches.updateHlc {m : String} {v : Option String} {e : Option RequestError}
    (h : Reaches p past) (hu : updateHlc wall p m v = .ok (p', e)) : Reaches p' past ∧
      ∀ t, v = some (formatUint t) → isAdmin m = false → e = none → t.toNat ≤ p'.hlc.last := by
  unfold Interceptors.updateHlc at hu
  split at hu
  · next hm =>
    cases hu
    exact ⟨h, by simp [hm]⟩
  split at hu
  · cases hu
    exact ⟨h, by simp⟩
  · cases hu
    exact ⟨h, by simp⟩
  · next t ht =>
    cases hq : update wall p t with
    | error e =>
      rw [hq] at hu
      cases hu
    | ok x =>
      obtain ⟨q, e⟩ := x
      rw [hq] at hu
      cases hu
      cases e with
      | some e =>
        exact ⟨h.moves (call_moves (c := .update t) (a := .failed e) h.packed
          (by rw [call, hq]; rfl)), by simp⟩
      | none =>
        have hm := call_moves (c := .update t) (a := .accepted t) h.packed (by rw [call, hq]; rfl)
        refine ⟨h.moves hm, fun u hu _ _ => ?_⟩
        rw [hu, Option.map_some, parseUint_formatUint] at ht
        cases ht
        exact (le_max_right _ _).trans (hm.accepted _ rfl).le

theorem Causal.set (h : Causal s) {o : Option Process} (ho : ∀ p, o = some p → Reaches p past) :
    Causal (s.set i o past) := by
  refine ⟨fun j q hq => ?_, h.sent⟩
  by_cases hj : j = i
  · subst hj
    simp only [Cluster.set, Function.update_self] at hq ⊢
    exact ho q hq
  · simp only [Cluster.set, Function.update_of_ne hj] at hq ⊢
    exact h.procs j q hq

theorem Causal.serve {m : String} {v : Option String} {seen : List UInt64} (h : Causal s)
    (hp : s.procs i = some p)
    (hseen : ∀ u ∈ seen, ∃ t, v = some (formatUint t) ∧ u.toNat ≤ t.toNat) :
    Causal (s.serve walls i p m v seen) := by
  unfold Cluster.serve
  split
  · exact h.set (by simp)
  · next q e hu =>
    refine h.set fun _ he => ?_
    cases he
    exact ((h.procs i p hp).updateHlc hu).1
  · next q hu =>
    obtain ⟨hr, hle⟩ := (h.procs i p hp).updateHlc hu
    refine h.set fun _ he => ?_
    cases he
    cases hm : isAdmin m with
    | true => exact hr
    | false =>
      refine ⟨hr.packed, fun u hu => ?_⟩
      rcases List.mem_append.mp hu with hu | hu
      · obtain ⟨t, hv, hut⟩ := hseen u hu
        exact hut.trans (hle t hv hm rfl)
      · exact hr.le u hu

theorem Causal.step {e : Event} (h : Causal s) (hs : step walls s e = some s') : Causal s' := by
  cases e with
  | now i client =>
    obtain ⟨p, hp, hs⟩ := Option.bind_eq_some_iff.mp hs
    cases hn : Clock.now (walls i) p with
    | error e =>
      rw [hn] at hs
      cases hs
      exact h.set (by simp)
    | ok x =>
      obtain ⟨q, t⟩ := x
      rw [hn] at hs
      cases hs
      obtain ⟨hq, hlt⟩ := (h.procs i p hp).now hn
      refine ⟨(h.set fun _ he => Option.some.inj he ▸ hq).procs, fun r hr => ?_⟩
      cases client with
      | false => exact h.sent r hr
      | true =>
        rcases List.mem_append.mp hr with hr | hr
        · exact h.sent r hr
        rw [List.mem_singleton.mp hr]
        refine ⟨t, rfl, ?_⟩
        simp only [List.mem_cons, forall_eq_or_imp]
        exact ⟨le_rfl, fun u hu => (UInt64.lt_iff_toNat_lt.mp (hlt u hu)).le⟩
  | receive i k m =>
    obtain ⟨p, hp, hs⟩ := Option.bind_eq_some_iff.mp hs
    obtain ⟨r, hr, hs⟩ := Option.bind_eq_some_iff.mp hs
    cases hs
    obtain ⟨t, ht, hle⟩ := h.sent r (List.mem_of_getElem? hr)
    exact h.serve hp fun u hu => ⟨t, by rw [ht], hle u hu⟩
  | stray i m v =>
    obtain ⟨p, hp, hs⟩ := Option.bind_eq_some_iff.mp hs
    cases hs
    exact h.serve hp (by simp)

/-- **Timestamps respect causality.** Over any exchange of requests and whatever the wall
clocks do, the next timestamp of a process is above its own earlier ones and above all that
the senders of the requests it has accepted knew of, directly or through others. -/
theorem now_above_causal_past (walls : Nat → Nat → UInt64) (offsets : Nat → UInt64)
    (events : List Event) (hrun : runSteps (step walls) (.new walls offsets) events = some s)
    (hp : s.procs i = some p) (hn : now (walls i) p = .ok (p', t)) : ∀ u ∈ s.past i, u < t := by
  have h₀ : Causal (.new walls offsets) := by
    refine ⟨fun i p hp => ?_, by simp [Cluster.new]⟩
    cases hp
    exact ⟨new_packed _ _, by simp [Cluster.new]⟩
  have h := runSteps_preserves _ Causal (fun _ _ _ h hs => h.step hs) h₀ hrun
  exact ((h.procs i p hp).now hn).2

/-- The second process is behind the first one until it has read its wall clock three times. -/
def twoWalls (i n : Nat) : UInt64 := if i = 1 ∧ n < 3 then 65536 else 131072

theorem now_above_causal_past_behind : ∃ s, runSteps (step twoWalls) (.new twoWalls fun _ => 65536)
      [.now 0 true, .receive 1 0 "/data.Service/Prepare"] = some s ∧ s.past 1 = [131073] ∧
    s.procs 1 = some ⟨⟨65536, 131072, 2⟩, 3⟩ ∧ ∀ u ∈ s.past 1, u < 131075 := by
  refine ⟨_, rfl, rfl, rfl, ?_⟩
  exact now_above_causal_past twoWalls (fun _ => 65536)
    [.now 0 true, .receive 1 0 "/data.Service/Prepare"] rfl
    (show _ = some ⟨⟨65536, 131072, 2⟩, 3⟩ from rfl)
    (show now (twoWalls 1) _ = .ok (⟨⟨65536, 131072, 3⟩, 4⟩, 131075) by decide)

end Scout.Interceptors
