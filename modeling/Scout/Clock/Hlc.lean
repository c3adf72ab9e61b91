import Scout.Lib.Runs
import Scout.Txn.Writer
import Mathlib.Data.UInt

/-!
The hybrid logical clock (`internal/hlc`). A timestamp is one 64-bit word: the
wall clock with its low 16 bits cleared, and a counter in those bits. `Now` and
`Update` read the wall clock, which may stand still or jump either way, and
retry a few times before they give up on the process.

* `now_strictly_increasing`: what `Now` returns is above everything that `Now`
  returned and `Update` accepted before, and the counter stays in its bits.
* `clock_of_run`: the transaction writer's `Clock` is an abstraction of this one.

The counters of `Stats` are only published as metrics and left out.
-/

namespace Scout.Clock

open Data Lib

/-- `uint64(1<<16) - 1`. -/
def logicalMask : UInt64 := 0x10000 - 1
def logicalMax : UInt64 := logicalMask
/-- `math.MaxUint - logicalMax`. -/
def physicalMask : UInt64 := 0xFFFFFFFFFFFFFFFF - logicalMax
def maxRetries : Nat := 3

structure Hlc where
  maxOffset : UInt64
  physical : UInt64
  logical : UInt64
  deriving DecidableEq, Repr

def physical (timestamp : UInt64) : UInt64 := timestamp &&& physicalMask

def split (timestamp : UInt64) : UInt64 × UInt64 :=
  (timestamp &&& physicalMask, timestamp &&& logicalMask)

/-- The clock and how often the process has read the wall clock. -/
structure Process where
  hlc : Hlc
  reads : Nat
  deriving DecidableEq, Repr

inductive Call where
  | now
  | update (incoming : UInt64)
  deriving DecidableEq, Repr

/-- What a call told its caller. -/
inductive Answer where
  | time (timestamp : UInt64)
  | accepted (incoming : UInt64)
  | failed (error : Err)
  deriving DecidableEq, Repr

section

-- what `time.Now().UnixNano()` returns, read after read
variable (wall : Nat → UInt64)

def physicalNow (read : Nat) : UInt64 := physical (wall read)

/-- `New`. -/
def new (maxOffset : UInt64) : Process :=
  ⟨{ maxOffset := physical maxOffset, physical := physicalNow wall 0, logical := 0 }, 1⟩

/-- The loop of `Now`; an error is the message that the process shuts down with. -/
def nowLoop : Nat → Process → Except String (Process × UInt64)
  | 0, _ => .error "HLC.Now failed too many times"
  | retries + 1, ⟨h, n⟩ =>
    let now := physicalNow wall n
    if now > h.physical then
      .ok (⟨{ h with physical := now, logical := 0 }, n + 1⟩, now)
    else if now < h.physical then
      if h.physical - now > h.maxOffset then
        .error "Wall clock jumped backward more than allowed."
      else nowLoop retries ⟨h, n + 1⟩
    else if h.logical = logicalMax then nowLoop retries ⟨h, n + 1⟩
    else .ok (⟨{ h with logical := h.logical + 1 }, n + 1⟩, h.physical ||| (h.logical + 1))

/-- `Hlc.Now`. -/
def now (p : Process) : Except String (Process × UInt64) := nowLoop wall maxRetries p

def checkUpdateTimeOffset (h : Hlc) (read : Nat) (inPhysical : UInt64) : Option Err :=
  let now := physicalNow wall read
  if inPhysical ≤ now then none
  else if inPhysical - now > h.maxOffset then some .timeOutOfRange
  else none

/-- The logical part that `Update` would move to. -/
def nextLogical (h : Hlc) (inPhysical inLogical nextPhysical : UInt64) : UInt64 :=
  if nextPhysical = h.physical ∧ nextPhysical = inPhysical then max h.logical inLogical + 1
  else if nextPhysical = h.physical then h.logical + 1
  else if nextPhysical = inPhysical then inLogical + 1
  else 0

def updateLoop (inPhysical inLogical : UInt64) : Nat → Process → Except String Process
  | 0, _ => .error "HLC.Update failed too many times"
  | retries + 1, ⟨h, n⟩ =>
    let nextPhysical := max (max h.physical inPhysical) (physicalNow wall n)
    let nextLogical := nextLogical h inPhysical inLogical nextPhysical
    if nextLogical > logicalMax then updateLoop inPhysical inLogical retries ⟨h, n + 1⟩
    else .ok ⟨{ h with physical := nextPhysical, logical := nextLogical }, n + 1⟩

/-- `Hlc.Update`. -/
def update (p : Process) (incoming : UInt64) : Except String (Process × Option Err) :=
  let (inPhysical, inLogical) := split incoming
  match checkUpdateTimeOffset wall p.hlc p.reads inPhysical with
  | some e => .ok (⟨p.hlc, p.reads + 1⟩, some e)
  | none => do
    let p ← updateLoop wall inPhysical inLogical maxRetries ⟨p.hlc, p.reads + 1⟩
    .ok (p, none)

def call (p : Process) : Call → Except String (Process × Answer)
  | .now => do
    let (p, t) ← now wall p
    .ok (p, .time t)
  | .update incoming => do
    let (p, err) ← update wall p incoming
    match err with
    | none => .ok (p, .accepted incoming)
    | some e => .ok (p, .failed e)

/-- One call of a process; `none` when it shuts the process down. -/
def step (p : Process) (c : Call) : Option Process := (call wall p c).toOption.map Prod.fst

def answers (p : Process) (c : Call) : List Answer := ((call wall p c).toOption.map Prod.snd).toList

end

/-! ## Words -/

theorem logicalMask_toNat : logicalMask.toNat = 2 ^ 16 - 1 := rfl

theorem physicalMask_toNat : physicalMask.toNat = 2 ^ 16 * (2 ^ 48 - 1) := rfl

/-- Masking with the upper 48 bits clears the lower 16. -/
theorem and_upper (x : Nat) (hx : x < 2 ^ 64) :
    x &&& (2 ^ 16 * (2 ^ 48 - 1)) = 2 ^ 16 * (x / 2 ^ 16) := by
  refine Nat.eq_of_testBit_eq fun i => ?_
  rw [Nat.testBit_and, Nat.testBit_two_pow_mul, Nat.testBit_two_pow_mul, Nat.testBit_div_two_pow,
    Nat.testBit_two_pow_sub_one]
  by_cases hi : 16 ≤ i
  · by_cases h64 : i < 64
    · simp [hi, show i - 16 < 48 by omega]
    · have : x.testBit i = false :=
        Nat.testBit_lt_two_pow (hx.trans_le (Nat.pow_le_pow_right (by decide) (by omega)))
      simp [hi, this]
  · simp [hi]

theorem physical_toNat (t : UInt64) : (physical t).toNat = 2 ^ 16 * (t.toNat / 2 ^ 16) := by
  rw [physical, UInt64.toNat_and, physicalMask_toNat, and_upper _ t.toNat_lt]

theorem split_toNat (t : UInt64) : (split t).1.toNat = 2 ^ 16 * (t.toNat / 2 ^ 16) ∧
    (split t).2.toNat = t.toNat % 2 ^ 16 := by
  refine ⟨physical_toNat t, ?_⟩
  rw [split, UInt64.toNat_and, logicalMask_toNat, Nat.and_two_pow_sub_one_eq_mod]

theorem or_toNat {p l : UInt64} (hp : p.toNat % 2 ^ 16 = 0) (hl : l.toNat < 2 ^ 16) :
    (p ||| l).toNat = p.toNat + l.toNat := by
  have h := Nat.two_pow_add_eq_or_of_lt hl (p.toNat / 2 ^ 16)
  rw [Nat.mul_div_cancel' (Nat.dvd_of_mod_eq_zero hp)] at h
  rw [UInt64.toNat_or, h]

/-! ## One call -/

/-- The two parts do not overlap. -/
structure Hlc.Packed (h : Hlc) : Prop where
  physical : h.physical.toNat % 2 ^ 16 = 0
  logical : h.logical.toNat < 2 ^ 16

/-- The last timestamp of the clock. -/
def Hlc.last (h : Hlc) : Nat := h.physical.toNat + h.logical.toNat

variable {h : Hlc}

theorem Hlc.Packed.or (hp : h.Packed) :
    (h.physical ||| h.logical).toNat = h.last := or_toNat hp.physical hp.logical

theorem physicalNow_mod (wall : Nat → UInt64) (n : Nat) :
    (physicalNow wall n).toNat % 2 ^ 16 = 0 := by
  rw [physicalNow, physical_toNat, Nat.mul_mod_right]

/-- The counter is not at its maximum: adding one stays in its bits. -/
theorem succ_toNat {l : UInt64} (h : l.toNat < 2 ^ 16) : (l + 1).toNat = l.toNat + 1 := by
  rw [UInt64.toNat_add]
  change (l.toNat + 1) % 2 ^ 64 = _
  omega

variable {wall : Nat → UInt64} {p p' : Process}

/-- **`Now`** returns a later timestamp, which it remembers. -/
theorem nowLoop_spec {k : Nat} {t : UInt64} (hp : p.hlc.Packed)
    (h : nowLoop wall k p = .ok (p', t)) :
    p'.hlc.Packed ∧ t.toNat = p'.hlc.last ∧ p.hlc.last < p'.hlc.last := by
  induction k generalizing p with
  | zero => cases h
  | succ k ih =>
    obtain ⟨c, n⟩ := p
    rw [nowLoop] at h
    dsimp only at h hp
    have hnow := physicalNow_mod wall n
    split at h
    · -- the wall clock moved on
      rename_i hlt
      cases h
      rw [gt_iff_lt, UInt64.lt_iff_toNat_lt] at hlt
      have hl := hp.logical
      have hc := hp.physical
      refine ⟨⟨hnow, Nat.two_pow_pos 16⟩, (Nat.add_zero _).symm, ?_⟩
      simp only [Hlc.last, UInt64.toNat_zero]
      omega
    · split at h
      · -- it jumped back
        split at h
        · cases h
        · exact ih (p := ⟨c, n + 1⟩) hp h
      · split at h
        · exact ih (p := ⟨c, n + 1⟩) hp h
        -- it stands still
        rename_i hne
        cases h
        have hl : c.logical.toNat + 1 < 2 ^ 16 := by
          have hm : c.logical.toNat ≠ logicalMax.toNat := fun e => hne (UInt64.toNat_inj.mp e)
          have hlm : logicalMax.toNat = 2 ^ 16 - 1 := logicalMask_toNat
          have := hp.logical
          omega
        have hs := succ_toNat hp.logical
        have hpk : Hlc.Packed { c with logical := c.logical + 1 } :=
          ⟨hp.physical, by show (c.logical + 1).toNat < _; omega⟩
        refine ⟨hpk, hpk.or, ?_⟩
        simp only [Hlc.last]
        omega

theorem nextLogical_toNat {inLogical : UInt64} (hp : h.Packed) (hin : inLogical.toNat < 2 ^ 16)
    (inPhysical next : UInt64) : (nextLogical h inPhysical inLogical next).toNat =
      if next = h.physical ∧ next = inPhysical then max h.logical.toNat inLogical.toNat + 1
      else if next = h.physical then h.logical.toNat + 1
      else if next = inPhysical then inLogical.toNat + 1 else 0 := by
  have hmax : (max h.logical inLogical).toNat < 2 ^ 16 := by
    rw [UInt64.toNat_max]
    exact max_lt hp.logical hin
  unfold nextLogical
  split
  · rw [succ_toNat hmax, UInt64.toNat_max]
  split
  · exact succ_toNat hp.logical
  · split
    · exact succ_toNat hin
    · rfl

/-- **`Update`** moves the clock past its own and the incoming timestamp. -/
theorem updateLoop_spec {k : Nat} {i l : UInt64} (hp : p.hlc.Packed) (hi : i.toNat % 2 ^ 16 = 0)
    (hl : l.toNat < 2 ^ 16) (h : updateLoop wall i l k p = .ok p') :
    p'.hlc.Packed ∧ p.hlc.last < p'.hlc.last ∧ i.toNat + l.toNat < p'.hlc.last := by
  induction k generalizing p with
  | zero => cases h
  | succ k ih =>
    obtain ⟨c, n⟩ := p
    rw [updateLoop] at h
    dsimp only at h hp
    set next := max (max c.physical i) (physicalNow wall n) with hnext
    split at h
    · exact ih (p := ⟨c, n + 1⟩) hp h
    rename_i hle
    cases h
    have hnx : next.toNat = max (max c.physical.toNat i.toNat) (physicalNow wall n).toNat := by
      rw [hnext, UInt64.toNat_max, UInt64.toNat_max]
    have hlt : (nextLogical c i l next).toNat < 2 ^ 16 := by
      rw [gt_iff_lt, UInt64.lt_iff_toNat_lt] at hle
      have hlm : logicalMax.toNat = 2 ^ 16 - 1 := logicalMask_toNat
      omega
    have hnl := nextLogical_toNat hp hl i next
    have hc := hp.physical
    have hcl := hp.logical
    have hnow := physicalNow_mod wall n
    have hmod : next.toNat % 2 ^ 16 = 0 := by omega
    simp only [← UInt64.toNat_inj] at hnl
    refine ⟨⟨hmod, hlt⟩, ?_, ?_⟩
    · simp only [Hlc.last]
      rw [hnl]
      split_ifs <;> omega
    · simp only [Hlc.last]
      rw [hnl]
      split_ifs <;> omega

structure Moves (h h' : Hlc) (a : Answer) : Prop where
  packed : h'.Packed
  le : h.last ≤ h'.last
  time : ∀ t, a = .time t → h.last < t.toNat ∧ t.toNat = h'.last
  accepted : ∀ t, a = .accepted t → max h.last t.toNat < h'.last

theorem call_moves {c : Call} {a : Answer} (hp : p.hlc.Packed) (h : call wall p c = .ok (p', a)) :
    Moves p.hlc p'.hlc a := by
  cases c with
  | now =>
    cases hn : now wall p with
    | error e => rw [call, hn] at h; cases h
    | ok x =>
      obtain ⟨q, t⟩ := x
      rw [call, hn] at h
      cases h
      obtain ⟨h1, h2, h3⟩ := nowLoop_spec hp hn
      refine ⟨h1, le_of_lt h3, ?_, nofun⟩
      rintro _ ⟨⟩
      exact ⟨h2 ▸ h3, h2⟩
  | update incoming =>
    rw [call, update] at h
    dsimp only at h
    cases hc : checkUpdateTimeOffset wall p.hlc p.reads (split incoming).1 with
    | some e =>
      rw [hc] at h
      cases h
      exact ⟨hp, le_rfl, nofun, nofun⟩
    | none =>
      rw [hc] at h
      obtain ⟨hs1, hs2⟩ := split_toNat incoming
      cases hu : updateLoop wall (split incoming).1 (split incoming).2 maxRetries
          ⟨p.hlc, p.reads + 1⟩ with
      | error e => rw [hu] at h; cases h
      | ok q =>
        rw [hu] at h
        cases h
        obtain ⟨h1, h2, h3⟩ := updateLoop_spec (p := ⟨p.hlc, p.reads + 1⟩) hp
          (by rw [hs1, Nat.mul_mod_right]) (by rw [hs2]; exact Nat.mod_lt _ (by decide)) hu
        refine ⟨h1, le_of_lt h2, nofun, ?_⟩
        rintro _ ⟨⟩
        rw [hs1, hs2, Nat.div_add_mod] at h3
        exact max_lt h2 h3

/-! ## Runs -/

def Answer.known : Answer → Option UInt64
  | .time t => some t
  | .accepted t => some t
  | .failed _ => none

/-- `b` may follow `a`: a returned time is above what was known before. -/
def Follows (a b : Answer) : Prop := ∀ u t, a.known = some u → b = .time t → u < t

structure Inv (p : Process) (given : List Answer) : Prop where
  packed : p.hlc.Packed
  bounded : ∀ a ∈ given, ∀ t, a.known = some t → t.toNat ≤ p.hlc.last
  increasing : given.Pairwise Follows

theorem new_packed (wall : Nat → UInt64) (maxOffset : UInt64) : (new wall maxOffset).hlc.Packed :=
  ⟨physicalNow_mod wall 0, Nat.two_pow_pos 16⟩

theorem step_answer {c : Call} (h : step wall p c = some p') :
    ∃ a, call wall p c = .ok (p', a) ∧ answers wall p c = [a] := by
  unfold step at h
  cases hc : call wall p c with
  | error e => rw [hc] at h; cases h
  | ok x =>
    rw [hc] at h
    cases h
    exact ⟨x.2, rfl, by rw [answers, hc]; rfl⟩

theorem Moves.bounded {h' : Hlc} {a : Answer} (hm : Moves h h' a) {t : UInt64}
    (ht : a.known = some t) : t.toNat ≤ h'.last := by
  cases a with
  | time u =>
    cases ht
    exact le_of_eq (hm.time _ rfl).2
  | accepted u =>
    cases ht
    exact (le_max_right _ _).trans (hm.accepted _ rfl).le
  | failed e => cases ht

theorem Inv.step {c : Call} {given : List Answer} (h : Inv p given) (hs : step wall p c = some p') :
    Inv p' (given ++ answers wall p c) := by
  obtain ⟨a, hc, ha⟩ := step_answer hs
  have hm := call_moves h.packed hc
  rw [ha]
  refine ⟨hm.packed, ?_, ?_⟩
  · intro b hb t ht
    rcases List.mem_append.mp hb with hb | hb
    · exact (h.bounded b hb t ht).trans hm.le
    · rw [List.mem_singleton.mp hb] at ht
      exact hm.bounded ht
  · rw [List.pairwise_append]
    refine ⟨h.increasing, List.pairwise_singleton _ _, ?_⟩
    intro b hb _ ha' u t hu ht
    rw [List.mem_singleton.mp ha'] at ht
    have hle := h.bounded b hb u hu
    have hlt := (hm.time t ht).1
    exact UInt64.lt_iff_toNat_lt.mpr (hle.trans_lt hlt)

/-- A packed clock can be taken apart again. -/
theorem Hlc.Packed.split (hp : h.Packed) :
    split (h.physical ||| h.logical) = (h.physical, h.logical) := by
  obtain ⟨h1, h2⟩ := split_toNat (h.physical ||| h.logical)
  rw [hp.or, Hlc.last] at h1 h2
  have hph := hp.physical
  have hl := hp.logical
  refine Prod.ext (UInt64.toNat_inj.mp ?_) (UInt64.toNat_inj.mp ?_)
  · show _ = h.physical.toNat
    rw [h1]
    omega
  · show _ = h.logical.toNat
    rw [h2]
    omega

/-- **The clock is strictly monotonic.** In every run of calls, whatever the wall
clock does, each time that `Now` returns is above all that was returned or
accepted before; and the parts of the clock never overlap. -/
theorem now_strictly_increasing (wall : Nat → UInt64) (maxOffset : UInt64) (calls : List Call)
    (p : Process) (hrun : runSteps (step wall) (new wall maxOffset) calls = some p) :
    (runHistory (step wall) (answers wall) (new wall maxOffset) calls).Pairwise
      (fun a b => ∀ u t, a = .time u ∨ a = .accepted u → b = .time t → u < t) ∧
    p.hlc.logical ≤ logicalMax ∧
    split (p.hlc.physical ||| p.hlc.logical) = (p.hlc.physical, p.hlc.logical) := by
  have h₀ : Inv (new wall maxOffset) [] := ⟨new_packed wall maxOffset, by simp, .nil⟩
  have h := runSteps_history (step wall) (answers wall) Inv (fun _ _ _ _ h hs => h.step hs) h₀ hrun
  rw [List.nil_append] at h
  refine ⟨h.increasing.imp ?_, ?_, h.packed.split⟩
  · intro a b hab u t ha hb
    refine hab u t ?_ hb
    rcases ha with rfl | rfl <;> rfl
  · have hl := h.packed.logical
    have hlm : logicalMax.toNat = 2 ^ 16 - 1 := logicalMask_toNat
    rw [UInt64.le_iff_toNat_le]
    omega

/-- The wall clock stands still, moves on, jumps back and catches up. -/
def unsteadyWall (n : Nat) : UInt64 := [65536, 65540, 131072, 131072, 65536, 196608].getD n 196608

theorem now_strictly_increasing_unsteadyWall :
    runHistory (step unsteadyWall) (answers unsteadyWall) (new unsteadyWall 65536)
      [.now, .now, .update 131080, .now] =
        [.time 65537, .time 131072, .accepted 131080, .time 196608] ∧
    (runHistory (step unsteadyWall) (answers unsteadyWall) (new unsteadyWall 65536)
      [.now, .now, .update 131080, .now]).Pairwise
      (fun a b => ∀ u t, a = .time u ∨ a = .accepted u → b = .time t → u < t) :=
  ⟨by decide, (now_strictly_increasing unsteadyWall 65536 [.now, .now, .update 131080, .now]
    ⟨⟨65536, 196608, 0⟩, 6⟩ (by decide)).1⟩

/-! ## The writer's clock -/

/-- The same answers given by the clock that the transaction writer assumes. -/
inductive Reads : Txn.Clock → List Answer → Txn.Clock → Prop
  | nil (c : Txn.Clock) : Reads c [] c
  | time {c c' : Txn.Clock} {t : UInt64} {as : List Answer} (drift : Nat)
      (ht : t.toNat = (c.now drift).last) (h : Reads (c.now drift) as c') :
      Reads c (.time t :: as) c'
  | accepted {c c' : Txn.Clock} {t : UInt64} {as : List Answer}
      (h : Reads (c.update t.toNat) as c') : Reads c (.accepted t :: as) c'
  | failed {c c' : Txn.Clock} {e : Err} {as : List Answer} (h : Reads c as c') :
      Reads c (.failed e :: as) c'

theorem Moves.reads {h' : Hlc} {a : Answer} (hm : Moves h h' a) {c : Txn.Clock}
    (hc : c.last ≤ h.last) : ∃ c', c'.last ≤ h'.last ∧
      ∀ as c'', Reads c' as c'' → Reads c (a :: as) c'' := by
  cases a with
  | time t =>
    obtain ⟨hlt, heq⟩ := hm.time t rfl
    have ht : t.toNat = (c.now (t.toNat - (c.last + 1))).last := by
      simp only [Txn.Clock.now]
      omega
    exact ⟨_, le_of_eq (ht ▸ heq), fun as c'' hr => .time _ ht hr⟩
  | accepted t =>
    have hlt := (max_le_max_right t.toNat hc).trans_lt (hm.accepted t rfl)
    exact ⟨c.update t.toNat, hlt, fun as c'' hr => .accepted hr⟩
  | failed e => exact ⟨c, hc.trans hm.le, fun as c'' hr => .failed hr⟩

/-- **Refinement.** The answers of every run of the hybrid logical clock are
answers of the writer's clock, started at or below it. -/
theorem clock_of_run {calls : List Call} (hp : p.hlc.Packed)
    (hrun : runSteps (step wall) p calls = some p') {c : Txn.Clock} (hc : c.last ≤ p.hlc.last) :
    ∃ c', Reads c (runHistory (step wall) (answers wall) p calls) c' ∧ c'.last ≤ p'.hlc.last := by
  induction calls generalizing p c with
  | nil =>
    cases hrun
    exact ⟨c, .nil c, hc⟩
  | cons x calls ih =>
    obtain ⟨q, hq, hrest⟩ := Option.bind_eq_some_iff.mp hrun
    obtain ⟨a, hcall, ha⟩ := step_answer hq
    have hm := call_moves hp hcall
    obtain ⟨c₁, hle, hcons⟩ := hm.reads hc
    obtain ⟨c', hr, hle'⟩ := ih hm.packed hrest hle
    refine ⟨c', ?_, hle'⟩
    rw [runHistory, ha, hq]
    exact hcons _ _ hr

theorem clock_of_run_unsteadyWall : ∃ c', Reads ⟨1, Nat.one_pos⟩
    [.time 65537, .time 131072, .accepted 131080, .time 196608] c' ∧ c'.last ≤ 196608 := by
  have hrun : runSteps (step unsteadyWall) (new unsteadyWall 65536)
      [.now, .now, .update 131080, .now] = some ⟨⟨65536, 196608, 0⟩, 6⟩ := by decide
  exact clock_of_run (new_packed unsteadyWall 65536) hrun (by decide)

end Scout.Clock
