import Scout.Clock.Hlc

/-!
Whether the hybrid logical clock can run out of retries although the wall clock goes on.
`Now` and `Update` sleep between their readings of the wall clock; here the naps are
written down beside the loops that make them, and a wall clock is one that advances by
at least the time slept. `update_survives_iff` says for which incoming timestamps that
pass the check of the offset `Update` and the next `Now` always return.
-/

namespace Scout.Clock

open Data Lib

/-- `physicalMin / 2`. -/
def pause : UInt64 := 0x10000 / 2

section Naps

variable (wall : Nat → UInt64)

/-- The calls of `time.Sleep` in the loop of `Now`: after which reading, and how long. -/
def nowNaps : Nat → Process → List (Nat × UInt64)
  | 0, _ => []
  | retries + 1, ⟨h, n⟩ =>
    let now := physicalNow wall n
    if now > h.physical then []
    else if now < h.physical then
      if h.physical - now > h.maxOffset then []
      else (n, h.physical - now) :: nowNaps retries ⟨h, n + 1⟩
    else if h.logical = logicalMax then (n, pause) :: nowNaps retries ⟨h, n + 1⟩
    else []

/-- Those in the loop of `Update`. -/
def updateNaps (inPhysical inLogical : UInt64) : Nat → Process → List (Nat × UInt64)
  | 0, _ => []
  | retries + 1, ⟨h, n⟩ =>
    let nextPhysical := max (max h.physical inPhysical) (physicalNow wall n)
    if nextLogical h inPhysical inLogical nextPhysical > logicalMax then
      (n, pause) :: updateNaps inPhysical inLogical retries ⟨h, n + 1⟩
    else []

def naps (p : Process) : Call → List (Nat × UInt64)
  | .now => nowNaps wall maxRetries p
  | .update incoming =>
    let (inPhysical, inLogical) := split incoming
    match checkUpdateTimeOffset wall p.hlc p.reads inPhysical with
    | some _ => []
    | none => updateNaps wall inPhysical inLogical maxRetries ⟨p.hlc, p.reads + 1⟩

/-- The wall clock slept at least as long as it was told to. -/
def Slept (xs : List (Nat × UInt64)) : Prop :=
  ∀ x ∈ xs, (wall x.1).toNat + x.2.toNat ≤ (wall (x.1 + 1)).toNat
  deriving Decidable

/-- From the last reading on, the wall clock does not go back, and advances over the naps
of the calls. -/
structure Advances (p : Process) (calls : List Call) : Prop where
  steady : ∀ n, p.reads ≤ n + 1 → wall n ≤ wall (n + 1)
  slept : Slept wall (runHistory (step wall) (naps wall) p calls)

end Naps

/-! ## One iteration -/

theorem logicalMax_toNat : logicalMax.toNat = 2 ^ 16 - 1 := logicalMask_toNat

theorem pause_toNat : pause.toNat = 2 ^ 15 := rfl

theorem sub_toNat {a b : UInt64} (h : b.toNat ≤ a.toNat) : (a - b).toNat = a.toNat - b.toNat :=
  UInt64.toNat_sub_of_le a b (UInt64.le_iff_toNat_le.mpr h)

/-- What `Update` moves to while the wall clock is not past it. -/
def aim (h : Hlc) (inPhysical inLogical : UInt64) : UInt64 × UInt64 :=
  (max h.physical inPhysical,
    if h.physical = inPhysical then max h.logical inLogical
    else if inPhysical < h.physical then h.logical else inLogical)

section Iterations

variable {wall : Nat → UInt64} {h : Hlc} {k n : Nat} {i l : UInt64}

theorem nowLoop_caught (hle : h.physical.toNat ≤ (physicalNow wall n).toNat)
    (hroom : h.logical ≠ logicalMax ∨ h.physical.toNat < (physicalNow wall n).toNat) :
    ∃ p' t, nowLoop wall (k + 1) ⟨h, n⟩ = .ok (p', t) := by
  simp only [nowLoop, gt_iff_lt, UInt64.lt_iff_toNat_lt]
  split
  · exact ⟨_, _, rfl⟩
  · rename_i hnot
    rw [if_neg (not_lt.mpr hle), if_neg (hroom.resolve_right hnot)]
    exact ⟨_, _, rfl⟩

variable (wall) in
theorem nowLoop_behind (hlt : (physicalNow wall n).toNat < h.physical.toNat)
    (hoff : h.physical.toNat ≤ (physicalNow wall n).toNat + h.maxOffset.toNat) :
    nowLoop wall (k + 1) ⟨h, n⟩ = nowLoop wall k ⟨h, n + 1⟩ ∧ nowNaps wall (k + 1) ⟨h, n⟩ =
      (n, h.physical - physicalNow wall n) :: nowNaps wall k ⟨h, n + 1⟩ := by
  have hin : ¬ h.maxOffset.toNat < (h.physical - physicalNow wall n).toNat := by
    rw [sub_toNat hlt.le]
    omega
  simp only [nowLoop, nowNaps, gt_iff_lt, UInt64.lt_iff_toNat_lt]
  simp only [not_lt.mpr hlt.le, hlt, hin, if_true, if_false, and_self]

variable (wall) in
theorem nowLoop_full (heq : physicalNow wall n = h.physical) (hl : h.logical = logicalMax) :
    nowLoop wall (k + 1) ⟨h, n⟩ = nowLoop wall k ⟨h, n + 1⟩ ∧
    nowNaps wall (k + 1) ⟨h, n⟩ = (n, pause) :: nowNaps wall k ⟨h, n + 1⟩ := by
  simp only [nowLoop, nowNaps, gt_iff_lt, UInt64.lt_iff_toNat_lt]
  simp only [heq, lt_irrefl, hl, if_true, if_false, and_self]

theorem next_toNat (h : Hlc) (i now : UInt64) : (max (max h.physical i) now).toNat =
    max (max h.physical.toNat i.toNat) now.toNat := by
  rw [UInt64.toNat_max, UInt64.toNat_max]

theorem aim_toNat (h : Hlc) (i l : UInt64) :
    (aim h i l).1.toNat = max h.physical.toNat i.toNat := UInt64.toNat_max _ _

theorem nextLogical_past (hlt : (aim h i l).1.toNat < (physicalNow wall n).toNat) :
    nextLogical h i l (max (max h.physical i) (physicalNow wall n)) = 0 := by
  have hnext := next_toNat h i (physicalNow wall n)
  rw [aim_toNat] at hlt
  have hh : max (max h.physical i) (physicalNow wall n) ≠ h.physical := by
    rw [ne_eq, ← UInt64.toNat_inj]
    omega
  have hi : max (max h.physical i) (physicalNow wall n) ≠ i := by
    rw [ne_eq, ← UInt64.toNat_inj]
    omega
  rw [nextLogical, if_neg fun e => hh e.1, if_neg hh, if_neg hi]

/-- A wall clock that is not past the aim does not show in the maximum. -/
theorem next_eq_aim (hle : (physicalNow wall n).toNat ≤ (aim h i l).1.toNat) :
    max (max h.physical i) (physicalNow wall n) = (aim h i l).1 := by
  rw [← UInt64.toNat_inj, next_toNat, aim_toNat]
  rw [aim_toNat] at hle
  omega

theorem nextLogical_aim : nextLogical h i l (aim h i l).1 = (aim h i l).2 + 1 := by
  have haim := aim_toNat h i l
  simp only [nextLogical, ← UInt64.toNat_inj, haim]
  simp only [aim, ← UInt64.toNat_inj, UInt64.lt_iff_toNat_lt]
  rcases lt_trichotomy h.physical.toNat i.toNat with hlt | heq | hgt
  · rw [max_eq_right hlt.le, if_neg fun e => hlt.ne' e.1, if_neg hlt.ne', if_pos rfl,
      if_neg hlt.ne, if_neg hlt.not_gt]
  · rw [heq, max_self, if_pos ⟨rfl, rfl⟩, if_pos rfl]
  · rw [max_eq_left hgt.le, if_neg fun e => hgt.ne' e.2, if_pos rfl, if_neg hgt.ne', if_pos hgt]

theorem updateLoop_past (hlt : (aim h i l).1.toNat < (physicalNow wall n).toNat) :
    updateLoop wall i l (k + 1) ⟨h, n⟩ =
      .ok ⟨{ h with physical := physicalNow wall n, logical := 0 }, n + 1⟩ := by
  have hmax : max (max h.physical i) (physicalNow wall n) = physicalNow wall n := by
    rw [← UInt64.toNat_inj, next_toNat]
    rw [aim_toNat] at hlt
    omega
  have hzero := nextLogical_past hlt
  rw [hmax] at hzero
  simp only [updateLoop, hmax, hzero]
  exact if_neg (by decide)

variable (wall) in
theorem updateLoop_aim (hle : (physicalNow wall n).toNat ≤ (aim h i l).1.toNat)
    (hroom : (aim h i l).2.toNat + 1 < 2 ^ 16) : updateLoop wall i l (k + 1) ⟨h, n⟩ =
      .ok ⟨{ h with physical := (aim h i l).1, logical := (aim h i l).2 + 1 }, n + 1⟩ ∧
    updateNaps wall i l (k + 1) ⟨h, n⟩ = [] := by
  have hok : ¬ logicalMax < (aim h i l).2 + 1 := by
    rw [UInt64.lt_iff_toNat_lt, succ_toNat (by omega), logicalMax_toNat]
    omega
  simp only [updateLoop, updateNaps, next_eq_aim hle, nextLogical_aim, gt_iff_lt, hok, if_false,
    and_self]

variable (wall) in
theorem updateLoop_full (hle : (physicalNow wall n).toNat ≤ (aim h i l).1.toNat)
    (hfull : (aim h i l).2 = logicalMax) :
    updateLoop wall i l (k + 1) ⟨h, n⟩ = updateLoop wall i l k ⟨h, n + 1⟩ ∧
    updateNaps wall i l (k + 1) ⟨h, n⟩ = (n, pause) :: updateNaps wall i l k ⟨h, n + 1⟩ := by
  have hover : logicalMax < (aim h i l).2 + 1 := by
    rw [hfull]
    decide
  simp only [updateLoop, updateNaps, next_eq_aim hle, nextLogical_aim, gt_iff_lt, hover, if_true,
    and_self]

end Iterations

/-! ## Loops that come to an end -/

theorem physicalNow_toNat (wall : Nat → UInt64) (n : Nat) :
    (physicalNow wall n).toNat = 2 ^ 16 * ((wall n).toNat / 2 ^ 16) := physical_toNat (wall n)

variable {wall : Nat → UInt64} {n : Nat}

theorem Slept.cons {d : UInt64} {xs : List (Nat × UInt64)} (h : Slept wall ((n, d) :: xs)) :
    (wall n).toNat + d.toNat ≤ (wall (n + 1)).toNat ∧ Slept wall xs := List.forall_mem_cons.mp h

section Survival

variable {wall : Nat → UInt64} {h : Hlc} {i l : UInt64} {n : Nat}

/-- `Now` with a clock that has caught up: there is room in the counter, or as many pauses
as are left take the clock past the physical part. -/
theorem nowLoop_waits {k : Nat} (hle : h.physical.toNat ≤ (physicalNow wall n).toNat)
    (hroom : h.logical ≠ logicalMax ∨ h.physical.toNat + 2 ^ 16 ≤ (wall n).toNat + k * 2 ^ 15)
    (hs : Slept wall (nowNaps wall (k + 1) ⟨h, n⟩)) :
    ∃ p' t, nowLoop wall (k + 1) ⟨h, n⟩ = .ok (p', t) := by
  induction k generalizing n with
  | zero =>
    have hn := physicalNow_toNat wall n
    exact nowLoop_caught hle (hroom.imp_right fun hr => by omega)
  | succ k ih =>
    by_cases hready : h.logical ≠ logicalMax ∨ h.physical.toNat < (physicalNow wall n).toNat
    · exact nowLoop_caught hle hready
    obtain ⟨hfull, hstill⟩ := not_or.mp hready
    have heq : physicalNow wall n = h.physical := UInt64.toNat_inj.mp (by omega)
    obtain ⟨hloop, hnaps⟩ := nowLoop_full wall (k := k + 1) heq (not_not.mp hfull)
    rw [hnaps] at hs
    obtain ⟨hnap, hrest⟩ := hs.cons
    rw [pause_toNat] at hnap
    have hn := physicalNow_toNat wall n
    have hn' := physicalNow_toNat wall (n + 1)
    rw [hloop]
    exact ih (by omega) (hroom.imp_right fun hr => by omega) hrest

theorem nowLoop_survives (hp : h.Packed)
    (hoff : h.physical.toNat ≤ (physicalNow wall n).toNat + h.maxOffset.toNat)
    (hroom : h.physical.toNat ≤ (physicalNow wall n).toNat ∨ h.logical ≠ logicalMax ∨
      2 ^ 15 ≤ (wall n).toNat % 2 ^ 16) (hs : Slept wall (nowNaps wall 3 ⟨h, n⟩)) :
    ∃ p' t, nowLoop wall 3 ⟨h, n⟩ = .ok (p', t) := by
  have hph := hp.physical
  have hn := physicalNow_toNat wall n
  by_cases hle : h.physical.toNat ≤ (physicalNow wall n).toNat
  · exact nowLoop_waits hle (.inr (by omega)) hs
  obtain ⟨hloop, hnaps⟩ := nowLoop_behind wall (k := 2) (not_le.mp hle) hoff
  rw [hnaps] at hs
  obtain ⟨hnap, hrest⟩ := hs.cons
  rw [sub_toNat (by omega)] at hnap
  have hn' := physicalNow_toNat wall (n + 1)
  rw [hloop]
  exact nowLoop_waits (by omega) ((hroom.resolve_left hle).imp_right fun hr => by omega) hrest

/-- Where `Update` has come to: the clock was past the aim, or it is at the aim. -/
inductive Settled (wall : Nat → UInt64) (h : Hlc) (i l : UInt64) (n : Nat) : Process → Prop
  | past (j : Nat) (hj : n ≤ j) (hlt : (aim h i l).1.toNat < (physicalNow wall j).toNat) :
      Settled wall h i l n ⟨{ h with physical := physicalNow wall j, logical := 0 }, j + 1⟩
  | aimed (j : Nat) (hj : n ≤ j) (hroom : (aim h i l).2.toNat + 1 < 2 ^ 16) :
      Settled wall h i l n
        ⟨{ h with physical := (aim h i l).1, logical := (aim h i l).2 + 1 }, j + 1⟩

theorem Settled.later {m : Nat} {p : Process} (hnm : n ≤ m) (hs : Settled wall h i l m p) :
    Settled wall h i l n p := by
  cases hs with
  | past j hj hlt => exact .past j (hnm.trans hj) hlt
  | aimed j hj hroom => exact .aimed j (hnm.trans hj) hroom

/-- `Update`: there is room in the counter, or the pauses take the clock past the aim. -/
theorem updateLoop_survives (hmod : (aim h i l).1.toNat % 2 ^ 16 = 0)
    (hlog : (aim h i l).2.toNat < 2 ^ 16) {k : Nat} (hroom : (aim h i l).2.toNat + 1 < 2 ^ 16 ∨
      (aim h i l).1.toNat + 2 ^ 16 ≤ (wall n).toNat + k * 2 ^ 15)
    (hs : Slept wall (updateNaps wall i l (k + 1) ⟨h, n⟩)) :
    ∃ p', updateLoop wall i l (k + 1) ⟨h, n⟩ = .ok p' ∧ Settled wall h i l n p' := by
  induction k generalizing n with
  | zero =>
    have hn := physicalNow_toNat wall n
    by_cases hlt : (aim h i l).1.toNat < (physicalNow wall n).toNat
    · exact ⟨_, updateLoop_past hlt, .past n le_rfl hlt⟩
    · have hr := hroom.resolve_right (by omega)
      exact ⟨_, (updateLoop_aim wall (not_lt.mp hlt) hr).1, .aimed n le_rfl hr⟩
  | succ k ih =>
    by_cases hlt : (aim h i l).1.toNat < (physicalNow wall n).toNat
    · exact ⟨_, updateLoop_past hlt, .past n le_rfl hlt⟩
    by_cases hr : (aim h i l).2.toNat + 1 < 2 ^ 16
    · exact ⟨_, (updateLoop_aim wall (not_lt.mp hlt) hr).1, .aimed n le_rfl hr⟩
    have hfull : (aim h i l).2 = logicalMax := by
      rw [← UInt64.toNat_inj, logicalMax_toNat]
      omega
    obtain ⟨hloop, hnaps⟩ := updateLoop_full wall (k := k + 1) (not_lt.mp hlt) hfull
    rw [hnaps] at hs
    obtain ⟨hnap, hrest⟩ := hs.cons
    rw [pause_toNat] at hnap
    obtain ⟨p', hp', hset⟩ := ih (n := n + 1) (hroom.imp_right fun hr => by omega) hrest
    exact ⟨p', by rw [hloop, hp'], hset.later (Nat.le_succ n)⟩

end Survival

/-! ## Reachable clocks -/

/-- The physical part of a reachable clock is at most the offset ahead of the last reading. -/
structure Near (wall : Nat → UInt64) (maxOffset : UInt64) (p : Process) : Prop where
  packed : p.hlc.Packed
  offset : p.hlc.maxOffset = physical maxOffset
  reads : 0 < p.reads
  near : p.hlc.physical.toNat ≤
    (physicalNow wall (p.reads - 1)).toNat + p.hlc.maxOffset.toNat

/-- The readings do not go back. -/
def Steady (wall : Nat → UInt64) : Prop := ∀ m n, m ≤ n → (wall m).toNat ≤ (wall n).toNat

theorem Steady.physicalNow (h : Steady wall) {m : Nat} (hmn : m ≤ n) :
    (physicalNow wall m).toNat ≤ (physicalNow wall n).toNat := by
  have := h m n hmn
  rw [physicalNow_toNat, physicalNow_toNat]
  omega

variable {h : Hlc}

theorem nowLoop_frame {k : Nat} {p' : Process} {t : UInt64}
    (hok : nowLoop wall k ⟨h, n⟩ = .ok (p', t)) :
    p'.hlc.maxOffset = h.maxOffset ∧ n < p'.reads ∧ (p'.hlc.physical = h.physical ∨
      ∃ j < p'.reads, p'.hlc.physical = physicalNow wall j) := by
  induction k generalizing n with
  | zero => cases hok
  | succ k ih =>
    have again : nowLoop wall k ⟨h, n + 1⟩ = .ok (p', t) → p'.hlc.maxOffset = h.maxOffset ∧
        n < p'.reads ∧ (p'.hlc.physical = h.physical ∨
          ∃ j < p'.reads, p'.hlc.physical = physicalNow wall j) := by
      intro hk
      obtain ⟨h1, h2, h3⟩ := ih hk
      exact ⟨h1, by omega, h3⟩
    simp only [nowLoop] at hok
    split at hok
    · cases hok
      exact ⟨rfl, Nat.lt_succ_self n, .inr ⟨n, Nat.lt_succ_self n, rfl⟩⟩
    · split at hok
      · split at hok
        · cases hok
        · exact again hok
      · split at hok
        · exact again hok
        · cases hok
          exact ⟨rfl, Nat.lt_succ_self n, .inl rfl⟩

theorem updateLoop_frame {k : Nat} {i l : UInt64} {p' : Process}
    (hok : updateLoop wall i l k ⟨h, n⟩ = .ok p') : p'.hlc.maxOffset = h.maxOffset ∧ n < p'.reads ∧
      ∃ j < p'.reads, p'.hlc.physical.toNat =
        max (max h.physical.toNat i.toNat) (physicalNow wall j).toNat := by
  induction k generalizing n with
  | zero => cases hok
  | succ k ih =>
    simp only [updateLoop] at hok
    split at hok
    · obtain ⟨h1, h2, h3⟩ := ih hok
      exact ⟨h1, by omega, h3⟩
    · cases hok
      exact ⟨rfl, Nat.lt_succ_self n, n, Nat.lt_succ_self n, next_toNat h i _⟩

theorem new_near (wall : Nat → UInt64) (maxOffset : UInt64) :
    Near wall maxOffset (new wall maxOffset) :=
  ⟨new_packed wall maxOffset, rfl, Nat.one_pos, Nat.le_add_right _ _⟩

theorem checkUpdateTimeOffset_none {i : UInt64} : checkUpdateTimeOffset wall h n i = none ↔
      i.toNat ≤ (physicalNow wall n).toNat + h.maxOffset.toNat := by
  simp only [checkUpdateTimeOffset, UInt64.le_iff_toNat_le, gt_iff_lt, UInt64.lt_iff_toNat_lt]
  split
  · rename_i hle
    exact iff_of_true rfl (by omega)
  · rename_i hlt
    rw [sub_toNat (by omega)]
    split
    · rename_i hoff
      exact iff_of_false nofun (by omega)
    · rename_i hoff
      exact iff_of_true rfl (by omega)

theorem Near.step {maxOffset : UInt64} {p p' : Process} {c : Call} (hw : Steady wall)
    (h : Near wall maxOffset p) (hs : step wall p c = some p') : Near wall maxOffset p' := by
  obtain ⟨a, hcall, _⟩ := step_answer hs
  have hpk := (call_moves h.packed hcall).packed
  have hnear := h.near
  cases c with
  | now =>
    cases hn : now wall p with
    | error e => rw [call, hn] at hcall; cases hcall
    | ok x =>
      rw [call, hn] at hcall
      cases hcall
      obtain ⟨hoff, hreads, hphys⟩ := nowLoop_frame hn
      refine ⟨hpk, hoff.trans h.offset, by omega, ?_⟩
      rw [hoff]
      rcases hphys with hsame | ⟨j, hj, hread⟩
      · have hmono := hw.physicalNow (show p.reads - 1 ≤ x.1.reads - 1 by omega)
        rw [hsame]
        omega
      · have hmono := hw.physicalNow (show j ≤ x.1.reads - 1 by omega)
        rw [hread]
        omega
  | update incoming =>
    rw [call, update] at hcall
    dsimp only at hcall
    cases hc : checkUpdateTimeOffset wall p.hlc p.reads (split incoming).1 with
    | some e =>
      rw [hc] at hcall
      cases hcall
      have hmono := hw.physicalNow (show p.reads - 1 ≤ p.reads + 1 - 1 by omega)
      exact ⟨hpk, h.offset, Nat.succ_pos _, by dsimp only; omega⟩
    | none =>
      rw [hc] at hcall
      have hin := checkUpdateTimeOffset_none.mp hc
      cases hu : updateLoop wall (split incoming).1 (split incoming).2 maxRetries
          ⟨p.hlc, p.reads + 1⟩ with
      | error e => rw [hu] at hcall; cases hcall
      | ok q =>
        rw [hu] at hcall
        obtain rfl : q = p' := by
          cases hcall
          rfl
        obtain ⟨hoff, hreads, j, hj, hphys⟩ := updateLoop_frame hu
        have h1 := hw.physicalNow (show p.reads - 1 ≤ q.reads - 1 by omega)
        have h2 := hw.physicalNow (show p.reads ≤ q.reads - 1 by omega)
        have h3 := hw.physicalNow (show j ≤ q.reads - 1 by omega)
        refine ⟨hpk, hoff.trans h.offset, by omega, ?_⟩
        rw [hoff, hphys]
        omega

theorem near_of_run {maxOffset : UInt64} {calls : List Call} {p : Process} (hw : Steady wall)
    (hrun : runSteps (step wall) (new wall maxOffset) calls = some p) : Near wall maxOffset p :=
  runSteps_preserves (step wall) (Near wall maxOffset) (fun _ _ _ h hs => h.step hw hs)
    (new_near wall maxOffset) hrun

/-! ## An incoming timestamp -/

/-- `Update` accepts the timestamp, and the next `Now` returns. -/
def Survives (wall : Nat → UInt64) (p : Process) (incoming : UInt64) : Prop :=
  ∃ p' p'' t, update wall p incoming = .ok (p', none) ∧ now wall p' = .ok (p'', t)

/-- The condition on the clock, the wall clock at the call and the timestamp. With the later
of the two physical parts and the counter that belongs to it: the wall clock has come to that
part, or the counter has room for two more, or for one and the wall clock is less than a pause
away from that part. -/
def Room (h : Hlc) (w incoming : UInt64) : Prop :=
  let target := aim h (split incoming).1 (split incoming).2
  target.1.toNat ≤ (physical w).toNat ∨ target.2.toNat + 1 < logicalMax.toNat ∨
    (target.2.toNat + 1 = logicalMax.toNat ∧
      target.1.toNat ≤ 2 ^ 16 * ((w.toNat + pause.toNat) / 2 ^ 16))

theorem aim_packed (hp : h.Packed) (incoming : UInt64) :
    (aim h (split incoming).1 (split incoming).2).1.toNat % 2 ^ 16 = 0 ∧
    (aim h (split incoming).1 (split incoming).2).2.toNat < 2 ^ 16 := by
  obtain ⟨h1, h2⟩ := split_toNat incoming
  have hph := hp.physical
  have hl := hp.logical
  constructor
  · rw [aim_toNat, h1]
    omega
  · simp only [aim]
    split
    · rw [UInt64.toNat_max]
      omega
    · split
      · exact hl
      · omega

section Incoming

variable {wall : Nat → UInt64} {maxOffset : UInt64} {p : Process} {incoming : UInt64}

theorem naps_update (hc : checkUpdateTimeOffset wall p.hlc p.reads (split incoming).1 = none) :
    naps wall p (.update incoming) =
      updateNaps wall (split incoming).1 (split incoming).2 maxRetries ⟨p.hlc, p.reads + 1⟩ := by
  simp only [naps, hc]

theorem update_eq (hc : checkUpdateTimeOffset wall p.hlc p.reads (split incoming).1 = none) :
    update wall p incoming = (updateLoop wall (split incoming).1 (split incoming).2 maxRetries
        ⟨p.hlc, p.reads + 1⟩).map fun q => (q, none) := by
  simp only [update, hc]
  rfl

theorem step_update {q : Process} (h : update wall p incoming = .ok (q, none)) :
    step wall p (.update incoming) = some q := by
  rw [step, call, h]
  rfl

variable {calls : List Call}

theorem Advances.mono (hw : Advances wall p calls) {m n : Nat} (hm : p.reads ≤ m + 1)
    (hmn : m ≤ n) : (wall m).toNat ≤ (wall n).toNat := by
  induction n, hmn using Nat.le_induction with
  | base => exact le_rfl
  | succ n hmn ih => exact ih.trans (UInt64.le_iff_toNat_le.mp (hw.steady n (by omega)))

/-- With room, `Update` returns. -/
theorem update_survives (hp : Near wall maxOffset p)
    (hin : (split incoming).1.toNat ≤ (physicalNow wall p.reads).toNat + p.hlc.maxOffset.toNat)
    (hw : Advances wall p (.update incoming :: calls))
    (hroom : Room p.hlc (wall p.reads) incoming) : ∃ q, update wall p incoming = .ok (q, none) ∧
      Settled wall p.hlc (split incoming).1 (split incoming).2 (p.reads + 1) q := by
  have hc := checkUpdateTimeOffset_none.mpr hin
  obtain ⟨hmod, hlog⟩ := aim_packed hp.packed incoming
  have hslept := hw.slept
  simp only [runHistory, naps_update hc] at hslept
  have hfit : (aim p.hlc (split incoming).1 (split incoming).2).2.toNat + 1 < 2 ^ 16 ∨
      (aim p.hlc (split incoming).1 (split incoming).2).1.toNat + 2 ^ 16 ≤
        (wall (p.reads + 1)).toNat + 2 * 2 ^ 15 := by
    have hlm := logicalMax_toNat
    have hn := physicalNow_toNat wall p.reads
    have hfirst := hw.mono (m := p.reads) (n := p.reads + 1) (by omega) (by omega)
    rcases hroom with hr | hr | ⟨hr, _⟩
    · rw [← physicalNow] at hr
      right
      omega
    · left
      omega
    · left
      omega
  obtain ⟨q, hq, hset⟩ := updateLoop_survives (k := 2) hmod hlog hfit fun x hx =>
    hslept x (List.mem_append_left _ hx)
  refine ⟨q, ?_, hset⟩
  rw [update_eq hc, maxRetries, hq]
  rfl

theorem now_survives (hp : Near wall maxOffset p)
    (hin : (split incoming).1.toNat ≤ (physicalNow wall p.reads).toNat + p.hlc.maxOffset.toNat)
    (hw : Advances wall p calls) (hroom : Room p.hlc (wall p.reads) incoming) {q : Process}
    (hset : Settled wall p.hlc (split incoming).1 (split incoming).2 (p.reads + 1) q)
    (hnaps : Slept wall (nowNaps wall 3 q)) : ∃ p' t, nowLoop wall 3 q = .ok (p', t) := by
  cases hset with
  | past j hj hlt =>
    have hpk : Hlc.Packed { p.hlc with physical := physicalNow wall j, logical := 0 } :=
      ⟨physicalNow_mod wall j, Nat.two_pow_pos 16⟩
    have hjj := hw.mono (m := j) (n := j + 1) (by omega) (by omega)
    have h1 := physicalNow_toNat wall j
    have h2 := physicalNow_toNat wall (j + 1)
    refine nowLoop_survives hpk ?_ (.inl ?_) hnaps
    · dsimp only
      omega
    · dsimp only
      omega
  | aimed j hj hr =>
    obtain ⟨hmod, hlog⟩ := aim_packed hp.packed incoming
    have hs := succ_toNat hlog
    have hjj := hw.mono (m := p.reads) (n := j + 1) (by omega) (by omega)
    have hlast := hw.mono (m := p.reads - 1) (n := p.reads) (by omega) (by omega)
    have hnear := hp.near
    have hl := physicalNow_toNat wall (p.reads - 1)
    have hn := physicalNow_toNat wall p.reads
    have h2 := physicalNow_toNat wall (j + 1)
    have haim := aim_toNat p.hlc (split incoming).1 (split incoming).2
    refine nowLoop_survives ⟨hmod, by dsimp only; omega⟩ ?_ ?_ hnaps
    · dsimp only
      omega
    · dsimp only
      rcases hroom with hr | hr | ⟨hr, hr'⟩
      · rw [← physicalNow] at hr
        left
        omega
      · right
        left
        rw [ne_eq, ← UInt64.toNat_inj]
        omega
      · rw [pause_toNat] at hr'
        omega

theorem survives_of_room (hp : Near wall maxOffset p)
    (hin : (split incoming).1.toNat ≤ (physicalNow wall p.reads).toNat + p.hlc.maxOffset.toNat)
    (hw : Advances wall p [.update incoming, .now]) (hroom : Room p.hlc (wall p.reads) incoming) :
    Survives wall p incoming := by
  obtain ⟨q, hup, hset⟩ := update_survives hp hin hw hroom
  have hslept := hw.slept
  simp only [runHistory, step_update hup] at hslept
  have hnaps : Slept wall (nowNaps wall 3 q) :=
    fun x hx => hslept x (List.mem_append_right _ (List.mem_append_left _ hx))
  obtain ⟨p', t, hnow⟩ := now_survives hp hin hw hroom hset hnaps
  exact ⟨q, p', t, hup, hnow⟩

end Incoming

/-! ## Wall clocks that are too slow -/

/-- The readings before `n`, then those of `later`. -/
def continued (wall : Nat → UInt64) (n : Nat) (later : Nat → Nat) (m : Nat) : UInt64 :=
  if m < n then wall m else UInt64.ofNat (later (m - n))

section Continued

variable (wall : Nat → UInt64) (n : Nat) {later : Nat → Nat}

theorem continued_before {m : Nat} (h : m < n) : continued wall n later m = wall m := if_pos h

theorem continued_toNat (hlt : ∀ j, later j < 2 ^ 64) (j : Nat) :
    (continued wall n later (n + j)).toNat = later j := by
  rw [continued, if_neg (by omega), Nat.add_sub_cancel_left]
  exact UInt64.toNat_ofNat_of_lt (hlt j)

theorem continued_steady (hlt : ∀ j, later j < 2 ^ 64) (hmono : ∀ j, later j ≤ later (j + 1))
    (hn : 0 < n) (hlast : (wall (n - 1)).toNat ≤ later 0) (m : Nat) (hm : n ≤ m + 1) :
    continued wall n later m ≤ continued wall n later (m + 1) := by
  rw [UInt64.le_iff_toNat_le]
  rcases Nat.eq_or_lt_of_le hm with heq | hle
  · have h0 := continued_toNat wall n hlt 0
    have hm' : m = n - 1 := by omega
    rw [← heq, continued_before wall n (by omega), hm']
    rw [Nat.add_zero] at h0
    omega
  · obtain ⟨j, rfl⟩ := Nat.exists_eq_add_of_le (Nat.lt_succ_iff.mp hle)
    have h1 := continued_toNat wall n hlt j
    have h2 := continued_toNat wall n hlt (j + 1)
    rw [← Nat.add_assoc] at h2
    have := hmono j
    omega

end Continued

/-- A wall clock that advances by the pauses of `Update` and no more. -/
def slowUpdate (w : Nat) : Nat → Nat
  | 0 | 1 => w
  | 2 => w + 2 ^ 15
  | 3 => w + 2 * 2 ^ 15
  | _ => w + 3 * 2 ^ 15

/-- The reading of the next `Now` with the longest way to go: the wall clock at the call, or
the start of the next physical part. -/
def badReading (w : Nat) : Nat := if w % 2 ^ 16 < 2 ^ 15 then w else 2 ^ 16 * (w / 2 ^ 16 + 1)

/-- A wall clock that advances by what `Now` sleeps until `target`, and no more. -/
def slowNow (w target : Nat) : Nat → Nat
  | 0 | 1 => w
  | 2 => badReading w
  | 3 => target + badReading w % 2 ^ 16
  | 4 => target + badReading w % 2 ^ 16 + 2 ^ 15
  | _ => target + badReading w % 2 ^ 16 + 2 * 2 ^ 15

theorem slowUpdate_mono (w j : Nat) : slowUpdate w j ≤ slowUpdate w (j + 1) := by
  rcases j with _ | _ | _ | _ | j <;> simp only [slowUpdate] <;> omega

theorem slowUpdate_lt {w : Nat} (hw : w < 2 ^ 63) (j : Nat) : slowUpdate w j < 2 ^ 64 := by
  rcases j with _ | _ | _ | _ | j <;> simp only [slowUpdate] <;> omega

theorem badReading_spec (w : Nat) : badReading w % 2 ^ 16 < 2 ^ 15 ∧ w ≤ badReading w ∧
    (badReading w / 2 ^ 16 = (w + 2 ^ 15) / 2 ^ 16) := by
  unfold badReading
  split <;> omega

theorem slowNow_mono {w target : Nat} (ht : 2 ^ 16 * ((w + 2 ^ 15) / 2 ^ 16) < target) (j : Nat) :
    slowNow w target j ≤ slowNow w target (j + 1) := by
  obtain ⟨_, h2, h3⟩ := badReading_spec w
  rcases j with _ | _ | _ | _ | _ | j <;> simp only [slowNow] <;> omega

theorem slowNow_lt {w target : Nat} (ht : 2 ^ 16 * ((w + 2 ^ 15) / 2 ^ 16) < target)
    (hb : target + 2 ^ 17 ≤ 2 ^ 64) (j : Nat) : slowNow w target j < 2 ^ 64 := by
  obtain ⟨h1, h2, h3⟩ := badReading_spec w
  rcases j with _ | _ | _ | _ | _ | j <;> simp only [slowNow] <;> omega

section Slow

variable {wall : Nat → UInt64} {p : Process} {incoming : UInt64} {w : Nat}

/-- The counter of the timestamp is used up and the wall clock has not come to it. -/
theorem slowUpdate_stops
    (hmod : (aim p.hlc (split incoming).1 (split incoming).2).1.toNat % 2 ^ 16 = 0)
    (hc : checkUpdateTimeOffset wall p.hlc p.reads (split incoming).1 = none)
    (hread : ∀ j, (wall (p.reads + j)).toNat = slowUpdate w j)
    (hfar : 2 ^ 16 * (w / 2 ^ 16) < (aim p.hlc (split incoming).1 (split incoming).2).1.toNat)
    (hfull : (aim p.hlc (split incoming).1 (split incoming).2).2 = logicalMax) :
    Slept wall (runHistory (step wall) (naps wall) p [.update incoming, .now]) ∧
      ¬ Survives wall p incoming := by
  have r1 := hread 1
  have r2 := hread 2
  have r3 := hread 3
  have r4 := hread 4
  simp only [slowUpdate] at r1 r2 r3 r4
  -- all three readings are at or below the aim
  obtain ⟨l1, n1⟩ := updateLoop_full wall (k := 2) (n := p.reads + 1)
    (by rw [physicalNow_toNat, r1]; omega) hfull
  obtain ⟨l2, n2⟩ := updateLoop_full wall (k := 1) (n := p.reads + 2)
    (by rw [physicalNow_toNat, r2]; omega) hfull
  obtain ⟨l3, n3⟩ := updateLoop_full wall (k := 0) (n := p.reads + 3)
    (by rw [physicalNow_toNat, r3]; omega) hfull
  have hup : update wall p incoming = .error "HLC.Update failed too many times" := by
    rw [update_eq hc, maxRetries, l1, l2, l3]
    rfl
  constructor
  · have hstep : step wall p (.update incoming) = none := by
      rw [step, call, hup]
      rfl
    rw [runHistory, hstep, naps_update hc, maxRetries, n1, n2, n3]
    intro x hx
    simp only [updateNaps, List.append_nil, List.mem_cons, List.not_mem_nil, or_false] at hx
    rcases hx with rfl | rfl | rfl
    · rw [pause_toNat, r1, r2]
    · rw [pause_toNat, r2, r3]
      omega
    · rw [pause_toNat, r3, r4]
      omega
  · rintro ⟨p', _, _, hok, _⟩
    rw [hup] at hok
    cases hok

/-- The timestamp leaves room for one more, which `Update` takes; then `Now` cannot wait for
the wall clock and for a new physical part. -/
theorem slowNow_stops (hp : p.hlc.Packed)
    (hc : checkUpdateTimeOffset wall p.hlc p.reads (split incoming).1 = none)
    (hread : ∀ j, (wall (p.reads + j)).toNat =
      slowNow w (aim p.hlc (split incoming).1 (split incoming).2).1.toNat j)
    (hfar : 2 ^ 16 * ((w + 2 ^ 15) / 2 ^ 16) <
      (aim p.hlc (split incoming).1 (split incoming).2).1.toNat)
    (hoff : (aim p.hlc (split incoming).1 (split incoming).2).1.toNat ≤
      2 ^ 16 * (w / 2 ^ 16) + p.hlc.maxOffset.toNat)
    (hone : (aim p.hlc (split incoming).1 (split incoming).2).2.toNat + 1 = logicalMax.toNat) :
    Slept wall (runHistory (step wall) (naps wall) p [.update incoming, .now]) ∧
      ¬ Survives wall p incoming := by
  obtain ⟨hmod, hlog⟩ := aim_packed hp incoming
  obtain ⟨h1, h2, h3⟩ := badReading_spec w
  generalize haim : aim p.hlc (split incoming).1 (split incoming).2 = target at *
  have hlm := logicalMax_toNat
  have r1 := hread 1
  have r2 := hread 2
  have r3 := hread 3
  have r4 := hread 4
  have r5 := hread 5
  simp only [slowNow] at r1 r2 r3 r4 r5
  obtain ⟨lu, nu⟩ := updateLoop_aim wall (h := p.hlc) (i := (split incoming).1)
    (l := (split incoming).2) (k := 2) (n := p.reads + 1)
    (by rw [physicalNow_toNat, r1, haim]; omega) (by rw [haim]; omega)
  rw [haim] at lu
  have hup : update wall p incoming = .ok
      (⟨{ p.hlc with physical := target.1, logical := target.2 + 1 }, p.reads + 2⟩, none) := by
    rw [update_eq hc, maxRetries, lu]
    rfl
  have hlog' : target.2 + 1 = logicalMax := by
    rw [← UInt64.toNat_inj, succ_toNat hlog, hone]
  have p2 := physicalNow_toNat wall (p.reads + 2)
  have p3 := physicalNow_toNat wall (p.reads + 3)
  have p4 := physicalNow_toNat wall (p.reads + 4)
  rw [r2] at p2
  rw [r3] at p3
  rw [r4] at p4
  obtain ⟨la, na⟩ := nowLoop_behind wall (k := 2) (n := p.reads + 2)
    (h := { p.hlc with physical := target.1, logical := target.2 + 1 })
    (by dsimp only; omega) (by dsimp only; omega)
  obtain ⟨lb, nb⟩ := nowLoop_full wall (k := 1) (n := p.reads + 3)
    (h := { p.hlc with physical := target.1, logical := target.2 + 1 })
    (by rw [← UInt64.toNat_inj]; dsimp only; omega) hlog'
  obtain ⟨lc, nc⟩ := nowLoop_full wall (k := 0) (n := p.reads + 4)
    (h := { p.hlc with physical := target.1, logical := target.2 + 1 })
    (by rw [← UInt64.toNat_inj]; dsimp only; omega) hlog'
  have hnow : now wall ⟨{ p.hlc with physical := target.1, logical := target.2 + 1 },
      p.reads + 2⟩ = .error "HLC.Now failed too many times" := by
    rw [now, maxRetries, la, lb, lc]
    rfl
  constructor
  · have hstep : step wall ⟨{ p.hlc with physical := target.1, logical := target.2 + 1 },
        p.reads + 2⟩ .now = none := by
      rw [step, call, hnow]
      rfl
    rw [runHistory, step_update hup, naps_update hc, maxRetries, nu]
    dsimp only
    rw [runHistory, hstep, naps, maxRetries, na, nb, nc]
    intro x hx
    simp only [nowNaps, List.nil_append, List.append_nil, List.mem_cons, List.not_mem_nil,
      or_false] at hx
    rcases hx with rfl | rfl | rfl
    · rw [sub_toNat (by omega), r2, r3]
      omega
    · rw [pause_toNat, r3, r4]
    · rw [pause_toNat, r4, r5]
      omega
  · rintro ⟨p', _, _, hok, hok'⟩
    rw [hup] at hok
    cases hok
    rw [hnow] at hok'
    cases hok'

end Slow

/-- **Which timestamps the clock survives.** In every reachable state, for every reading `w`
of the wall clock at the call and every incoming timestamp within the offset: whatever the wall
clock does from there on, as long as it advances by the time slept, `Update` accepts the
timestamp and the next `Now` returns, exactly when there is room. Times and offsets are
nonnegative numbers of an `int64`. -/
theorem update_survives_iff {wall : Nat → UInt64} {maxOffset : UInt64} {calls : List Call}
    {p : Process} (hrun : runSteps (step wall) (new wall maxOffset) calls = some p)
    (hpast : Advances wall (new wall maxOffset) calls) (hmax : maxOffset.toNat < 2 ^ 63)
    {w incoming : UInt64} (hw : w.toNat < 2 ^ 63) (hlast : wall (p.reads - 1) ≤ w)
    (hin : (split incoming).1.toNat ≤ (physical w).toNat + p.hlc.maxOffset.toNat) :
    (∀ wall', (∀ n < p.reads, wall' n = wall n) → wall' p.reads = w →
        Advances wall' p [.update incoming, .now] → Survives wall' p incoming) ↔
      Room p.hlc w incoming := by
  have hsteady : Steady wall := by
    intro m n hmn
    induction n, hmn using Nat.le_induction with
    | base => exact le_rfl
    | succ n hmn ih =>
      exact ih.trans (UInt64.le_iff_toNat_le.mp (hpast.steady n (Nat.le_add_left 1 n)))
  have hp := near_of_run hsteady hrun
  have hnear := hp.near
  have hl := physicalNow_toNat wall (p.reads - 1)
  rw [UInt64.le_iff_toNat_le] at hlast
  constructor
  · intro hall
    by_contra hroom
    obtain ⟨hmod, hlog⟩ := aim_packed hp.packed incoming
    have haim := aim_toNat p.hlc (split incoming).1 (split incoming).2
    have hoff : p.hlc.maxOffset.toNat = 2 ^ 16 * (maxOffset.toNat / 2 ^ 16) := by
      rw [hp.offset, physical_toNat]
    have hlm := logicalMax_toNat
    have hps := pause_toNat
    rw [physical_toNat] at hin
    simp only [Room, not_or, not_and, not_le, not_lt, physical_toNat, hlm, hps] at hroom
    obtain ⟨hfar, hcount, hpause⟩ := hroom
    -- a wall clock that goes on from the readings so far
    have stops : ∀ later : Nat → Nat, (∀ j, later j < 2 ^ 64) → (∀ j, later j ≤ later (j + 1)) →
        later 0 = w.toNat →
        (∀ wall' : Nat → UInt64,
          checkUpdateTimeOffset wall' p.hlc p.reads (split incoming).1 = none →
          (∀ j, (wall' (p.reads + j)).toNat = later j) →
          Slept wall' (runHistory (step wall') (naps wall') p [.update incoming, .now]) ∧
            ¬ Survives wall' p incoming) → False := by
      intro later hlt hmono h0 hstops
      have hread := continued_toNat wall p.reads hlt
      have hw0 : continued wall p.reads later p.reads = w :=
        UInt64.toNat_inj.mp ((hread 0).trans h0)
      obtain ⟨hslept, hnot⟩ := hstops _ (checkUpdateTimeOffset_none.mpr (by
        rw [physicalNow, hw0, physical_toNat]; exact hin)) hread
      refine hnot (hall _ (fun n hn => continued_before wall p.reads hn) hw0 ⟨?_, hslept⟩)
      exact continued_steady wall p.reads hlt hmono hp.reads (by rw [h0]; exact hlast)
    by_cases hone : (aim p.hlc (split incoming).1 (split incoming).2).2.toNat + 1 = 2 ^ 16 - 1
    · have hfar' := hpause hone
      refine stops (slowNow w.toNat _) (slowNow_lt hfar' (by omega)) (slowNow_mono hfar') rfl ?_
      intro wall' hc hread
      exact slowNow_stops hp.packed hc hread hfar' (by omega) (by rw [hone, hlm])
    · refine stops (slowUpdate w.toNat) (slowUpdate_lt hw) (slowUpdate_mono _) rfl ?_
      intro wall' hc hread
      refine slowUpdate_stops hmod hc hread hfar ?_
      rw [← UInt64.toNat_inj, hlm]
      omega
  · intro hroom wall' hsame hw0 hadv
    have hlast' : wall' (p.reads - 1) = wall (p.reads - 1) :=
      hsame _ (Nat.sub_lt hp.reads Nat.one_pos)
    have hp' : Near wall' maxOffset p := by
      refine ⟨hp.packed, hp.offset, hp.reads, ?_⟩
      rw [physicalNow, hlast']
      exact hnear
    refine survives_of_room hp' ?_ hadv (by rw [hw0]; exact hroom)
    rw [physicalNow, hw0]
    exact hin

/-- A wall clock in nanoseconds. -/
def noon : UInt64 := 0x1800000000000000

def halfSecond : UInt64 := 500000000

/-- A timestamp 65.5 µs ahead stops `Update` when its counter is at the maximum, and with one
less the next `Now`. Both clocks have slept as long as they were told to. -/
theorem acceptable_timestamp_stops :
    (let wall := continued (fun _ => noon) 1 (slowUpdate noon.toNat)
    update wall (new wall halfSecond) (noon + 65536 + 65535) =
        .error "HLC.Update failed too many times" ∧
      Slept wall (naps wall (new wall halfSecond) (.update (noon + 65536 + 65535)))) ∧
    (let wall := continued (fun _ => noon) 1 (slowNow noon.toNat (noon + 65536).toNat)
    let next : Process := ⟨⟨physical halfSecond, noon + 65536, 65535⟩, 3⟩
    update wall (new wall halfSecond) (noon + 65536 + 65534) = .ok (next, none) ∧
      now wall next = .error "HLC.Now failed too many times" ∧
      Slept wall (naps wall next .now)) := by
  decide

/-- A timestamp as far ahead with a small counter. -/
theorem update_survives_iff_small :
    Survives (continued (fun _ => noon) 1 (slowNow noon.toNat (noon + 65536).toNat))
      (new (fun _ => noon) halfSecond) (noon + 65536 + 7) := by
  have hpast : Advances (fun _ => noon) (new (fun _ => noon) halfSecond) [] :=
    ⟨fun _ _ => UInt64.le_refl noon, by decide⟩
  have hin : (split (noon + 65536 + 7)).1.toNat ≤
      (physical noon).toNat + (new (fun _ => noon) halfSecond).hlc.maxOffset.toNat := by decide
  have hiff := update_survives_iff (p := new (fun _ => noon) halfSecond) rfl hpast (by decide)
    (by decide) (UInt64.le_refl noon) hin
  refine hiff.mpr (.inr (.inl (by decide))) _ ?_ (by decide) ⟨?_, by decide⟩
  · intro n hn
    exact continued_before _ 1 hn
  · exact continued_steady _ 1 (slowNow_lt (by decide) (by decide)) (slowNow_mono (by decide))
      Nat.one_pos (by decide)

end Scout.Clock
