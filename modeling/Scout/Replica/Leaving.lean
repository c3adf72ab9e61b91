import Scout.Lib.Runs

/-!
A replica that leaves its partition (`leaving.go`): it removes the Raft group, drops the
partition from the storage engine through `DBBreaker`, and reports ready. The process may
crash between any two steps; after a restart the control plane still lists the replica as
leaving, so the cleanup starts again.
-/

namespace Scout.Leaving

open Lib

/-- What the engines know of the partition. A column family of RocksDB has a handle in the
map of the process, which is filled when the database is opened, and a place on disk. -/
inductive Engine where
  | inmem (present : Bool)
  | rocks (known onDisk : Bool)
  deriving DecidableEq, Repr

/-- How `DropColumnFamily` ends; a call that fails may have removed the column family. -/
inductive DropOutcome where
  | dropped
  | failed (gone : Bool) (err : String)
  deriving DecidableEq, Repr

/-- `DropPartition` of the two engines. RocksDB takes the handle out of the map first. -/
def Engine.dropPartition (pid : Nat) : Engine → DropOutcome → Engine × Option String
  | .inmem _, _ => (.inmem false, none)
  | .rocks false onDisk, _ => (.rocks false onDisk, some "not found")
  | .rocks true _, .dropped => (.rocks false false, none)
  | .rocks true onDisk, .failed gone err =>
    (.rocks false (onDisk && !gone),
      some ("failed to drop column family for partition " ++ toString pid ++ " error " ++ err))

/-- A new process: memory is lost, the column families are found on disk. -/
def Engine.restart : Engine → Engine
  | .inmem _ => .inmem false
  | .rocks _ onDisk => .rocks onDisk onDisk

/-- `dropping n`: the Raft group is gone and `RetryE` has `n` attempts left. -/
inductive Phase where
  | stopped
  | cleaning
  | dropping (attempts : Nat)
  | ready
  | shutdown (message : String)
  deriving DecidableEq, Repr

structure Node where
  engine : Engine
  phase : Phase
  deriving DecidableEq, Repr

inductive Event where
  /-- `multiraft.Drop`; after an error the main loop waits and calls `cleanup` again. -/
  | raftDrop (ok : Bool)
  | attempt (outcome : DropOutcome)
  | crash
  | start

section Cleanup

variable (pid retries : Nat)

/-- `RetryPolicy.MaxAttempts` is at least one. -/
def Node.step (s : Node) : Event → Option Node
  | .raftDrop ok =>
    match s.phase with
    | .cleaning => some (if ok then { s with phase := .dropping (retries + 1) } else s)
    | _ => none
  | .attempt outcome =>
    match s.phase with
    | .dropping (n + 1) =>
      let r := s.engine.dropPartition pid outcome
      some { engine := r.1,
             phase := match r.2 with
               | none => .ready
               | some err =>
                 if n = 0 then .shutdown
                   ("DBBreaker.DropPartition " ++ toString pid ++ " failed with error " ++ err)
                 else .dropping n }
    | _ => none
  | .crash => some { s with phase := .stopped }
  | .start =>
    match s.phase with
    | .stopped | .shutdown _ => some ⟨s.engine.restart, .cleaning⟩
    | _ => none

/-- With RocksDB, a drop is attempted only while the column family is there, and the call
does not fail. -/
def Droppable (s : Node) : Event → Prop
  | .attempt outcome =>
    match s.engine with
    | .inmem _ => True
    | .rocks known _ => known = true ∧ outcome = .dropped
  | _ => True

instance (s : Node) : (e : Event) → Decidable (Droppable s e)
  | .attempt outcome =>
    match h : s.engine with
    | .inmem _ => isTrue (by simp [Droppable, h])
    | .rocks known _ =>
      decidable_of_iff (known = true ∧ outcome = .dropped) (by simp [Droppable, h])
  | .raftDrop _ | .crash | .start => isTrue trivial

/-- What is left to do when no more faults happen. -/
def Node.rest (s : Node) : List Event :=
  match s.phase with
  | .stopped | .shutdown _ => [.start, .raftDrop true, .attempt .dropped]
  | .cleaning => [.raftDrop true, .attempt .dropped]
  | .dropping _ => [.attempt .dropped]
  | .ready => []

/-- No shutdown so far, and an attempt is left while the partition is being dropped. -/
def Sound (s : Node) : Prop :=
  match s.phase with
  | .shutdown _ => False
  | .dropping n => 0 < n
  | _ => True

theorem attempt_ready {s : Node} {outcome : DropOutcome} (h : Droppable s (.attempt outcome))
    {n : Nat} (hn : s.phase = .dropping (n + 1)) :
    ∃ engine, s.step pid retries (.attempt outcome) = some ⟨engine, .ready⟩ := by
  obtain ⟨engine, phase⟩ := s
  cases hn
  cases engine with
  | inmem present => exact ⟨_, rfl⟩
  | rocks known onDisk =>
    obtain ⟨rfl, rfl⟩ := h
    exact ⟨_, rfl⟩

theorem Sound.step {s s' : Node} {e : Event} (hs : Sound s) (he : Droppable s e)
    (h : s.step pid retries e = some s') : Sound s' := by
  cases e with
  | raftDrop ok =>
    rw [Node.step] at h
    split at h
    · cases h
      split
      · exact Nat.succ_pos retries
      · exact hs
    · cases h
  | attempt outcome =>
    obtain ⟨n, hn⟩ : ∃ n, s.phase = .dropping (n + 1) := by
      rw [Node.step] at h
      split at h
      · rename_i n hn
        exact ⟨n, hn⟩
      · cases h
    obtain ⟨engine, hready⟩ := attempt_ready pid retries he hn
    rw [hready] at h
    cases h
    trivial
  | crash =>
    cases h
    trivial
  | start =>
    rw [Node.step] at h
    split at h
    · cases h
      trivial
    · cases h
      trivial
    · cases h

theorem Sound.completes {s : Node} (hs : Sound s)
    (hok : StepsMeet (Node.step pid retries) Droppable s s.rest) :
    ∃ engine, runSteps (Node.step pid retries) s s.rest = some ⟨engine, .ready⟩ := by
  obtain ⟨engine, phase⟩ := s
  cases phase with
  | stopped =>
    obtain ⟨engine', hready⟩ := attempt_ready pid retries (n := retries) hok.2.2.1 rfl
    exact ⟨engine', by simp [Node.rest, runSteps, Node.step] at hready ⊢; exact hready⟩
  | cleaning =>
    obtain ⟨engine', hready⟩ := attempt_ready pid retries (n := retries) hok.2.1 rfl
    exact ⟨engine', by simp [Node.rest, runSteps, Node.step] at hready ⊢; exact hready⟩
  | dropping n =>
    cases n with
    | zero => exact absurd hs (Nat.lt_irrefl 0)
    | succ n =>
      obtain ⟨engine', hready⟩ := attempt_ready pid retries (n := n) hok.1 rfl
      exact ⟨engine', by simp [Node.rest, runSteps, hready]⟩
  | ready => exact ⟨engine, rfl⟩
  | shutdown message => exact hs.elim

/-- **Leaving survives crashes and restarts.** Along every run in which each drop finds the
partition, `DBBreaker` never shuts the process down, and whenever the faults stop the
replica is marked ready. -/
theorem leaving_completes {engine : Engine} {es : List Event} {s : Node}
    (hok : StepsMeet (Node.step pid retries) Droppable ⟨engine, .cleaning⟩ es)
    (hrun : runSteps (Node.step pid retries) ⟨engine, .cleaning⟩ es = some s) :
    (∀ message, s.phase ≠ .shutdown message) ∧
    (StepsMeet (Node.step pid retries) Droppable s s.rest →
      ∃ engine', runSteps (Node.step pid retries) s s.rest = some ⟨engine', .ready⟩) := by
  have h₀ : Sound ⟨engine, .cleaning⟩ := trivial
  have hs : Sound s := runSteps_invariant (Node.step pid retries) Sound
    (fun _ _ _ hs he h => hs.step pid retries he h) h₀ hok hrun
  refine ⟨?_, hs.completes pid retries⟩
  intro message hm
  rw [Sound, hm] at hs
  exact hs

theorem step_inmem {s s' : Node} {e : Event} (hs : ∃ present, s.engine = .inmem present)
    (h : s.step pid retries e = some s') : ∃ present, s'.engine = .inmem present := by
  obtain ⟨present, hp⟩ := hs
  cases e with
  | raftDrop ok =>
    rw [Node.step] at h
    split at h
    · cases h
      split <;> exact ⟨present, hp⟩
    · cases h
  | attempt outcome =>
    rw [Node.step] at h
    split at h
    · cases h
      exact ⟨false, by rw [hp]; rfl⟩
    · cases h
  | crash =>
    cases h
    exact ⟨present, hp⟩
  | start =>
    rw [Node.step] at h
    split at h
    · cases h
      exact ⟨false, by rw [hp]; rfl⟩
    · cases h
      exact ⟨false, by rw [hp]; rfl⟩
    · cases h

/-- The in-memory engine meets the condition whatever happens. -/
theorem inmem_droppable (es : List Event) {s : Node} (hs : ∃ present, s.engine = .inmem present) :
    StepsMeet (Node.step pid retries) Droppable s es := by
  induction es generalizing s with
  | nil => trivial
  | cons e es ih =>
    constructor
    · obtain ⟨present, hp⟩ := hs
      cases e with
      | attempt outcome => simp [Droppable, hp]
      | _ => trivial
    · cases h : s.step pid retries e with
      | none => trivial
      | some s' => exact ih (step_inmem pid retries hs h)

end Cleanup

/-! ## Crash loops with RocksDB -/

/-- The process crashes after the drop and before the control plane has seen the report:
the cleanup of every later process ends it. -/
theorem leaving_dropped_twice : runSteps (Node.step 1 2) ⟨.rocks true true, .cleaning⟩
      [.raftDrop true, .attempt .dropped, .crash, .start, .raftDrop true, .attempt .dropped,
        .attempt .dropped, .attempt .dropped] = some ⟨.rocks false false,
        .shutdown "DBBreaker.DropPartition 1 failed with error not found"⟩ ∧
    runSteps (Node.step 1 2) ⟨.rocks true true, .cleaning⟩
      [.raftDrop true, .attempt (.failed false "busy"), .attempt .dropped, .attempt .dropped] =
      some ⟨.rocks false true,
        .shutdown "DBBreaker.DropPartition 1 failed with error not found"⟩ := by
  decide

/-- RocksDB with a crash before the drop; the in-memory engine with one after it. -/
theorem leaving_completes_crashes : (∃ s, runSteps (Node.step 1 2) ⟨.rocks true true, .cleaning⟩
        [.raftDrop true, .crash, .start, .raftDrop false] = some s ∧
      (∀ message, s.phase ≠ .shutdown message) ∧
      ∃ engine, runSteps (Node.step 1 2) s s.rest = some ⟨engine, .ready⟩) ∧
    ∃ s, runSteps (Node.step 1 2) ⟨.inmem true, .cleaning⟩
        [.raftDrop true, .attempt .dropped, .crash] = some s ∧
      (∀ message, s.phase ≠ .shutdown message) ∧
      ∃ engine, runSteps (Node.step 1 2) s s.rest = some ⟨engine, .ready⟩ := by
  constructor
  · have hok : StepsMeet (Node.step 1 2) Droppable ⟨.rocks true true, .cleaning⟩
        [.raftDrop true, .crash, .start, .raftDrop false] := by decide
    have h := leaving_completes 1 2 hok rfl
    exact ⟨_, rfl, h.1, h.2 (by decide)⟩
  · have h := leaving_completes 1 2 (inmem_droppable 1 2
      [.raftDrop true, .attempt .dropped, .crash] ⟨true, rfl⟩) rfl
    exact ⟨_, rfl, h.1, h.2 (inmem_droppable 1 2 _ ⟨false, rfl⟩)⟩

end Scout.Leaving
