import Scout.Sessions.System
import Scout.Partitions.Executable

/-!
What a step of the system can do, and in particular where the Ready flag of a replica
comes from: a report that a tracker has recorded, or a published state that it has read.
-/

namespace Scout.Sessions

open Lib Control

/-! ## Ready replicas of the state machine -/

def ReadyOnly (R : Nat → String → Prop) (pid : Nat) (part : Partition) : Prop :=
  ∀ name r, part.replicas.get name = some r → r.ready = true → R pid name

theorem updateStatus_ready {part : Partition} {u : Control.PartitionStatus} {name : String}
    {r : Replica} (h : (part.updateStatus u).replicas.get name = some r) (hr : r.ready = true) :
    part.replicas.get name = some r ∨ ∃ x, u.replicas.lookup name = some x ∧ x.ready = true := by
  refine List.foldlRecOn (motive := fun rs : GoMap String Replica => rs.get name = some r →
    part.replicas.get name = some r ∨ ∃ x, u.replicas.lookup name = some x ∧ x.ready = true)
    u.replicas.entries _ .inl ?_ h
  rintro rs ih ⟨n, x⟩ hx hg
  rw [updateReplica_get] at hg
  split at hg
  · next hn =>
    obtain ⟨r₀, _, rfl⟩ := Option.map_eq_some_iff.mp hg
    exact .inr ⟨x, hn ▸ (mem_entries_iff _ _ _).mp hx, hr⟩
  · exact ih hg

theorem readyOnly_survives (S : Nat → Prop) (R : Nat → String → Prop) :
    Survives S (ReadyOnly R) fun cmd => ∀ pid name, Reports cmd pid name → R pid name where
  empty _ part hnone name r hr := by
    rw [hnone] at hr
    cases hr
  same _ part part' hsame h name r hr := by
    rw [hsame] at hr
    exact h name r hr
  added _ part part' _ _ _ ha _ _ h name r hr hready := by
    rw [ha.get] at hr
    split at hr
    · cases hr
      cases hready
    · exact h name r hr hready
  updated _ part part' _ replica _ _ hu _ h name r hr hready := by
    obtain ⟨r₀, hr₀, hget⟩ := hu.get
    rw [hget] at hr
    split at hr
    · next hn =>
      cases hr
      exact hn ▸ h replica r₀ hr₀ hready
    · exact h name r hr hready
  removed _ part part' _ hd h name r hr hready := by
    rw [hd.get] at hr
    split at hr
    · cases hr
    · exact h name r hr hready
  reported cmd q u part hc hu h name r hr hready := by
    rcases updateStatus_ready hr hready with hold | ⟨x, hx, hxr⟩
    · exact h name r hold hready
    · exact hc q name ⟨u, x, hu, hx, hxr⟩

/-! ## Steps -/

namespace System

def LeavingAt (s : System) (pid : Nat) (name : String) : Prop :=
  ∃ f p r, f ∈ s.views ∧ f.partitions = some p ∧ replicaAt p.items pid name = some r ∧
    r.state = .leaving

def Tracked (s : System) (pid : Nat) (name : String) : Prop :=
  ∃ t, s.tracker = some t ∧ t.Ready pid name

end System

inductive Proceeds (s : System) (e : Event) : System → Prop
  | idle : Proceeds s e s
  | submit (payload : Payload) (hs : ∀ cmd, payload ≠ .updateStatus cmd)
      (ha : ∀ cmd, payload ≠ .updateAssignments cmd) :
      Proceeds s e { s with submitted := s.submitted ++ [payload] }
  | advance (a : Step) (f : Fsm) (rest : List Payload) (hrest : rest ⊆ s.submitted)
      (ha : ∀ payload, a.payload = some payload → payload ∈ s.submitted)
      (hf : Control.step s.fsm a = some f) :
      Proceeds s e { s with submitted := rest, fsm := f, views := f :: s.views }
  | track (t : StatusTracker)
      (ht : ∀ pid name, t.Ready pid name → s.Tracked pid name ∨ ∃ view p,
        (e = .lead view ∨ e = .syncPartitions view) ∧ s.partitionsAt view = some p ∧
          ReadyAt p.items pid name) :
      Proceeds s e { s with tracker := some t }
  | deliver (k : Nat) (now : Time) (x : Sent) (t : StatusTracker) (he : e = .deliver k now)
      (hx : s.sent[k]? = some x)
      (ht : ∀ pid name, t.Ready pid name → s.Tracked pid name ∨
        x.pid = pid ∧ x.status.name = name ∧ x.status.ready = true) :
      Proceeds s e { s with recorded := x :: s.recorded, tracker := some t }
  | write (o : Option UpdateStatus) (t : StatusTracker)
      (ht : ∀ pid name, t.Ready pid name → s.Tracked pid name)
      (ho : ∀ cmd ∈ o, ∀ pid name, Reports cmd pid name → s.Tracked pid name) :
      Proceeds s e { s with
        tracker := some t
        submitted := s.submitted ++ (o.map Payload.updateStatus).toList }
  | assign (servers partitions : Nat) (config : Partitions.Config) (ch : Partitions.Choices)
      (cmd : UpdateAssignments)
      (h : s.updateAssignments servers partitions config ch = some cmd) :
      Proceeds s e { s with submitted := s.submitted ++ [.updateAssignments cmd] }
  | host (pid : Nat) (name : String) (o : Option Instance)
      (ho : ∀ x ∈ o, s.instances.lookup (pid, name) = some x ∨
        x ≠ .leaving true ∧ (x.isLeaving = true → s.LeavingAt pid name))
      (hn : ∀ x ∈ o, x.isLeaving = false →
        (∃ y, s.instances.lookup (pid, name) = some y ∧ y.isLeaving = false) ∨
        ∃ view started p r, e = .configure view pid name started ∧
          s.partitionsAt view = some p ∧ replicaAt p.items pid name = some r ∧
          r.state ≠ .leaving) :
      Proceeds s e (s.setInstance pid name o)
  | cleanup (pid : Nat) (name : String) (x : Instance)
      (hx : s.instances.lookup (pid, name) = some x) (hl : x.isLeaving = true) :
      Proceeds s e { s.setInstance pid name (some (.leaving true)) with
        cleaned := (pid, name) :: s.cleaned }
  | report (pid : Nat) (name : String) (isLeader : Bool)
      (leaderTerm commitedIndex appliedIndex : Nat) (x : Instance)
      (hx : s.instances.lookup (pid, name) = some x) :
      Proceeds s e { s with
        sent := s.sent ++
          [⟨pid, x.getStatus name isLeader leaderTerm commitedIndex appliedIndex, x⟩] }

section Steps

variable {s s' : System} {e : Event}

theorem partitionsAt_eq_some {view : Nat} {p : Control.Partitions}
    (h : s.partitionsAt view = some p) : ∃ f ∈ s.views, f.partitions = some p := by
  obtain ⟨f, hf, hp⟩ := Option.bind_eq_some_iff.mp h
  exact ⟨f, List.mem_of_getElem? hf, hp⟩

theorem track_proceeds {f : StatusTracker → Option StatusTracker} (h : s.track f = some s')
    (hf : ∀ t t', f t = some t' → ∀ pid name, t'.Ready pid name → t.Ready pid name ∨
      ∃ view p, (e = .lead view ∨ e = .syncPartitions view) ∧ s.partitionsAt view = some p ∧
        ReadyAt p.items pid name) : Proceeds s e s' := by
  obtain ⟨t, ht, h⟩ := Option.bind_eq_some_iff.mp h
  obtain ⟨t', ht', h⟩ := Option.bind_eq_some_iff.mp h
  cases h
  refine .track t' fun pid name hr => (hf t t' ht' pid name hr).imp_left fun hr => ?_
  exact ⟨t, ht, hr⟩

theorem transitionToState_cases {old o : Option Instance} {state : ReplicaState} {started : Bool}
    (h : transitionToState old state started = some o) {x : Instance} (hx : x ∈ o) :
    old = some x ∨ x ≠ .leaving true ∧ (x.isLeaving = true → state = .leaving) := by
  cases state with
  | stopped =>
    cases h
    cases hx
  | joining =>
    rcases old with _ | (b | _ | b) <;> cases h <;> cases hx
    · exact .inr ⟨nofun, nofun⟩
    · exact .inl rfl
  | voter | nonVoter =>
    cases started <;> rcases old with _ | (b | _ | b) <;> cases h <;> cases hx
    · exact .inl rfl
    · exact .inr ⟨nofun, nofun⟩
    · exact .inr ⟨nofun, nofun⟩
    · exact .inl rfl
  | leaving =>
    rcases old with _ | (b | _ | b) <;> cases h <;> cases hx
    · exact .inr ⟨nofun, fun _ => rfl⟩
    · exact .inr ⟨nofun, fun _ => rfl⟩
    · exact .inr ⟨nofun, fun _ => rfl⟩
    · exact .inl rfl
  | other n => cases h

theorem transitionToState_leaving {old o : Option Instance} {started : Bool}
    (h : transitionToState old .leaving started = some o) {x : Instance} (hx : x ∈ o) :
    x.isLeaving = true := by
  rcases old with _ | (b | _ | b) <;> cases h <;> cases hx <;> rfl

theorem step_proceeds (h : step s e = some s') : Proceeds s e s' := by
  cases e with
  | submit payload =>
    cases payload with
    | bootstrap | register | initAssignments =>
      cases h
      exact .submit _ (fun _ => by simp) (fun _ => by simp)
    | updateStatus | updateAssignments => cases h
  | apply k index appendedAt =>
    obtain ⟨payload, hk, h⟩ := Option.bind_eq_some_iff.mp h
    obtain ⟨f, hf, rfl⟩ := Option.map_eq_some_iff.mp h
    refine .advance _ f _ (List.eraseIdx_subset) (fun payload' hp => ?_) hf
    cases hp
    exact List.mem_of_getElem? hk
  | restore =>
    change s.advance .restore = some s' at h
    obtain ⟨f, hf, rfl⟩ := Option.map_eq_some_iff.mp h
    exact .advance .restore f s.submitted (List.Subset.refl _) (fun _ hp => by cases hp) hf
  | lead view =>
    obtain ⟨servers, _, h⟩ := Option.bind_eq_some_iff.mp h
    obtain ⟨p, hp, h⟩ := Option.bind_eq_some_iff.mp h
    cases h
    exact .track _ fun pid name hr => .inr ⟨view, p, .inl rfl, hp, newStatusTracker_ready hr⟩
  | syncServers view =>
    obtain ⟨servers, _, h⟩ := Option.bind_eq_some_iff.mp h
    refine track_proceeds h fun t t' ht pid name hr => ?_
    cases ht
    exact .inl hr
  | syncPartitions view =>
    obtain ⟨p, hp, h⟩ := Option.bind_eq_some_iff.mp h
    refine track_proceeds h fun t t' ht pid name hr => ?_
    cases ht
    exact (syncPartitions_ready hr).imp_right fun hr => ⟨view, p, .inr rfl, hp, hr⟩
  | newSession sid address now =>
    refine track_proceeds h fun t t' ht pid name hr => .inl ?_
    cases ht
    unfold StatusTracker.recordNewSession at hr
    split at hr <;> exact hr
  | received sid now =>
    refine track_proceeds h fun t t' ht pid name hr => .inl ?_
    cases ht
    unfold StatusTracker.recordSessionReceived at hr
    split at hr <;> exact hr
  | deliver k now =>
    obtain ⟨x, hx, h⟩ := Option.bind_eq_some_iff.mp h
    obtain ⟨t, ht, h⟩ := Option.bind_eq_some_iff.mp h
    obtain ⟨t', ht', h⟩ := Option.bind_eq_some_iff.mp h
    cases h
    obtain ⟨y, hy, rfl⟩ := Option.map_eq_some_iff.mp ht'
    rw [recordReplicaStatus, List.foldlM_cons] at hy
    obtain ⟨z, hz, hy⟩ := Option.bind_eq_some_iff.mp hy
    cases hy
    refine .deliver k now x y.1 rfl hx fun pid name hr => ?_
    exact (recordPartition_ready hz hr).imp_left fun hr => ⟨t, ht, hr⟩
  | write succeeded =>
    obtain ⟨t, ht, h⟩ := Option.bind_eq_some_iff.mp h
    cases h
    refine .write _ _ (fun pid name hr => ⟨t, ht, ?_⟩) fun cmd hcmd pid name hr => ⟨t, ht, ?_⟩
    · exact (writeLatestStatus_ready rfl).1 hr
    · exact (writeLatestStatus_ready rfl).2 cmd hcmd hr
  | assign servers partitions config ch =>
    obtain ⟨cmd, hcmd, h⟩ := Option.bind_eq_some_iff.mp h
    cases h
    by_cases he : cmd.isEmpty = true
    · rw [if_pos he]
      exact .idle
    · rw [if_neg he]
      exact .assign servers partitions config ch cmd hcmd
  | configure view pid name started =>
    obtain ⟨p, hp, h⟩ := Option.bind_eq_some_iff.mp h
    obtain ⟨r, hr, h⟩ := Option.bind_eq_some_iff.mp h
    obtain ⟨o, ho, h⟩ := Option.bind_eq_some_iff.mp h
    cases h
    refine .host pid name o (fun x hx => (transitionToState_cases ho hx).imp_right fun hc => ?_)
      fun x hx hl => .inr ⟨view, started, p, r, rfl, hp, hr, ?_⟩
    · obtain ⟨f, hf, hp⟩ := partitionsAt_eq_some hp
      exact ⟨hc.1, fun hl => ⟨f, p, r, hf, hp, hr, hc.2 hl⟩⟩
    · intro hs
      rw [hs] at ho
      rw [transitionToState_leaving ho hx] at hl
      cases hl
  | stop pid name =>
    cases h
    exact .host pid name none (fun _ hx => by cases hx) fun _ hx => by cases hx
  | restored pid name =>
    simp only [step] at h
    split at h
    · next b hb =>
      cases h
      refine .host pid name _ (fun x hx => .inr ?_) fun _ _ _ => .inl ⟨_, hb, rfl⟩
      cases hx
      exact ⟨by simp, fun hl => by cases hl⟩
    · cases h
    · cases h
    · cases h
  | cleanup pid name =>
    simp only [step] at h
    split at h
    · next b hb =>
      cases h
      exact .cleanup pid name (.leaving b) hb rfl
    · cases h
    · cases h
    · cases h
  | report pid name isLeader leaderTerm commitedIndex appliedIndex =>
    obtain ⟨x, hx, h⟩ := Option.bind_eq_some_iff.mp h
    cases h
    exact .report pid name isLeader leaderTerm commitedIndex appliedIndex x hx

end Steps

/-! ## What stays -/

section Stays

variable {s s' : System} {e : Event} {pid : Nat} {name : String}

@[simp] theorem setInstance_views (o : Option Instance) :
    (s.setInstance pid name o).views = s.views := by
  cases o <;> rfl

theorem Proceeds.grows (h : Proceeds s e s') :
    s.views ⊆ s'.views ∧ s.cleaned ⊆ s'.cleaned ∧ s.recorded ⊆ s'.recorded ∧ s.sent ⊆ s'.sent := by
  cases h with
  | idle | submit | advance | track | deliver | write | assign | report =>
    exact ⟨by simp, by simp, by simp, by simp⟩
  | host pid name o =>
    cases o <;> exact ⟨by simp, by simp [System.setInstance], by simp [System.setInstance],
      by simp [System.setInstance]⟩
  | cleanup => exact ⟨by simp, by simp, by simp [System.setInstance], by simp [System.setInstance]⟩

theorem System.LeavingAt.mono (h : s.LeavingAt pid name) (hs : s.views ⊆ s'.views) :
    s'.LeavingAt pid name := by
  obtain ⟨f, p, r, hf, rest⟩ := h
  exact ⟨f, p, r, hs hf, rest⟩

end Stays

end Scout.Sessions
