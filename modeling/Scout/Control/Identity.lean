import Scout.Control.Execution
import Scout.Lib.Text

/-!
Server ids and replica names over whole runs: what `Register` hands out, and the
names that new replicas get. Neither is given out twice, also not after the replica
is removed or the state machine is restored from a snapshot.
-/

namespace Scout.Control

open Lib

/-! ## The servers -/

structure SameRegistry (s s' : Servers) : Prop where
  lastId : s'.lastId = s.lastId
  tokens : ∀ token, s'.tokens.get token = s.tokens.get token
  items : ∀ id, (s'.items.get id).isSome = (s.items.get id).isSome

theorem SameRegistry.refl (s : Servers) : SameRegistry s s := ⟨rfl, fun _ => rfl, fun _ => rfl⟩

variable {s : Servers}

theorem updateServersStatus_same {s' : Option Servers} {us : List (Nat × ServerStatus)}
    (h : updateServersStatus (some s) us = .ok s') : ∃ s₁, s' = some s₁ ∧ SameRegistry s s₁ := by
  unfold updateServersStatus at h
  split at h
  · cases h
    exact ⟨s, rfl, .refl s⟩
  · cases h
    refine ⟨_, rfl, rfl, fun _ => rfl, fun id => ?_⟩
    refine List.foldlRecOn (motive := fun m : GoMap Nat Server =>
      (m.get id).isSome = (s.items.get id).isSome) _ _ rfl fun m hm e _ => ?_
    have ht := congrArg Option.isSome (updateServer_type m e.1 e.2 id)
    rw [Option.isSome_map, Option.isSome_map] at ht
    exact ht.trans hm

variable {cmd : Register}

theorem registerNew_ok {s' : Servers} {t : Time} {r : Result}
    (h : registerNew s t cmd = .ok (s', r)) : s'.lastId = nextServerId s ∧
      (∀ id, (s'.items.get id).isSome = (decide (id = nextServerId s) || (s.items.get id).isSome)) ∧
      (∀ token, s'.tokens.get token =
        if token = cmd.token then some (nextServerId s) else s.tokens.get token) ∧
      ∃ name, r = .registered (nextServerId s) name := by
  obtain ⟨items, hi, h⟩ := bind_eq_ok.mp h
  obtain ⟨tokens, ht, h⟩ := bind_eq_ok.mp h
  cases h
  refine ⟨rfl, fun id => ?_, GoMap.get_of_set (deref_eq_ok.mp ht), _, rfl⟩
  rw [GoMap.get_of_set (deref_eq_ok.mp hi)]
  by_cases he : id = nextServerId s
  · simp [he]
  · simp [he]

variable {f f' : Fsm} {e : Entry}

/-- An entry is rejected and changes only the index, or its payload is applied. -/
theorem apply_cases {a : Answer} (h : apply f e = some (f', a)) :
    (∃ err, a = .error err ∧ f' = { f with index := e.index }) ∨
      ∃ payload r f₁, e.data.bind Command.payload = some payload ∧ a = .ok r ∧
        applyPayload f e.appendedAt payload = .ok (f₁, r) ∧
        f' = { f₁ with index := e.index, version := f₁.version + 1 } := by
  unfold apply at h
  cases hd : e.data with
  | none =>
    rw [hd] at h
    cases h
    exact .inl ⟨_, rfl, rfl⟩
  | some cmd =>
    rw [hd] at h
    dsimp only at h
    split at h
    · next f₁ r hc =>
      cases h
      obtain ⟨_, payload, f₂, hp, h₂, rfl⟩ := applyCommand_ok.mp hc
      exact .inr ⟨payload, r, f₂, hp, rfl, h₂, rfl⟩
    · cases h
      exact .inl ⟨_, rfl, rfl⟩
    · cases h

def Entry.register (e : Entry) : Option Register :=
  match e.data.bind Command.payload with
  | some (.register cmd) => some cmd
  | _ => none

theorem Entry.register_of_payload (h : e.data.bind Command.payload = some (.register cmd)) :
    e.register = some cmd := by
  unfold Entry.register
  rw [h]

theorem apply_servers {a : Answer} (hs : f.servers = some s) (h : apply f e = some (f', a)) :
    (f.clusterName = "" ∧ ∃ cmd : Bootstrap,
      f'.servers = some (bootstrapServers e.appendedAt cmd.servers)) ∨
    f'.clusterName = f.clusterName ∧ ∃ s', f'.servers = some s' ∧
      (SameRegistry s s' ∨ ∃ cmd r, e.register = some cmd ∧ s.tokens.get cmd.token = none ∧
        registerNew s e.appendedAt cmd = .ok (s', r) ∧ a = .ok r) := by
  rcases apply_cases h with ⟨_, _, rfl⟩ | ⟨payload, r, f₁, hp, rfl, h₁, rfl⟩
  · exact .inr ⟨rfl, s, hs, .inl (.refl s)⟩
  cases payload with
  | bootstrap cmd =>
    change applyBootstrap f _ cmd = _ at h₁
    by_cases hc : f.clusterName = ""
    · rw [applyBootstrap, if_neg (not_not.mpr hc)] at h₁
      cases h₁
      exact .inl ⟨hc, cmd, rfl⟩
    · rw [applyBootstrap, if_pos hc] at h₁
      cases h₁
      exact .inr ⟨rfl, s, hs, .inl (.refl s)⟩
  | register cmd =>
    rcases applyRegister_ok h₁ with rfl | ⟨s₀, s', hs₀, ht, hr, rfl⟩
    · exact .inr ⟨rfl, s, hs, .inl (.refl s)⟩
    · rw [hs] at hs₀
      cases hs₀
      exact .inr ⟨rfl, s', rfl, .inr ⟨cmd, r, Entry.register_of_payload hp, ht, hr, rfl⟩⟩
  | updateStatus cmd =>
    obtain ⟨s', hs', h₁⟩ := bind_eq_ok.mp h₁
    obtain ⟨p', _, h₁⟩ := bind_eq_ok.mp h₁
    cases h₁
    rw [hs] at hs'
    obtain ⟨s₁, rfl, hsame⟩ := updateServersStatus_same hs'
    exact .inr ⟨rfl, s₁, rfl, .inl hsame⟩
  | initAssignments cmd =>
    obtain ⟨p, items, _, _, _, _, rfl⟩ := applyInitAssignments_ok h₁
    exact .inr ⟨rfl, s, hs, .inl (.refl s)⟩
  | updateAssignments cmd =>
    obtain ⟨p, items, _, _, _, _, _, rfl, _⟩ := applyUpdateAssignments_ok.mp h₁
    exact .inr ⟨rfl, s, hs, .inl (.refl s)⟩

theorem apply_registered {id : Nat} {name : String} (hs : f.servers = some s)
    (he : e.register = some cmd) (h : apply f e = some (f', .ok (.registered id name))) :
    s.tokens.get cmd.token = some id ∧ f'.servers = f.servers ∨
      s.tokens.get cmd.token = none ∧ ∃ s', f'.servers = some s' ∧
        registerNew s e.appendedAt cmd = .ok (s', .registered id name) := by
  rcases apply_cases h with ⟨_, ha, _⟩ | ⟨payload, r, f₁, hp, ha, h₁, rfl⟩
  · cases ha
  cases ha
  unfold Entry.register at he
  rw [hp] at he
  obtain rfl : payload = .register cmd := by
    cases payload with
    | register cmd' =>
      cases he
      rfl
    | _ => cases he
  change applyRegister f _ cmd = _ at h₁
  obtain ⟨s₁, hs₁, h₁⟩ := bind_eq_ok.mp h₁
  obtain rfl : s = s₁ := Option.some.inj (hs.symm.trans (deref_eq_ok.mp hs₁))
  cases ht : s.tokens.get cmd.token with
  | some id' =>
    rw [ht] at h₁
    obtain ⟨server, _, h₁⟩ := bind_eq_ok.mp h₁
    obtain ⟨_, h₁⟩ := rejectIf_bind.mp h₁
    cases h₁
    exact .inl ⟨rfl, rfl⟩
  | none =>
    rw [ht] at h₁
    obtain ⟨⟨s', r'⟩, hr, h₁⟩ := bind_eq_ok.mp h₁
    cases h₁
    exact .inr ⟨rfl, s', rfl, hr⟩

/-! ## Server ids -/

/-- The token and the id of a registration that is answered. -/
def handedOut (f : Fsm) : Step → List (String × Nat)
  | .apply e =>
    match e.register, apply f e with
    | some cmd, some (_, .ok (.registered id _)) => [(cmd.token, id)]
    | _, _ => []
  | .restore => []

/-- Ids are counted up, and each belongs to one token at most. -/
structure RegistryOk (handed : List (String × Nat)) (s : Servers) : Prop where
  known : ∀ token id, s.tokens.get token = some id → (s.items.get id).isSome = true
  below : ∀ id, (s.items.get id).isSome = true → id ≤ s.lastId
  inj : ∀ token token' id, s.tokens.get token = some id → s.tokens.get token' = some id →
    token = token'
  handed : ∀ token id, (token, id) ∈ handed ↔ s.tokens.get token = some id

/-- The last id is `n` at most. -/
structure Registry (n : Nat) (handed : List (String × Nat)) (f : Fsm) : Prop where
  named : f.clusterName ≠ ""
  servers : ∃ s, f.servers = some s ∧ s.lastId ≤ n ∧ RegistryOk handed s

variable {handed : List (String × Nat)}

theorem RegistryOk.same {s' : Servers} (h : RegistryOk handed s) (hs : SameRegistry s s') :
    RegistryOk handed s' := by
  refine ⟨fun token id ht => ?_, fun id hi => ?_, fun token token' id ht ht' => ?_,
    fun token id => ?_⟩
  · rw [hs.tokens] at ht
    rw [hs.items]
    exact h.known token id ht
  · rw [hs.items] at hi
    rw [hs.lastId]
    exact h.below id hi
  · rw [hs.tokens] at ht ht'
    exact h.inj token token' id ht ht'
  · rw [hs.tokens]
    exact h.handed token id

theorem RegistryOk.fresh (h : RegistryOk handed s) (hcount : s.lastId + 1 < 2 ^ 64) :
    s.items.get (nextServerId s) = none := by
  have hid : nextServerId s = s.lastId + 1 := Nat.mod_eq_of_lt hcount
  rw [hid]
  cases hg : s.items.get (s.lastId + 1) with
  | none => rfl
  | some server =>
    have hle := h.below (s.lastId + 1) (by rw [hg]; rfl)
    omega

theorem RegistryOk.register {s' : Servers} {t : Time} {r : Result} (h : RegistryOk handed s)
    (hcount : s.lastId + 1 < 2 ^ 64) (ht : s.tokens.get cmd.token = none)
    (hr : registerNew s t cmd = .ok (s', r)) :
    RegistryOk (handed ++ [(cmd.token, nextServerId s)]) s' := by
  obtain ⟨hlast, hitems, htokens, _⟩ := registerNew_ok hr
  have hid : nextServerId s = s.lastId + 1 := Nat.mod_eq_of_lt hcount
  have hfresh : ∀ token, s.tokens.get token ≠ some (nextServerId s) := by
    intro token hk
    have hsome := h.known token _ hk
    rw [h.fresh hcount] at hsome
    cases hsome
  refine ⟨fun token id hk => ?_, fun id hi => ?_, fun token token' id hk hk' => ?_,
    fun token id => ?_⟩
  · rw [hitems]
    rw [htokens] at hk
    split at hk
    · cases hk
      simp
    · rw [h.known token id hk, Bool.or_true]
  · rw [hitems, Bool.or_eq_true, decide_eq_true_eq] at hi
    rw [hlast, hid]
    rcases hi with hi | hi
    · omega
    · have := h.below id hi
      omega
  · rw [htokens] at hk hk'
    split at hk
    · next he =>
      cases hk
      split at hk'
      · next he' => rw [he, he']
      · exact absurd hk' (hfresh token')
    · split at hk'
      · cases hk'
        exact absurd hk (hfresh token)
      · exact h.inj token token' id hk hk'
  · rw [htokens, List.mem_append, List.mem_singleton, h.handed, Prod.mk.injEq]
    by_cases he : token = cmd.token
    · subst he
      simp [ht, eq_comm]
    · simp [he]

theorem Registry.step {n : Nat} {a : Step} (h : Registry n handed f) (hn : n + 1 < 2 ^ 64)
    (hs : Control.step f a = some f') : Registry (n + 1) (handed ++ handedOut f a) f' := by
  obtain ⟨s, hsv, hle, hok⟩ := h.servers
  cases a with
  | restore =>
    cases hs
    refine ⟨h.named, s.wire, by simp [restore, snapshot, hsv], hle.trans (Nat.le_succ n), ?_⟩
    rw [handedOut, List.append_nil]
    exact hok.same ⟨rfl, fun _ => GoMap.get_wire _ _, fun id => by
      rw [show s.wire.items.get id = s.items.get id from GoMap.get_wire _ _]⟩
  | apply e =>
    obtain ⟨⟨f₁, ans⟩, happ, rfl⟩ := Option.map_eq_some_iff.mp hs
    obtain ⟨hname, s', hs', hcase⟩ :=
      (apply_servers hsv happ).resolve_left fun hc => h.named hc.1
    rcases hcase with hsame | ⟨cmd, r, hreg, ht, hr, rfl⟩
    · refine ⟨by rw [hname]; exact h.named, s', hs', ?_, ?_⟩
      · rw [hsame.lastId]
        exact hle.trans (Nat.le_succ n)
      -- a token that is known is answered with its id
      have hknown : ∀ x ∈ handedOut f (.apply e), x ∈ handed := by
        intro x hx
        rw [handedOut] at hx
        split at hx
        · next cmd _ id name hreg happ' =>
          rw [List.mem_singleton] at hx
          subst hx
          rw [hok.handed]
          rcases apply_registered hsv hreg happ' with ⟨ht, _⟩ | ⟨hnone, s₁, hs₁, hr⟩
          · exact ht
          rw [happ] at happ'
          cases happ'
          rw [hs'] at hs₁
          cases hs₁
          obtain ⟨_, _, htokens, _⟩ := registerNew_ok hr
          have hkeep := hsame.tokens cmd.token
          rw [htokens, if_pos rfl, hnone] at hkeep
          cases hkeep
        · cases hx
      have hok' := hok.same hsame
      refine ⟨hok'.known, hok'.below, hok'.inj, fun token id => ?_⟩
      rw [List.mem_append, ← hok'.handed token id]
      exact ⟨fun hm => hm.elim (fun hm => hm) (hknown _), .inl⟩
    · have hcount : s.lastId + 1 < 2 ^ 64 := Nat.lt_of_le_of_lt (Nat.succ_le_succ hle) hn
      obtain ⟨hlast, _, _, name, rfl⟩ := registerNew_ok hr
      have hout : handedOut f (.apply e) = [(cmd.token, nextServerId s)] := by
        rw [handedOut, hreg, happ]
      refine ⟨by rw [hname]; exact h.named, s', hs', ?_, ?_⟩
      · rw [hlast, nextServerId, Nat.mod_eq_of_lt hcount]
        exact Nat.succ_le_succ hle
      · rw [hout]
        exact hok.register hcount ht hr

/-! ## Replica names -/

theorem replicaName_inj_both {q q' n n' : Nat} (h : replicaName q n = replicaName q' n') :
    q = q' ∧ n = n' := by
  have hl : ∀ q n, (replicaName q n).toList =
      'p' :: ((toString q).toList ++ '_' :: 'r' :: (toString n).toList) := by
    intro q n
    rw [replicaName, String.toList_append, String.toList_append, String.toList_append,
      List.append_assoc, List.append_assoc]
    rfl
  have ht := congrArg String.toList h
  rw [hl, hl] at ht
  obtain ⟨hq, hn⟩ := append_cons_inj (not_mem_toString (by decide) q)
    (not_mem_toString (by decide) q') (List.cons.inj ht).2
  exact ⟨toString_toList_inj hq, toString_toList_inj (List.cons.inj hn).2⟩

section Names

variable {α : Type}

def loopNames (op : GoMap Nat Partition → α → Go ApplyError (GoMap Nat Partition)) (pid : α → Nat) :
    GoMap Nat Partition → List α → List String
  | _, [] => []
  | items, x :: xs =>
    match deref (items.get (pid x)) >>= fun part => nextReplicaName items part.id, op items x with
    | .ok (_, name), .ok items' => name :: loopNames op pid items' xs
    | _, _ => []

def payloadNames (appendedAt : Time) (items : GoMap Nat Partition) : Payload → List String
  | .initAssignments cmd => loopNames (initAdd appendedAt) InitAdd.partitionId items cmd.add
  | .updateAssignments cmd => loopNames (addItem appendedAt) Add.partitionId items cmd.add
  | .bootstrap _ | .register _ | .updateStatus _ => []

def createdNames (f : Fsm) : Step → List String
  | .apply e =>
    match apply f e, f.partitions, e.data.bind Command.payload with
    | some (_, .ok _), some p, some payload => payloadNames e.appendedAt p.items payload
    | _, _, _ => []
  | .restore => []

def Fsm.replicaNames (f : Fsm) : List String :=
  match f.partitions with
  | some p => p.items.toList.flatMap fun e => e.2.replicas.toList.map Prod.fst
  | none => []

theorem Fsm.mem_replicaNames {f : Fsm} {name : String} : name ∈ f.replicaNames ↔
    ∃ p q part r, f.partitions = some p ∧ p.items.get q = some part ∧
      part.replicas.get name = some r := by
  unfold Fsm.replicaNames
  cases f.partitions with
  | none => simp
  | some p =>
    simp only [List.mem_flatMap, List.mem_map]
    constructor
    · rintro ⟨⟨q, part⟩, hq, ⟨_, r⟩, hr, rfl⟩
      exact ⟨p, q, part, r, rfl, GoMap.mem_toList.mp hq, GoMap.mem_toList.mp hr⟩
    · rintro ⟨p', q, part, r, hp, hq, hr⟩
      cases hp
      exact ⟨(q, part), GoMap.mem_toList.mpr hq, (name, r), GoMap.mem_toList.mpr hr, rfl⟩

/-- The names created so far are all different, the counters have passed them, and
no replica has another one. -/
structure NamesOk (count : Nat) (created : List String) (items : GoMap Nat Partition) : Prop where
  ok : ItemsOk count items
  nodup : created.Nodup
  counted : ∀ name ∈ created, ∃ q part n, items.get q = some part ∧ n ≤ part.lastReplicaId ∧
    name = replicaName q n
  present : ∀ q part, items.get q = some part → ∀ name r, part.replicas.get name = some r →
    name ∈ created

variable {count : Nat} {created : List String} {items items' : GoMap Nat Partition}

theorem NamesOk.touch {pid : Nat} {R : Partition → Partition → Prop}
    (h : NamesOk count created items) (ht : Touches items items' pid R)
    (hR : ∀ part part', R part part' → Frame part part' ∧ FromOld part part') :
    NamesOk count created items' := by
  refine ⟨h.ok.touch ht fun part part' hn hr => (hR _ _ hr).2.named (hR _ _ hr).1 hn, h.nodup,
    fun name hm => ?_, ht.all h.present fun part part' _ hp hr name r' hg => ?_⟩
  · obtain ⟨q, part, n, hq, hn, rfl⟩ := h.counted name hm
    obtain ⟨part₀, part₀', hg, hr, hi⟩ := ht
    by_cases he : q = pid
    · subst he
      rw [hg] at hq
      cases hq
      refine ⟨q, part₀', n, by rw [hi, if_pos rfl], ?_, rfl⟩
      rw [(hR _ _ hr).1.lastReplicaId]
      exact hn
    · exact ⟨q, part, n, by rw [hi, if_neg he]; exact hq, hn, rfl⟩
  · obtain ⟨r, hg₀, _⟩ := (hR _ _ hr).2 name r' hg
    exact hp name r hg₀

theorem NamesOk.added {pid sid : Nat} {t : Time} {state : ReplicaState} {part : Partition}
    (h : NamesOk count created items) (hg : items.get pid = some part)
    (ht : Touches items items' pid (Added t sid state)) :
    NamesOk count (created ++ [replicaName pid (part.lastReplicaId + 1)]) items' := by
  have hnew : replicaName pid (part.lastReplicaId + 1) ∉ created := by
    intro hm
    obtain ⟨q, part₁, n, hq, hn, he⟩ := h.counted _ hm
    obtain ⟨rfl, rfl⟩ := replicaName_inj_both he
    rw [hg] at hq
    cases hq
    omega
  have hid := h.ok.id part hg
  have hitems := h.ok.touch ht fun _ _ hn ha => ha.named hn
  obtain ⟨part₀, part', hg₀, ha, hi⟩ := ht
  rw [hg] at hg₀
  cases hg₀
  refine ⟨hitems, ?_, fun name hm => ?_, fun q part₁ hq name r hr => ?_⟩
  · rw [List.nodup_append]
    refine ⟨h.nodup, List.nodup_singleton _, fun a ha b hb => ?_⟩
    rw [List.mem_singleton] at hb
    subst hb
    exact fun he => hnew (he ▸ ha)
  · rcases List.mem_append.mp hm with hm | hm
    · obtain ⟨q, part₁, n, hq, hn, rfl⟩ := h.counted name hm
      by_cases he : q = pid
      · subst he
        rw [hg] at hq
        cases hq
        refine ⟨q, part', n, by rw [hi, if_pos rfl], ?_, rfl⟩
        rw [ha.lastReplicaId]
        omega
      · exact ⟨q, part₁, n, by rw [hi, if_neg he]; exact hq, hn, rfl⟩
    · refine ⟨pid, part', part.lastReplicaId + 1, by rw [hi, if_pos rfl], ?_,
        List.mem_singleton.mp hm⟩
      rw [ha.lastReplicaId]
  · rw [List.mem_append, List.mem_singleton]
    rw [hi] at hq
    split at hq
    · cases hq
      rw [ha.get] at hr
      split at hr
      · next he => exact .inr (by rw [he, hid])
      · exact .inl (h.present _ part hg name r hr)
    · exact .inl (h.present q part₁ hq name r hr)

theorem NamesOk.loop {op : GoMap Nat Partition → α → Go ApplyError (GoMap Nat Partition)}
    {pid sid : α → Nat} {state : α → ReplicaState} {t : Time} {xs : List α}
    (hop : ∀ x m m', ItemsOk count m → op m x = .ok m' →
      Touches m m' (pid x) (Added t (sid x) (state x)))
    (h : NamesOk count created items) (hrun : xs.foldlM op items = .ok items') :
    NamesOk count (created ++ loopNames op pid items xs) items' := by
  induction xs generalizing created items with
  | nil =>
    cases hrun
    rw [loopNames, List.append_nil]
    exact h
  | cons x xs ih =>
    rw [List.foldlM_cons] at hrun
    obtain ⟨m, hm, hrun⟩ := bind_eq_ok.mp hrun
    have ht := hop x items m h.ok hm
    obtain ⟨part, _, hg, _⟩ := id ht
    have hnext := ih (h.added hg ht) hrun
    have hid : part.id = pid x := h.ok.id part hg
    have hname : (deref (items.get (pid x)) >>= fun part => nextReplicaName items part.id :
        Go ApplyError _) = .ok (items.store (pid x)
          { part with lastReplicaId := part.lastReplicaId + 1 },
          replicaName (pid x) (part.lastReplicaId + 1)) := by
      rw [hg]
      change nextReplicaName items part.id = _
      unfold nextReplicaName
      rw [hid, hg]
      change Except.ok (_, replicaName part.id _) = _
      rw [hid]
    rw [loopNames, hname, hm]
    rw [List.append_assoc] at hnext
    exact hnext

structure Names (created : List String) (f : Fsm) : Prop where
  named : f.clusterName ≠ ""
  partitions : ∃ p, f.partitions = some p ∧ NamesOk f.partitionCount created p.items

theorem NamesOk.reported {us : List (Nat × PartitionStatus)} {p : Partitions}
    {p' : Option Partitions} (h : NamesOk count created p.items)
    (hr : PartitionsReported us (some p) p') :
    ∃ p₁, p' = some p₁ ∧ NamesOk count created p₁.items := by
  rcases hr with rfl | ⟨p₀, p₁, h₀, rfl, _, hi⟩
  · exact ⟨p, rfl, h⟩
  · cases h₀
    exact ⟨p₁, rfl, foldlM_invariant (NamesOk count created) hi h fun u _ m m' hm hx =>
      hm.touch (statusItem_touches hx) fun _ _ hr => ⟨hr.toFrame, hr.fromOld⟩⟩

theorem NamesOk.changeItems {t : Time} {cmd : UpdateAssignments} (h : NamesOk count created items)
    (hc : changeItems t items cmd = .ok items') :
    NamesOk count (created ++ loopNames (addItem t) Add.partitionId items cmd.add) items' := by
  refine (changeItems_afterAdd (NamesOk count (created ++
    loopNames (addItem t) Add.partitionId items cmd.add)) h.ok hc (fun m hm => ?_)
    (fun x _ m m' hm hx => ?_) (fun x _ m m' hm hx => ?_) fun pid m m' hm hx => ?_).2
  · exact h.loop (fun x m m' hok hx => addItem_touches hok.id hx) hm
  · exact hm.touch (updateItem_touches hx) fun _ _ hu => ⟨hu.toFrame, hu.fromOld⟩
  · exact hm.touch (removeItem_touches hx) fun _ _ hr => ⟨hr.toFrame, hr.fromOld⟩
  · exact hm.touch (bumpVersion_touches hx) fun _ _ hb => ⟨hb.toFrame, hb.fromOld⟩

theorem NamesOk.wire {p : Partitions} (h : NamesOk count created p.items) :
    NamesOk count created p.wire.items := by
  refine ⟨h.ok.wire, h.nodup, fun name hm => ?_, fun q part hq name r hr => ?_⟩
  · obtain ⟨q, part, n, hq, hn, he⟩ := h.counted name hm
    exact ⟨q, part.wire, n, wire_items_get.mpr ⟨part, hq, rfl⟩, hn, he⟩
  · obtain ⟨part₀, h₀, rfl⟩ := wire_items_get.mp hq
    rw [wire_replicas_get] at hr
    exact h.present q part₀ h₀ name r hr

theorem Names.step {f f' : Fsm} {a : Step} (h : Names created f)
    (hs : Control.step f a = some f') : Names (created ++ createdNames f a) f' := by
  obtain ⟨p, hp, hok⟩ := h.partitions
  cases a with
  | restore =>
    cases hs
    refine ⟨h.named, p.wire, by simp [restore, snapshot, hp], ?_⟩
    rw [createdNames, List.append_nil]
    exact hok.wire
  | apply e =>
    obtain ⟨⟨f₁, ans⟩, happ, rfl⟩ := Option.map_eq_some_iff.mp hs
    rcases apply_cases happ with ⟨err, rfl, rfl⟩ | ⟨payload, r, f₂, hd, rfl, h₂, rfl⟩
    · refine ⟨h.named, p, hp, ?_⟩
      rw [createdNames, happ, List.append_nil]
      exact hok
    rw [createdNames, happ, hp, hd]
    dsimp only
    cases payload with
    | bootstrap cmd =>
      change applyBootstrap f _ cmd = _ at h₂
      rw [applyBootstrap, if_pos h.named] at h₂
      cases h₂
      rw [payloadNames, List.append_nil]
      exact ⟨h.named, p, hp, hok⟩
    | register cmd =>
      rw [payloadNames, List.append_nil]
      rcases applyRegister_ok h₂ with rfl | ⟨_, s', _, _, _, rfl⟩
      · exact ⟨h.named, p, hp, hok⟩
      · exact ⟨h.named, p, hp, hok⟩
    | updateStatus cmd =>
      rw [payloadNames, List.append_nil]
      obtain ⟨s, p', _, hr, rfl⟩ := applyUpdateStatus_ok h₂
      rw [hp] at hr
      obtain ⟨p₁, rfl, hok₁⟩ := hok.reported hr
      exact ⟨h.named, p₁, rfl, hok₁⟩
    | initAssignments cmd =>
      obtain ⟨p₀, items, hp₀, _, _, hi, rfl⟩ := applyInitAssignments_ok h₂
      rw [hp] at hp₀
      cases hp₀
      exact ⟨h.named, _, rfl, hok.loop (fun x m m' hm hx => initAdd_touches hm.id hx) hi⟩
    | updateAssignments cmd =>
      obtain ⟨p₀, items, hp₀, _, _, _, hi, rfl, _⟩ := applyUpdateAssignments_ok.mp h₂
      rw [hp] at hp₀
      cases hp₀
      exact ⟨h.named, _, rfl, hok.changeItems hi⟩

end Names

/-! ## The bootstrapper (`bootstrapper.go`) -/

structure BootstrapParams where
  clusterName : String
  localAddress : String
  /-- Addresses and tags. -/
  initialServers : List (String × List String)
  partitionCount : Nat

def isValidClusterName (value : String) : Bool :=
  decide (0 < value.utf8ByteSize) && decide (value.utf8ByteSize ≤ 100)

def isValidAddress (value : String) : Bool :=
  decide (0 < value.utf8ByteSize) && decide (value.utf8ByteSize ≤ 128)

def isValidPartitionCount (value : Nat) : Bool := decide (0 < value) && decide (value ≤ 65536)

/-- `ValidateParams`, which also sorts the servers and gives them their ids and names. -/
def validateParams (p : BootstrapParams) : Except String (List BootstrapServer) :=
  if !isValidClusterName p.clusterName || !isValidAddress p.localAddress ||
      !isValidPartitionCount p.partitionCount then .error "invalid bootstrap parameters"
  else if ¬ (p.initialServers.map Prod.fst).Nodup then
    .error "initial server list contains duplicates."
  else
    let servers := (p.initialServers.insertionSort fun a b => a.1 ≤ b.1).mapIdx fun i s =>
      ⟨i + 1, "boot_" ++ toString (i + 1), s.1, s.2⟩
    if servers.any fun s => s.address == p.localAddress then .ok servers
    else .error "initial server list does not contain the local server."

/-- The command of the initial write, the only Bootstrap there is. -/
def initialWrite (p : BootstrapParams) : Except String Bootstrap :=
  (validateParams p).map fun servers => ⟨p.clusterName, servers, p.partitionCount⟩

theorem initialWrite_ok {p : BootstrapParams} {cmd : Bootstrap} (h : initialWrite p = .ok cmd) :
    cmd.clusterName ≠ "" ∧ ∀ x ∈ cmd.servers, x.id ≤ p.initialServers.length := by
  unfold initialWrite validateParams at h
  split at h
  · cases h
  rename_i hvalid
  split at h
  · cases h
  dsimp only at h
  split at h
  · cases h
    refine ⟨?_, fun x hx => ?_⟩
    · intro hname
      change p.clusterName = "" at hname
      simp [hname, isValidClusterName] at hvalid
    · obtain ⟨i, hi, rfl⟩ := List.mem_mapIdx.mp hx
      rw [List.length_insertionSort] at hi
      exact hi
  · cases h

/-! ## Whole runs -/

theorem bootstrapServers_tokens (t : Time) (servers : List BootstrapServer) (token : String) :
    (bootstrapServers t servers).tokens.get token = none :=
  List.foldlRecOn (motive := fun s : Servers => s.tokens.get token = none) _ _ rfl
    fun _ hs _ _ => hs

theorem bootstrapServers_registry (t : Time) (servers : List BootstrapServer) :
    RegistryOk [] (bootstrapServers t servers) := by
  have hno := bootstrapServers_tokens t servers
  have hbelow : ∀ id, ((bootstrapServers t servers).items.get id).isSome = true →
      id ≤ (bootstrapServers t servers).lastId := by
    refine List.foldlRecOn (motive := fun s : Servers =>
      ∀ id, (s.items.get id).isSome = true → id ≤ s.lastId) _ _ nofun fun s hs x _ id hid => ?_
    have hid : (AList.lookup id (s.items.content.insert x.id _)).isSome = true := hid
    by_cases he : id = x.id
    · exact he ▸ Nat.le_max_right _ _
    · rw [AList.lookup_insert_ne he] at hid
      exact Nat.le_trans (hs id hid) (Nat.le_max_left _ _)
  refine ⟨fun token id ht => ?_, hbelow, fun token _ id ht => ?_, fun token id => ?_⟩
  · rw [hno] at ht
    cases ht
  · rw [hno] at ht
    cases ht
  · rw [hno]
    exact ⟨nofun, nofun⟩

theorem bootstrapServers_lastId (t : Time) {servers : List BootstrapServer} {n : Nat}
    (h : ∀ x ∈ servers, x.id ≤ n) : (bootstrapServers t servers).lastId ≤ n :=
  List.foldlRecOn (motive := fun s : Servers => s.lastId ≤ n) _ _ (Nat.zero_le n)
    fun _ hs x hx => Nat.max_le.mpr ⟨hs, h x hx⟩

theorem bootstrapPartitions_names (count : Nat) :
    NamesOk count [] (bootstrapPartitions count).items :=
  ⟨bootstrapPartitions_ok count, List.nodup_nil, nofun, fun q part hq name r hr => by
    rw [bootstrapPartitions_none hq] at hr
    cases hr⟩

section Run

variable {i m : Nat} {t : Time} {p : BootstrapParams} {cmd : Bootstrap} {r : Result} {f₀ f : Fsm}
  {as : List Step}

theorem bootstrap_start (hcmd : initialWrite p = .ok cmd)
    (hboot : apply newFsm ⟨i, t, some ⟨m, some (.bootstrap cmd)⟩⟩ = some (f₀, .ok r)) :
    Registry p.initialServers.length [] f₀ ∧ Names [] f₀ := by
  obtain ⟨hname, hids⟩ := initialWrite_ok hcmd
  obtain ⟨_, f₁, h₁, rfl⟩ := apply_accepted.mp hboot
  cases h₁
  exact ⟨⟨hname, _, rfl, bootstrapServers_lastId t hids, bootstrapServers_registry t cmd.servers⟩,
    ⟨hname, _, rfl, bootstrapPartitions_names cmd.partitionCount⟩⟩

/-- A step takes one number from the counter at most. -/
theorem registry_run {n : Nat} (h : Registry n handed f₀) (hcount : n + as.length < 2 ^ 64)
    (hrun : runSteps step f₀ as = some f) :
    Registry (n + as.length) (handed ++ runHistory step handedOut f₀ as) f := by
  induction as generalizing f₀ n handed with
  | nil =>
    cases hrun
    simpa [runHistory] using h
  | cons a as ih =>
    obtain ⟨f₁, h₁, hrest⟩ := Option.bind_eq_some_iff.mp hrun
    rw [List.length_cons] at hcount
    have hrec := ih (h.step (by omega) h₁) (by omega) hrest
    rw [List.append_assoc, Nat.add_assoc, Nat.add_comm 1] at hrec
    rw [runHistory, h₁]
    exact hrec

theorem names_run (h : Names [] f₀) (hrun : runSteps step f₀ as = some f) :
    Names (runHistory step createdNames f₀ as) f :=
  runSteps_history step createdNames (fun f created => Names created f)
    (fun _ _ _ _ hf hs => hf.step hs) h hrun

theorem Names.mem {created : List String} (h : Names created f) {name : String}
    (hm : name ∈ f.replicaNames) : name ∈ created := by
  obtain ⟨p, q, part, r, hp, hq, hr⟩ := Fsm.mem_replicaNames.mp hm
  obtain ⟨p', hp', hok⟩ := h.partitions
  rw [hp] at hp'
  cases hp'
  exact hok.present q part hq name r hr

theorem Names.created {created : List String} {f' : Fsm} {a : Step} (h : Names created f)
    (hs : Control.step f a = some f') {name : String} (hm : name ∈ f'.replicaNames) :
    name ∈ f.replicaNames ∨ name ∈ createdNames f a := by
  obtain ⟨p, hp, hok⟩ := h.partitions
  -- the names of the state itself, in place of those of the whole run
  have hnow : NamesOk f.partitionCount f.replicaNames.dedup p.items := by
    refine ⟨hok.ok, List.nodup_dedup _, fun n hn => ?_, fun q part hq n r hr => ?_⟩
    · obtain ⟨p', q, part, r, hp', hq, hr⟩ := Fsm.mem_replicaNames.mp (List.mem_dedup.mp hn)
      rw [hp] at hp'
      cases hp'
      obtain ⟨k, hk, he⟩ := (hok.ok.named q part hq).issued n r hr
      exact ⟨q, part, k, hq, hk, he⟩
    · exact List.mem_dedup.mpr (Fsm.mem_replicaNames.mpr ⟨p, q, part, r, hp, hq, hr⟩)
  have hnext : Names (f.replicaNames.dedup ++ createdNames f a) f' :=
    Names.step ⟨h.named, p, hp, hnow⟩ hs
  rcases List.mem_append.mp (hnext.mem hm) with hold | hnew
  · exact .inl (List.mem_dedup.mp hold)
  · exact .inr hnew

theorem register_known {f' : Fsm} {e : Entry} {ans : Answer} {reg : Register} {s : Servers}
    (hs : f.servers = some s) (he : e.register = some reg) (h : apply f e = some (f', ans))
    (ht : s.tokens.get reg.token ≠ none) : f'.servers = f.servers := by
  rcases apply_cases h with ⟨_, _, rfl⟩ | ⟨payload, r, f₁, hp, rfl, h₁, rfl⟩
  · rfl
  unfold Entry.register at he
  rw [hp] at he
  cases payload with
  | register reg' =>
    cases he
    rcases applyRegister_ok h₁ with rfl | ⟨s', _, hs', hnone, _⟩
    · rfl
    · rw [hs] at hs'
      cases hs'
      exact absurd hnone ht
  | _ => cases he

/-- **Ids and names are not reused**, in every run from a Bootstrap of the bootstrapper
that is not longer than the `uint64` counter of the ids can count. -/
theorem ids_and_names_not_reused {f' : Fsm} {e : Entry} {ans : Answer}
    (hcmd : initialWrite p = .ok cmd)
    (hboot : apply newFsm ⟨i, t, some ⟨m, some (.bootstrap cmd)⟩⟩ = some (f₀, .ok r))
    (hcount : p.initialServers.length + as.length + 1 < 2 ^ 64)
    (hrun : runSteps step f₀ as = some f) (happ : apply f e = some (f', ans)) :
    (∀ reg, e.register = some reg →
      ((∃ id, (reg.token, id) ∈ runHistory step handedOut f₀ as) → f'.servers = f.servers) ∧
      ∀ id name, ans = .ok (.registered id name) →
        (∀ x ∈ runHistory step handedOut f₀ as, x.2 = id ↔ x.1 = reg.token) ∧
        ((∀ id', (reg.token, id') ∉ runHistory step handedOut f₀ as) →
          ∀ s, f.servers = some s → s.items.get id = none)) ∧ (createdNames f (.apply e)).Nodup ∧
    (∀ name ∈ createdNames f (.apply e), name ∉ runHistory step createdNames f₀ as ∧
      ∀ before after f₁, as = before ++ after → runSteps step f₀ before = some f₁ →
        name ∉ f₁.replicaNames) ∧
    ∀ name ∈ f'.replicaNames, name ∈ f.replicaNames ∨ name ∈ createdNames f (.apply e) := by
  obtain ⟨hreg₀, hnames₀⟩ := bootstrap_start hcmd hboot
  obtain ⟨_, s, hs, hle, hok⟩ := registry_run hreg₀ (Nat.lt_of_succ_lt hcount) hrun
  rw [List.nil_append] at hok
  have hnames := (names_run hnames₀ hrun).step (step_of_apply happ)
  obtain ⟨_, _, hnodup, _, _⟩ := hnames.partitions.choose_spec
  obtain ⟨_, hnew, hdisj⟩ := List.nodup_append.mp hnodup
  refine ⟨fun reg he => ⟨?_, fun id name ha => ?_⟩, hnew, fun name hm => ⟨fun hc => ?_, ?_⟩,
    fun name hm => (names_run hnames₀ hrun).created (step_of_apply happ) hm⟩
  · rintro ⟨id, hid⟩
    refine register_known hs he happ ?_
    rw [(hok.handed _ _).mp hid]
    exact nofun
  · subst ha
    rcases apply_registered hs he happ with ⟨ht, _⟩ | ⟨ht, s', _, hr⟩
    · refine ⟨fun x hx => ⟨fun hid => ?_, fun htok => ?_⟩, fun hno => ?_⟩
      · exact hok.inj _ _ id (hid ▸ (hok.handed _ _).mp hx) ht
      · have hx := (hok.handed _ _).mp hx
        rw [htok, ht] at hx
        exact (Option.some.inj hx).symm
      · exact absurd ((hok.handed _ _).mpr ht) (hno id)
    · have hfresh := hok.fresh (Nat.lt_of_le_of_lt (Nat.succ_le_succ hle) hcount)
      obtain ⟨_, _, _, _, hres⟩ := registerNew_ok hr
      cases hres
      refine ⟨fun x hx => ⟨fun hid => ?_, fun htok => ?_⟩, fun _ s₁ hs₁ => ?_⟩
      · have hsome := hok.known _ _ ((hok.handed _ _).mp hx)
        rw [hid, hfresh] at hsome
        cases hsome
      · have hx := (hok.handed _ _).mp hx
        rw [htok, ht] at hx
        cases hx
      · rw [hs] at hs₁
        cases hs₁
        exact hfresh
  · exact hdisj name hc name hm rfl
  · rintro before after f₁ rfl hbefore hm₁
    have hc := (names_run hnames₀ hbefore).mem hm₁
    refine hdisj name ?_ name hm rfl
    rw [runHistory_append step createdNames hbefore]
    exact List.mem_append_left _ hc

def nameParams : BootstrapParams := ⟨"scout", "10.0.0.1:5000", [("10.0.0.1:5000", [])], 1⟩

def nameCluster : Entry :=
  command 1 (.bootstrap ⟨"scout", [⟨1, "boot_1", "10.0.0.1:5000", []⟩], 1⟩)

/-- A server registers again, and a replica is removed, after the state is restored. -/
def restoredCluster : List Step :=
  [.apply (command 2 (.register ⟨.data, "a", "10.0.0.2:5000", []⟩)),
   .apply (command 3 (.register ⟨.data, "b", "10.0.0.3:5000", []⟩)),
   .apply assignTwoVoters,
   .restore,
   .apply (command 5 (.register ⟨.data, "a", "10.0.0.2:5000", []⟩)),
   .apply (command 6 (.updateAssignments ⟨0, [], [⟨0, "p0_r2", .leaving⟩], [], 0⟩)),
   .apply (command 7 (.updateAssignments ⟨0, [], [], [⟨0, "p0_r2"⟩], 0⟩))]

/-- A new replica on the server of the one that is removed. -/
def replaceReplica : Entry := command 8 (.updateAssignments ⟨0, [⟨0, 3⟩], [], [], 0⟩)

theorem restoredCluster_run : ∃ f₀ f f',
    apply newFsm nameCluster = some (f₀, .ok (.bootstrapped true)) ∧
    runSteps step f₀ restoredCluster = some f ∧
    apply f replaceReplica = some (f', .ok (.updated 4)) ∧
    runHistory step handedOut f₀ restoredCluster = [("a", 2), ("b", 3), ("a", 2)] ∧
    runHistory step createdNames f₀ restoredCluster = ["p0_r1", "p0_r2"] ∧
    createdNames f (.apply replaceReplica) = ["p0_r3"] :=
  ⟨_, _, _, rfl, rfl, rfl, rfl, rfl, rfl⟩

theorem ids_and_names_not_reused_restored : ∃ f₀ f f',
    apply newFsm nameCluster = some (f₀, .ok (.bootstrapped true)) ∧
    runSteps step f₀ restoredCluster = some f ∧
    apply f replaceReplica = some (f', .ok (.updated 4)) ∧
    createdNames f (.apply replaceReplica) = ["p0_r3"] ∧
    "p0_r3" ∉ runHistory step createdNames f₀ restoredCluster ∧ "p0_r3" ∉ f.replicaNames := by
  obtain ⟨f₀, f, f', hboot, hrun, happ, _, _, hnew⟩ := restoredCluster_run
  obtain ⟨_, _, hnames, _⟩ :=
    ids_and_names_not_reused (p := nameParams) rfl hboot (by decide) hrun happ
  obtain ⟨hcreated, hstates⟩ := hnames "p0_r3" (by rw [hnew]; exact List.mem_singleton_self _)
  exact ⟨f₀, f, f', hboot, hrun, happ, hnew, hcreated,
    hstates _ [] f (List.append_nil _).symm hrun⟩

end Run

end Scout.Control
