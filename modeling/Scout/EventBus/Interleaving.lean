import Scout.EventBus.Goroutines

/-!
Sends on closed channels. A publisher sends while it holds the lock. `Unsubscribe` closes the
channel first and takes the lock then, so between the two steps the closed channel is
still in the map. `send_closed_exact` says which two overlaps of a publisher and
`Unsubscribe` lead to a send on a closed channel, and that no other does.
-/

namespace Scout.EventBus.Interleaving

open Lib

variable {τ M : Type}

/-! ## Safety -/

/-- The subscriber on whose channel a goroutine sends, or is blocked sending. -/
def Pos.target : Pos τ M → Option Nat
  | .send _ _ _ id _ => some id
  | .sendLast id _ => some id
  | _ => none

def Safe (s : State τ M) : Prop :=
  ∀ g id sub, (s.pos g).target = some id → s.sub id = some sub → sub.closed = false

/-- The subscribers that a publisher of the type has still to serve. -/
def Pos.due [DecidableEq τ] (ty : τ) : Pos τ M → List Nat
  | .loop _ t _ todo => if t = ty then todo else []
  | .send _ t _ id todo => if t = ty then id :: todo else []
  | _ => []

/-- The next step of a goroutine does not close a channel that the publisher under the lock
has still to serve, and does not take the lock for a publisher while a closed channel of its
type is in the map. -/
def Apart [DecidableEq τ] (s : State τ M) : Pos τ M → Prop
  | .close id => ∀ sub ∈ s.sub id, ∀ h ∈ s.lock, id ∉ (s.pos h).due sub.ty
  | .lockPublish _ ty _ => ∀ id ∈ s.subs, ∀ sub ∈ s.sub id, sub.ty = ty → sub.closed = false
  | _ => True

/-- `Unsubscribe` and the publishers do not overlap in this step. -/
def NoOverlap [DecidableEq τ] (s : State τ M) : Event τ M → Prop
  | .go g => Apart s (s.pos g)
  | _ => True

instance [DecidableEq τ] (s : State τ M) (p : Pos τ M) : Decidable (Apart s p) :=
  match p with
  | .close id =>
    inferInstanceAs (Decidable (∀ sub ∈ s.sub id, ∀ h ∈ s.lock, id ∉ (s.pos h).due sub.ty))
  | .lockPublish _ ty _ =>
    inferInstanceAs (Decidable
      (∀ id ∈ s.subs, ∀ sub ∈ s.sub id, sub.ty = ty → sub.closed = false))
  | .idle | .loop .. | .send .. | .lockSubscribe .. | .sendLast .. | .insert _
  | .unlockSubscribe _ | .load _ | .store _ | .lockUnsubscribe _ | .delete _
  | .unlockUnsubscribe => isTrue trivial

instance [DecidableEq τ] (s : State τ M) (x : Event τ M) : Decidable (NoOverlap s x) :=
  match x with
  | .go g => inferInstanceAs (Decidable (Apart s (s.pos g)))
  | .call _ _ | .visit _ _ | .receive _ => isTrue trivial

/-! ## The invariant -/

structure Flags (τ : Type) where
  ty : τ
  closed : Bool
  handed : Bool

def Subscriber.flags (sub : Subscriber τ M) : Flags τ := ⟨sub.ty, sub.closed, sub.handed⟩

def State.flags (s : State τ M) (id : Nat) : Option (Flags τ) := (s.sub id).map Subscriber.flags

/-- The positions between `Lock` and `Unlock`. -/
def Pos.locked : Pos τ M → Bool
  | .loop .. | .send .. | .sendLast .. | .insert _ | .unlockSubscribe _ | .delete _
  | .unlockUnsubscribe => true
  | _ => false

def Open (v : Nat → Option (Flags τ)) (ty : τ) (ids : List Nat) : Prop :=
  ∀ id ∈ ids, ∀ f, v id = some f → f.ty = ty → f.closed = false

/-- What a goroutine knows of the subscribers at a position. -/
def Pos.Ok (v : Nat → Option (Flags τ)) : Pos τ M → Prop
  | .loop _ ty _ todo => Open v ty todo
  | .send _ ty _ id todo =>
    (∃ f, v id = some f ∧ f.ty = ty ∧ f.closed = false) ∧ Open v ty todo
  | .sendLast id _ => ∃ f, v id = some f ∧ f.handed = false
  | .load id | .store id | .close id => ∃ f, v id = some f ∧ f.handed = true
  | _ => True

structure Inv (s : State τ M) : Prop where
  /-- Mutual exclusion. -/
  lock : ∀ g, (s.pos g).locked = true → s.lock = some g
  fresh : ∀ id, s.nextID < id → s.flags id = none
  handed : ∀ id f, s.flags id = some f → f.closed = true → f.handed = true
  pos : ∀ g, (s.pos g).Ok s.flags

theorem inv_new : Inv (State.new : State τ M) where
  lock g h := by cases h
  fresh _ _ := rfl
  handed id f h := by cases h
  pos _ := trivial

theorem Inv.safe {s : State τ M} (hi : Inv s) : Safe s := by
  intro g id sub ht hsub
  have hok := hi.pos g
  have hflags : s.flags id = some sub.flags := by simp [State.flags, hsub]
  cases hp : s.pos g with
  | send wait ty msg id' todo =>
    rw [hp] at hok ht
    cases ht
    obtain ⟨⟨f, hf, -, hopen⟩, -⟩ := hok
    cases hflags.symm.trans hf
    exact hopen
  | sendLast id' msg =>
    rw [hp] at hok ht
    cases ht
    obtain ⟨f, hf, hnot⟩ := hok
    cases hflags.symm.trans hf
    -- a closed channel has been handed out, and this one has not
    by_contra hclosed
    have := hi.handed _ _ hflags (by simpa [Subscriber.flags] using hclosed)
    rw [hnot] at this
    cases this
  | _ =>
    rw [hp] at ht
    cases ht

section Flags

variable {s : State τ M} {id : Nat} {sub sub' : Subscriber τ M}

theorem flags_eq (h : s.sub id = some sub) : s.flags id = some sub.flags := by
  simp [State.flags, h]

theorem flags_setSub : (s.setSub id sub').flags = Function.update s.flags id (some sub'.flags) := by
  funext i
  by_cases hi : i = id
  · subst hi
    simp [State.flags, State.setSub]
  · simp [State.flags, State.setSub, hi]

theorem flags_setSub_same (h : s.sub id = some sub) (hf : sub'.flags = sub.flags) :
    (s.setSub id sub').flags = s.flags := by
  rw [flags_setSub, hf, ← flags_eq h, Function.update_eq_self]

end Flags

theorem open_erase {v : Nat → Option (Flags τ)} {ty : τ} {ids : List Nat} (h : Open v ty ids)
    (id : Nat) : Open v ty (ids.erase id) :=
  fun i hi => h i (List.mem_of_mem_erase hi)

theorem Pos.Ok.of_unlocked {v v' : Nat → Option (Flags τ)} {p : Pos τ M} (hp : p.locked = false)
    (hv : ∀ id f, v id = some f → f.handed = true → ∃ f', v' id = some f' ∧ f'.handed = true)
    (h : p.Ok v) : p.Ok v' := by
  cases p with
  | load id | store id | close id =>
    obtain ⟨f, hf, hh⟩ := h
    exact hv id f hf hh
  | loop | send | sendLast => cases hp
  | _ => trivial

section Change

variable {s s' : State τ M} {g : Nat} {p : Pos τ M}

theorem Inv.change (hi : Inv s) (hpos : s'.pos = Function.update s.pos g p)
    (hother : ∀ h, h ≠ g → s.lock = some h → s'.lock = some h)
    (hown : p.locked = true → s'.lock = some g) (hfresh : ∀ id, s'.nextID < id → s'.flags id = none)
    (hhanded : ∀ id f, s'.flags id = some f → f.closed = true → f.handed = true)
    (hothers : ∀ h, h ≠ g → (s.pos h).Ok s'.flags) (hok : p.Ok s'.flags) : Inv s' := by
  refine ⟨fun h hl => ?_, hfresh, hhanded, fun h => ?_⟩
  · by_cases hg : h = g
    · subst hg
      rw [hpos, Function.update_self] at hl
      exact hown hl
    · rw [hpos, Function.update_of_ne hg] at hl
      exact hother h hg (hi.lock h hl)
  · rw [hpos]
    by_cases hg : h = g
    · subst hg
      rw [Function.update_self]
      exact hok
    · rw [Function.update_of_ne hg]
      exact hothers h hg

theorem Inv.move (hi : Inv s) (hpos : s'.pos = Function.update s.pos g p)
    (hid : s'.nextID = s.nextID) (hflags : s'.flags = s.flags)
    (hother : ∀ h, h ≠ g → s.lock = some h → s'.lock = some h)
    (hown : p.locked = true → s'.lock = some g) (hok : p.Ok s.flags) : Inv s' := by
  refine hi.change hpos hother hown ?_ ?_ ?_ ?_
  · rw [hid, hflags]
    exact hi.fresh
  · rw [hflags]
    exact hi.handed
  · rw [hflags]
    exact fun h _ => hi.pos h
  · rw [hflags]
    exact hok

theorem Inv.goto (hi : Inv s) (hown : p.locked = true → (s.pos g).locked = true)
    (hok : p.Ok s.flags) : Inv (s.goto g p) :=
  hi.move rfl rfl rfl (fun _ _ hl => hl) (fun hp => hi.lock g (hown hp)) hok

theorem Inv.setSub_goto {id : Nat} {sub sub' : Subscriber τ M} (hi : Inv s)
    (hsub : s.sub id = some sub) (hf : sub'.flags = sub.flags)
    (hown : p.locked = true → (s.pos g).locked = true)
    (hok : p.Ok s.flags) : Inv ((s.setSub id sub').goto g p) :=
  hi.move rfl rfl (flags_setSub_same hsub hf) (fun _ _ hl => hl)
    (fun hp => hi.lock g (hown hp)) hok

theorem Inv.unlocked (hi : Inv s) (hg : (s.pos g).locked = true) {h : Nat} (hne : h ≠ g) :
    (s.pos h).locked = false := by
  by_contra hl
  have h₁ := hi.lock h (by simpa using hl)
  rw [hi.lock g hg] at h₁
  exact hne (Option.some.inj h₁).symm

theorem Inv.unlocked_of_free (hi : Inv s) (hfree : s.lock = none) (h : Nat) :
    (s.pos h).locked = false := by
  by_contra hl
  have h₁ := hi.lock h (by simpa using hl)
  rw [hfree] at h₁
  cases h₁

theorem Inv.acquire (hi : Inv s) (hfree : s.lock = none)
    (hpos : s'.pos = Function.update s.pos g p) (hid : s'.nextID = s.nextID)
    (hflags : s'.flags = s.flags) (hlock : s'.lock = some g) (hok : p.Ok s.flags) : Inv s' := by
  refine hi.move hpos hid hflags (fun h _ hl => ?_) (fun _ => hlock) hok
  rw [hfree] at hl
  cases hl

theorem Inv.release (hi : Inv s) (hg : (s.pos g).locked = true) :
    Inv { s.goto g .idle with lock := none } := by
  refine hi.move rfl rfl rfl (fun h hne hl => ?_) (fun h => by cases h) trivial
  rw [hi.lock g hg] at hl
  exact absurd (Option.some.inj hl).symm hne

theorem Inv.panicked (hi : Inv s) (g : Nat) : Inv (s.panicked g) := by
  refine hi.move rfl rfl rfl (fun h hg hl => ?_) (fun h => by cases h) trivial
  simp [State.panicked, hl, hg]

theorem Inv.id_le {id : Nat} {f : Flags τ} (hi : Inv s) (hf : s.flags id = some f) :
    id ≤ s.nextID := by
  by_contra hlt
  rw [hi.fresh id (by omega)] at hf
  cases hf

theorem Inv.changeFlags {id : Nat} {f' : Flags τ} (hi : Inv s)
    (hpos : s'.pos = Function.update s.pos g p)
    (hflags : s'.flags = Function.update s.flags id (some f'))
    (hle : s.nextID ≤ s'.nextID) (hid : id ≤ s'.nextID)
    (hother : ∀ h, h ≠ g → s.lock = some h → s'.lock = some h)
    (hown : p.locked = true → s'.lock = some g) (hhanded : f'.closed = true → f'.handed = true)
    (hothers : ∀ h, h ≠ g → (s.pos h).Ok (Function.update s.flags id (some f')))
    (hok : p.Ok (Function.update s.flags id (some f'))) : Inv s' := by
  refine hi.change hpos hother hown (fun i hlt => ?_) (fun i f hf hc => ?_) ?_ ?_
  · rw [hflags, Function.update_of_ne (by omega)]
    exact hi.fresh i (by omega)
  · rw [hflags] at hf
    by_cases hi' : i = id
    · subst hi'
      rw [Function.update_self] at hf
      cases hf
      exact hhanded hc
    · rw [Function.update_of_ne hi'] at hf
      exact hi.handed i f hf hc
  · rw [hflags]
    exact hothers
  · rw [hflags]
    exact hok

theorem Inv.create {ty : τ} {chan : Channel M} (hi : Inv s) (hfree : s.lock = none)
    (hok : p.Ok (Function.update s.flags (s.nextID + 1) (some ⟨ty, false, false⟩))) :
    Inv { (s.setSub (s.nextID + 1) ⟨ty, chan, false, false, false⟩).goto g p with
      lock := some g, nextID := s.nextID + 1 } := by
  refine hi.changeFlags (g := g) (p := p) rfl flags_setSub (Nat.le_succ _) (Nat.le_refl _)
    ?_ ?_ ?_ ?_ ?_
  · intro h _ hl
    rw [hfree] at hl
    cases hl
  · exact fun _ => rfl
  · exact fun h => by cases h
  · intro h _
    refine Pos.Ok.of_unlocked (hi.unlocked_of_free hfree h) (fun id f hf hh => ?_) (hi.pos h)
    have hle := hi.id_le hf
    exact ⟨f, (Function.update_of_ne (by omega) ..).trans hf, hh⟩
  · exact hok

theorem Inv.hand {id : Nat} {sub : Subscriber τ M} (hi : Inv s) (hg : (s.pos g).locked = true)
    (hsub : s.sub id = some sub) :
    Inv { (s.setSub id { sub with handed := true }).goto g .idle with lock := none } := by
  refine hi.changeFlags (g := g) (p := .idle) rfl flags_setSub (Nat.le_refl _)
    (hi.id_le (flags_eq hsub)) ?_ ?_ ?_ ?_ ?_
  · intro h hne hl
    rw [hi.lock g hg] at hl
    exact absurd (Option.some.inj hl).symm hne
  · exact fun h => by cases h
  · exact fun _ => rfl
  · intro h hne
    refine Pos.Ok.of_unlocked (hi.unlocked hg hne) (fun i f hf hh => ?_) (hi.pos h)
    by_cases hid : i = id
    · subst hid
      exact ⟨_, Function.update_self .., rfl⟩
    · exact ⟨f, (Function.update_of_ne hid ..).trans hf, hh⟩
  · trivial

end Change

section Close

variable [DecidableEq τ] {v : Nat → Option (Flags τ)} {id : Nat} {f : Flags τ}

omit [DecidableEq τ] in
theorem open_close {ty : τ} {ids : List Nat} (h : Open v ty ids) (hid : f.ty = ty → id ∉ ids) :
    Open (Function.update v id (some { f with closed := true })) ty ids := by
  intro i hi f' hf' hty
  by_cases hii : i = id
  · subst hii
    rw [Function.update_self] at hf'
    cases hf'
    exact absurd hi (hid hty)
  · rw [Function.update_of_ne hii] at hf'
    exact h i hi f' hf' hty

theorem Pos.due_of_unlocked {p : Pos τ M} (hp : p.locked = false) (ty : τ) : p.due ty = [] := by
  cases p with
  | loop | send => cases hp
  | _ => rfl

theorem Pos.Ok.close {p : Pos τ M} (h : p.Ok v) (hf : v id = some f) (hh : f.handed = true)
    (hdue : id ∉ p.due f.ty) : p.Ok (Function.update v id (some { f with closed := true })) := by
  have hhanded : ∀ i, (∃ f', v i = some f' ∧ f'.handed = true) →
      ∃ f', Function.update v id (some { f with closed := true }) i = some f' ∧
        f'.handed = true := by
    rintro i ⟨f', hf', hh'⟩
    by_cases hii : i = id
    · subst hii
      exact ⟨_, Function.update_self .., hh⟩
    · exact ⟨f', (Function.update_of_ne hii ..).trans hf', hh'⟩
  cases p with
  | loop wait ty msg todo =>
    apply open_close h
    rintro rfl
    simpa [Pos.due] using hdue
  | send wait ty msg i todo =>
    obtain ⟨⟨f', hf', hty, hopen⟩, htodo⟩ := h
    have hii : i ≠ id := by
      rintro rfl
      cases hf.symm.trans hf'
      simp [Pos.due, hty] at hdue
    refine ⟨⟨f', (Function.update_of_ne hii ..).trans hf', hty, hopen⟩, open_close htodo ?_⟩
    rintro rfl hmem
    simp [Pos.due, hmem] at hdue
  | sendLast i msg =>
    obtain ⟨f', hf', hnot⟩ := h
    have hii : i ≠ id := by
      rintro rfl
      cases hf.symm.trans hf'
      rw [hh] at hnot
      cases hnot
    exact ⟨f', (Function.update_of_ne hii ..).trans hf', hnot⟩
  | load i | store i | close i => exact hhanded i h
  | _ => trivial

/-- `Unsubscribe` closes a channel that the publisher under the lock does not serve any more. -/
theorem Inv.close {s : State τ M} {g : Nat} {sub : Subscriber τ M} (hi : Inv s)
    (hp : s.pos g = .close id) (hsub : s.sub id = some sub) (hapart : Apart s (.close id)) :
    Inv ((s.setSub id { sub with closed := true }).goto g (.lockUnsubscribe id)) := by
  have hh : sub.flags.handed = true := by
    have hok := hi.pos g
    rw [hp] at hok
    obtain ⟨f, hf, hh⟩ := hok
    cases (flags_eq hsub).symm.trans hf
    exact hh
  refine hi.changeFlags (g := g) (p := .lockUnsubscribe id) rfl flags_setSub (Nat.le_refl _)
    (hi.id_le (flags_eq hsub)) ?_ ?_ ?_ ?_ ?_
  · exact fun _ _ hl => hl
  · exact fun h => by cases h
  · exact fun _ => hh
  · intro h _
    refine (hi.pos h).close (flags_eq hsub) hh ?_
    cases hl : (s.pos h).locked with
    | false => simp [Pos.due_of_unlocked hl]
    | true => exact hapart sub hsub h (hi.lock h hl)
  · trivial

end Close

section Step

variable [DecidableEq τ] {s s' : State τ M} {g : Nat}

omit [DecidableEq τ] in
theorem Inv.call {op : Op τ M} (hi : Inv s) (h : call s g op = some s') : Inv s' := by
  cases op with
  | publish ty msg | tryPublish ty msg | subscribe ty bufferSize =>
    cases h
    exact hi.goto (fun h => by cases h) trivial
  | unsubscribe id =>
    obtain ⟨sub, hsub, h⟩ := Option.bind_eq_some_iff.mp h
    split at h
    · next hh =>
      cases h
      exact hi.goto (fun h => by cases h) ⟨sub.flags, flags_eq hsub, hh⟩
    · cases h

theorem Inv.visit {id : Nat} (hi : Inv s) (h : visit s g id (s.pos g) = some s') : Inv s' := by
  have hok := hi.pos g
  cases hp : s.pos g with
  | loop wait ty msg todo =>
    have hlocked : (s.pos g).locked = true := by rw [hp]; rfl
    rw [hp] at h hok
    obtain ⟨sub, hsub, h⟩ := Option.bind_eq_some_iff.mp h
    split at h
    · next hmem =>
      split at h
      · next hty =>
        cases h
        have hopen : sub.flags.closed = false := hok id hmem _ (flags_eq hsub) hty
        exact hi.goto (fun _ => hlocked)
          ⟨⟨_, flags_eq hsub, hty, hopen⟩, open_erase hok id⟩
      · cases h
        exact hi.goto (fun _ => hlocked) (open_erase hok id)
    · cases h
  | _ =>
    rw [hp] at h
    cases h

omit [DecidableEq τ] in
theorem Inv.receive {id : Nat} (hi : Inv s) (h : receive s id = some s') : Inv s' := by
  obtain ⟨sub, hsub, h⟩ := Option.bind_eq_some_iff.mp h
  obtain ⟨⟨msg, chan⟩, -, h⟩ := Option.bind_eq_some_iff.mp h
  cases h
  -- no goroutine of the bus moves
  exact hi.move (Function.update_eq_self 0 s.pos).symm rfl (flags_setSub_same hsub rfl)
    (fun _ _ hl => hl) (hi.lock 0) (hi.pos 0)

theorem Inv.go (hi : Inv s) (hapart : Apart s (s.pos g)) (h : go s g (s.pos g) = some s') :
    Inv s' := by
  have hok := hi.pos g
  have hlocked : ∀ p, s.pos g = p → p.locked = true → (s.pos g).locked = true := by
    rintro p rfl hl
    exact hl
  cases hp : s.pos g with
  | idle =>
    rw [hp] at h
    cases h
  | lockPublish wait ty msg =>
    rw [hp] at h hapart
    simp only [Interleaving.go] at h
    split at h
    · next hfree =>
      cases h
      refine hi.acquire hfree rfl rfl rfl rfl fun id hid f hf hty => ?_
      obtain ⟨sub, hsub, rfl⟩ := Option.map_eq_some_iff.mp hf
      exact hapart id hid sub hsub hty
    · cases h
  | loop wait ty msg todo =>
    have hl := hlocked _ hp rfl
    rw [hp] at h
    simp only [Interleaving.go] at h
    split at h
    · cases h
      exact hi.release hl
    · cases h
  | send wait ty msg id todo =>
    have hl := hlocked _ hp rfl
    rw [hp] at h hok
    obtain ⟨sub, hsub, h⟩ := Option.bind_eq_some_iff.mp h
    split at h
    · cases h
      exact hi.panicked g
    · split at h
      · cases h
        exact hi.setSub_goto hsub rfl (fun _ => hl) hok.2
      · split at h
        · cases h
        · cases h
          exact hi.goto (fun _ => hl) hok.2
  | lockSubscribe ty bufferSize =>
    rw [hp] at h
    simp only [Interleaving.go] at h
    split at h
    · next hfree =>
      cases h
      apply hi.create hfree
      split
      · exact ⟨_, Function.update_self .., rfl⟩
      · trivial
    · cases h
  | sendLast id msg =>
    have hl := hlocked _ hp rfl
    rw [hp] at h
    obtain ⟨sub, hsub, h⟩ := Option.bind_eq_some_iff.mp h
    split at h
    · cases h
      exact hi.panicked g
    · split at h
      · cases h
        exact hi.setSub_goto hsub rfl (fun _ => hl) trivial
      · cases h
  | insert id =>
    have hl := hlocked _ hp rfl
    rw [hp] at h
    cases h
    exact hi.move rfl rfl rfl (fun _ _ hl => hl) (fun _ => hi.lock g hl) trivial
  | unlockSubscribe id =>
    have hl := hlocked _ hp rfl
    rw [hp] at h
    obtain ⟨sub, hsub, h⟩ := Option.bind_eq_some_iff.mp h
    cases h
    exact hi.hand hl hsub
  | load id =>
    rw [hp] at h hok
    obtain ⟨sub, hsub, h⟩ := Option.bind_eq_some_iff.mp h
    split at h
    · cases h
      exact hi.panicked g
    · cases h
      exact hi.goto (fun h => by cases h) hok
  | store id =>
    rw [hp] at h hok
    obtain ⟨sub, hsub, h⟩ := Option.bind_eq_some_iff.mp h
    cases h
    exact hi.setSub_goto hsub rfl (fun h => by cases h) hok
  | close id =>
    rw [hp] at h hapart
    obtain ⟨sub, hsub, h⟩ := Option.bind_eq_some_iff.mp h
    split at h
    · cases h
      exact hi.panicked g
    · cases h
      exact hi.close hp hsub hapart
  | lockUnsubscribe id =>
    rw [hp] at h
    simp only [Interleaving.go] at h
    split at h
    · next hfree =>
      cases h
      exact hi.acquire hfree rfl rfl rfl rfl trivial
    · cases h
  | delete id =>
    have hl := hlocked _ hp rfl
    rw [hp] at h
    cases h
    exact hi.move rfl rfl rfl (fun _ _ hl => hl) (fun _ => hi.lock g hl) trivial
  | unlockUnsubscribe =>
    have hl := hlocked _ hp rfl
    rw [hp] at h
    cases h
    exact hi.release hl

theorem Inv.step {x : Event τ M} (hi : Inv s) (hx : NoOverlap s x) (h : step s x = some s') :
    Inv s' := by
  cases x with
  | call g op =>
    simp only [Interleaving.step] at h
    split at h
    · exact hi.call h
    · cases h
  | visit g id => exact hi.visit h
  | go g => exact hi.go hx h
  | receive id => exact hi.receive h

theorem inv_run {events : List (Event τ M)} (hx : StepsMeet step NoOverlap .new events)
    (h : runSteps step .new events = some s) : Inv s :=
  runSteps_invariant step Inv (fun _ _ _ hi hx hs => hi.step hx hs) inv_new hx h

end Step

/-! ## The overlaps -/

section Overlap

variable [DecidableEq τ] {s s' : State τ M} {g id : Nat} {sub : Subscriber τ M}

/-- A publisher at a send on an open channel gets on with its loop, if need be after the
subscriber has received a message. -/
theorem send_continues {wait : Bool} {ty : τ} {msg : M} {todo : List Nat}
    (hp : s.pos g = .send wait ty msg id todo) (hsub : s.sub id = some sub)
    (hopen : sub.closed = false) :
    ∃ later s', runSteps step s later = some s' ∧ s'.pos g = .loop wait ty msg todo ∧
      ∀ i, i ≠ id → s'.sub i = s.sub i := by
  cases hroom : sub.chan.hasRoom with
  | true =>
    refine ⟨[.go g], (s.setSub id { sub with chan := sub.chan.trySend msg }).goto g
      (.loop wait ty msg todo), ?_, Function.update_self .., ?_⟩
    · simp [runSteps, step, hp, go, hsub, hopen, hroom]
    · exact fun i hi => Function.update_of_ne hi ..
  | false =>
    -- a full buffer is not empty
    obtain ⟨m, chan, hrecv, hroom'⟩ := sub.chan.receive_of_full hroom
    refine ⟨[.receive id, .go g], ((s.setSub id { sub with chan := chan }).setSub id
      { sub with chan := chan.trySend msg }).goto g (.loop wait ty msg todo), ?_,
      Function.update_self .., ?_⟩
    · simp [runSteps, step, receive, hsub, hrecv, State.setSub, hp, go, hopen, hroom']
    · intro i hi
      simp [State.goto, State.setSub, hi]

/-- A publisher that has still to serve a closed channel comes to the send. -/
theorem due_unsafe (htarget : ∀ i, (s.pos g).target = some i → ∃ sub, s.sub i = some sub)
    (hsub : s.sub id = some sub) (hclosed : sub.closed = true) (hdue : id ∈ (s.pos g).due sub.ty) :
    ∃ later s', runSteps step s later = some s' ∧ ¬Safe s' := by
  have hloop : ∀ s₁ : State τ M, ∀ wait msg todo, s₁.pos g = .loop wait sub.ty msg todo →
      id ∈ todo → s₁.sub id = some sub →
      ∃ s', runSteps step s₁ [.visit g id] = some s' ∧ ¬Safe s' := by
    intro s₁ wait msg todo hp hmem hsub₁
    refine ⟨s₁.goto g (.send wait sub.ty msg id (todo.erase id)), ?_, fun hsafe => ?_⟩
    · simp [runSteps, step, visit, hp, hsub₁, hmem]
    · have hopen := hsafe g id sub (by simp [State.goto, Pos.target]) hsub₁
      rw [hclosed] at hopen
      cases hopen
  cases hp : s.pos g with
  | loop wait ty msg todo =>
    rw [hp] at hdue
    simp only [Pos.due] at hdue
    split at hdue
    · next hty =>
      subst hty
      obtain ⟨s', hrun, hs'⟩ := hloop s wait msg todo hp hdue hsub
      exact ⟨_, s', hrun, hs'⟩
    · cases hdue
  | send wait ty msg i todo =>
    rw [hp] at hdue htarget
    simp only [Pos.due] at hdue
    split at hdue
    · next hty =>
      subst hty
      obtain ⟨subᵢ, hsubᵢ⟩ := htarget i rfl
      cases hopen : subᵢ.closed with
      | true =>
        refine ⟨[], s, rfl, fun hsafe => ?_⟩
        have hnot := hsafe g i subᵢ (by rw [hp]; rfl) hsubᵢ
        rw [hopen] at hnot
        cases hnot
      | false =>
        have hne : id ≠ i := by
          rintro rfl
          cases hsub.symm.trans hsubᵢ
          rw [hclosed] at hopen
          cases hopen
        have hmem : id ∈ todo := (List.mem_cons.mp hdue).resolve_left hne
        obtain ⟨later, s₁, hrun, hp₁, hsub₁⟩ := send_continues hp hsubᵢ hopen
        obtain ⟨s', hrun', hs'⟩ := hloop s₁ wait msg todo hp₁ hmem ((hsub₁ id hne).trans hsub)
        exact ⟨later ++ [.visit g id], s', runSteps_append step hrun hrun', hs'⟩
    · cases hdue
  | _ =>
    rw [hp] at hdue
    cases hdue

omit [DecidableEq τ] in
theorem Inv.target_exists (hi : Inv s) {i : Nat} (ht : (s.pos g).target = some i) :
    ∃ sub, s.sub i = some sub := by
  have hok := hi.pos g
  cases hp : s.pos g with
  | send wait ty msg j todo =>
    rw [hp] at hok ht
    cases ht
    obtain ⟨⟨f, hf, -⟩, -⟩ := hok
    obtain ⟨sub, hsub, -⟩ := Option.map_eq_some_iff.mp hf
    exact ⟨sub, hsub⟩
  | sendLast j msg =>
    rw [hp] at hok ht
    cases ht
    obtain ⟨f, hf, -⟩ := hok
    obtain ⟨sub, hsub, -⟩ := Option.map_eq_some_iff.mp hf
    exact ⟨sub, hsub⟩
  | _ =>
    rw [hp] at ht
    cases ht

/-- `Unsubscribe` closes a channel that a publisher has still to serve. -/
theorem close_unsafe {h : Nat} (hi : Inv s) (hp : s.pos g = .close id)
    (hsub : s.sub id = some sub) (hdue : id ∈ (s.pos h).due sub.ty)
    (hgo : go s g (.close id) = some s') :
    ∃ later s'', runSteps step s' later = some s'' ∧ ¬Safe s'' := by
  have hne : h ≠ g := by
    rintro rfl
    rw [hp] at hdue
    cases hdue
  have hafter : s'.pos h = s.pos h ∧ s'.sub = Function.update s.sub id
      (some { sub with closed := true }) := by
    simp only [go, hsub, Option.bind_eq_bind, Option.bind_some] at hgo
    split at hgo
    · next hclosed =>
      cases hgo
      have hsame : { sub with closed := true } = sub := by rw [← hclosed]
      refine ⟨Function.update_of_ne hne .., ?_⟩
      rw [hsame, ← hsub, Function.update_eq_self]
      rfl
    · cases hgo
      exact ⟨Function.update_of_ne hne .., rfl⟩
  obtain ⟨hpos, hsub'⟩ := hafter
  have hid : s'.sub id = some { sub with closed := true } := by
    rw [hsub', Function.update_self]
  refine due_unsafe (fun i ht => ?_) hid rfl (hpos ▸ hdue)
  rw [hpos] at ht
  obtain ⟨subᵢ, hsubᵢ⟩ := hi.target_exists ht
  by_cases hii : i = id
  · subst hii
    exact ⟨_, hid⟩
  · exact ⟨subᵢ, by rw [hsub', Function.update_of_ne hii, hsubᵢ]⟩

/-- A publisher takes the lock while a closed channel of its type is in the map. -/
theorem lock_unsafe {wait : Bool} {ty : τ} {msg : M} (hmem : id ∈ s.subs)
    (hsub : s.sub id = some sub) (hty : sub.ty = ty) (hclosed : sub.closed = true)
    (hgo : go s g (.lockPublish wait ty msg) = some s') :
    ∃ later s'', runSteps step s' later = some s'' ∧ ¬Safe s'' := by
  subst hty
  simp only [go] at hgo
  split at hgo
  · cases hgo
    refine due_unsafe (g := g) (fun i ht => ?_) hsub hclosed ?_
    · simp [State.goto, Pos.target] at ht
    · simpa [State.goto, Pos.due] using hmem
  · cases hgo

theorem overlap_unsafe {x : Event τ M} (hi : Inv s) (hx : ¬NoOverlap s x) (h : step s x = some s') :
    ∃ later s'', runSteps step s' later = some s'' ∧ ¬Safe s'' := by
  cases x with
  | go g =>
    change go s g (s.pos g) = some s' at h
    change ¬Apart s (s.pos g) at hx
    cases hp : s.pos g with
    | close id =>
      rw [hp] at h hx
      simp only [Apart, not_forall, not_not] at hx
      obtain ⟨sub, hsub, h', -, hdue⟩ := hx
      exact close_unsafe hi hp hsub hdue h
    | lockPublish wait ty msg =>
      rw [hp] at h hx
      simp only [Apart, not_forall, Bool.not_eq_false] at hx
      obtain ⟨id, hmem, sub, hsub, hty, hclosed⟩ := hx
      exact lock_unsafe hmem hsub hty hclosed h
    | _ =>
      rw [hp] at hx
      exact absurd trivial hx
  | _ => exact absurd trivial hx

/-- **Sends on closed channels.** As long as `Unsubscribe` and the publishers of its type do not
overlap, no goroutine is at a send on a closed channel; and from the first step in which
they overlap such a state is reached. -/
theorem send_closed_exact {events : List (Event τ M)}
    (hx : StepsMeet step NoOverlap .new events) (h : runSteps step .new events = some s) :
    Safe s ∧ ∀ x s', step s x = some s' → ¬NoOverlap s x →
      ∃ later s'', runSteps step s' later = some s'' ∧ ¬Safe s'' := by
  have hi := inv_run hx h
  exact ⟨hi.safe, fun x s' hs hover => overlap_unsafe hi hover hs⟩

end Overlap

/-- Two subscribers of a type, a message to both, and the first leaves before the next one. -/
def leaveBetween : List (Event Unit Nat) :=
  [.call 0 (.subscribe () 1), .go 0, .go 0, .go 0,
   .call 0 (.subscribe () 1), .go 0, .go 0, .go 0,
   .call 1 (.publish () 7), .go 1, .visit 1 1, .go 1, .visit 1 2, .go 1, .go 1, .receive 2,
   .call 0 (.unsubscribe 1), .go 0, .go 0, .go 0, .go 0, .go 0, .go 0,
   .call 1 (.publish () 8), .go 1, .visit 1 2]

theorem send_closed_leaveBetween : StepsMeet step NoOverlap .new leaveBetween ∧
      ∃ s, runSteps step .new leaveBetween = some s ∧ Safe s :=
  have hx : StepsMeet step NoOverlap .new leaveBetween := by decide
  ⟨hx, _, rfl, (send_closed_exact hx rfl).1⟩

/-- `Unsubscribe` has closed the channel and has not taken the lock; `Publish` takes it, finds the
subscriber in the map, and its send panics. -/
theorem publish_after_close : ∃ s s' : State Unit Nat, runSteps step .new
      [.call 0 (.subscribe () 1), .go 0, .go 0, .go 0,
       .call 0 (.unsubscribe 1), .go 0, .go 0, .go 0,
       .call 1 (.publish () 7), .go 1, .visit 1 1] = some s ∧ ¬Safe s ∧
      step s (.go 1) = some s' ∧ s'.panics = 1 := by
  refine ⟨_, _, rfl, fun hsafe => ?_, rfl, rfl⟩
  have hopen := hsafe 1 1 _ rfl rfl
  cases hopen

end Scout.EventBus.Interleaving
