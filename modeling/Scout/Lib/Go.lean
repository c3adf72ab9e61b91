import Scout.Lib.Loop

/-!
What the models of Go code share: computations that can return an error or
panic, loops over them, and maps that may be nil.
-/

namespace Scout.Lib

/-! ## Errors and panics -/

inductive Fault (ε : Type) where
  | panic
  | err (e : ε)
  deriving DecidableEq, Repr

/-- A computation that returns a value, returns an error, or panics. -/
abbrev Go (ε α : Type) := Except (Fault ε) α

def deref {ε α : Type} : Option α → Go ε α
  | some a => .ok a
  | none => .error .panic

@[simp] theorem deref_some {ε α : Type} (a : α) : (deref (some a) : Go ε α) = .ok a := rfl

theorem deref_eq_ok {ε α : Type} {o : Option α} {a : α} :
    (deref o : Go ε α) = .ok a ↔ o = some a := by
  cases o with
  | none => exact ⟨nofun, nofun⟩
  | some b =>
    constructor
    · rintro ⟨⟩
      rfl
    · rintro ⟨⟩
      rfl

section Loops

variable {ε α σ : Type}

theorem bind_eq_ok {x : Except ε α} {f : α → Except ε σ} {s : σ} :
    (x >>= f) = .ok s ↔ ∃ a, x = .ok a ∧ f a = .ok s := by
  cases x with
  | error e => exact ⟨nofun, fun ⟨_, h, _⟩ => nomatch h⟩
  | ok a =>
    constructor
    · intro h
      exact ⟨a, rfl, h⟩
    · rintro ⟨_, ⟨⟩, h⟩
      exact h

theorem bind_eq_error {x : Except ε α} {f : α → Except ε σ} {e : ε} :
    (x >>= f) = .error e ↔ x = .error e ∨ ∃ a, x = .ok a ∧ f a = .error e := by
  cases x with
  | error e' =>
    constructor
    · rintro ⟨⟩
      exact .inl rfl
    · rintro (⟨⟨⟩⟩ | ⟨_, h, _⟩)
      · rfl
      · cases h
  | ok a =>
    constructor
    · intro h
      exact .inr ⟨a, rfl, h⟩
    · rintro (h | ⟨_, ⟨⟩, h⟩)
      · cases h
      · exact h

def NoPanic (x : Go ε α) : Prop := x ≠ .error .panic

theorem noPanic_ok (a : α) : NoPanic (.ok a : Go ε α) := nofun

theorem noPanic_deref {o : Option α} (h : o.isSome = true) : NoPanic (deref o : Go ε α) := by
  cases o with
  | none => cases h
  | some a => exact noPanic_ok a

theorem NoPanic.bind {x : Go ε α} {f : α → Go ε σ} (hx : NoPanic x)
    (hf : ∀ a, x = .ok a → NoPanic (f a)) : NoPanic (x >>= f) := by
  intro h
  rcases bind_eq_error.mp h with h | ⟨a, ha, h⟩
  · exact hx h
  · exact hf a ha h

theorem noPanic_forM {f : α → Go ε Unit} {xs : List α} (h : ∀ x ∈ xs, NoPanic (f x)) :
    NoPanic (xs.forM f) := by
  induction xs with
  | nil => exact noPanic_ok _
  | cons x xs ih =>
    exact (h x (by simp)).bind fun _ _ => ih fun y hy => h y (by simp [hy])

theorem noPanic_foldlM {f : σ → α → Go ε σ} {xs : List α} {s : σ}
    (h : ∀ s, ∀ x ∈ xs, NoPanic (f s x)) : NoPanic (xs.foldlM f s) := by
  induction xs generalizing s with
  | nil => exact noPanic_ok _
  | cons x xs ih =>
    rw [List.foldlM_cons]
    exact (h s x (by simp)).bind fun _ _ => ih fun s y hy => h s y (by simp [hy])

theorem forM_eq_ok {f : α → Except ε Unit} {xs : List α} :
    xs.forM f = .ok () ↔ ∀ x ∈ xs, f x = .ok () := by
  induction xs with
  | nil =>
    constructor
    · intro _ x hx
      cases hx
    · intro _
      rfl
  | cons x xs ih =>
    show (f x >>= fun _ => xs.forM f) = .ok () ↔ _
    rw [bind_eq_ok]
    constructor
    · rintro ⟨_, hx, hxs⟩ y hy
      rcases List.mem_cons.mp hy with rfl | hy
      · exact hx
      · exact ih.mp hxs y hy
    · intro h
      exact ⟨(), h x (by simp), ih.mpr fun y hy => h y (by simp [hy])⟩

/-- **Invariant rule for a loop**, where the invariant may mention the items
handled so far. -/
theorem foldlM_history {f : σ → α → Except ε σ} (I : List α → σ → Prop) {xs : List α} {s s' : σ}
    (h : xs.foldlM f s = .ok s') (h₀ : I [] s)
    (hstep : ∀ pre x post s s', xs = pre ++ x :: post → I pre s → f s x = .ok s' →
      I (pre ++ [x]) s') : I xs s' := by
  have key : ∀ pre post s, xs = pre ++ post → I pre s → post.foldlM f s = .ok s' → I xs s' := by
    intro pre post
    induction post generalizing pre with
    | nil =>
      intro s e hi hs
      cases hs
      rw [e, List.append_nil]
      exact hi
    | cons x post ih =>
      intro s e hi hs
      rw [List.foldlM_cons, bind_eq_ok] at hs
      obtain ⟨s₁, h₁, hs⟩ := hs
      exact ih (pre ++ [x]) s₁ (by simp [e]) (hstep pre x post s s₁ e hi h₁) hs
  exact key [] xs s rfl h₀ h

theorem foldlM_invariant {f : σ → α → Except ε σ} (I : σ → Prop) {xs : List α} {s s' : σ}
    (h : xs.foldlM f s = .ok s') (h₀ : I s)
    (hstep : ∀ x ∈ xs, ∀ s s', I s → f s x = .ok s' → I s') : I s' :=
  foldlM_history (fun _ => I) h h₀ fun pre x post s s' e hi hs =>
    hstep x (by simp [e]) s s' hi hs

/-- **Progress rule for a loop** that neither fails nor panics: the invariant may
mention the items handled so far. -/
theorem foldlM_builds {m : Type → Type} [Monad m] [LawfulMonad m] {f : σ → α → m σ}
    (I : List α → σ → Prop) (xs : List α) {s : σ} (h₀ : I [] s)
    (hstep : ∀ pre x post s, xs = pre ++ x :: post → I pre s →
      ∃ s', f s x = pure s' ∧ I (pre ++ [x]) s') : ∃ s', xs.foldlM f s = pure s' ∧ I xs s' := by
  have key : ∀ pre post s, xs = pre ++ post → I pre s →
      ∃ s', post.foldlM f s = pure s' ∧ I xs s' := by
    intro pre post
    induction post generalizing pre with
    | nil =>
      intro s e hi
      rw [List.append_nil] at e
      exact ⟨s, rfl, e ▸ hi⟩
    | cons x post ih =>
      intro s e hi
      obtain ⟨s₁, h₁, hi₁⟩ := hstep pre x post s e hi
      obtain ⟨s', h', hi'⟩ := ih (pre ++ [x]) s₁ (by simp [e]) hi₁
      exact ⟨s', by rw [List.foldlM_cons, h₁, pure_bind]; exact h', hi'⟩
  exact key [] xs s rfl h₀

/-- The invariant rule for a loop that stops when an item has no result, with what
every item of a finished loop has met. -/
theorem foldlM_each {f : σ → α → Option σ} (I : σ → Prop) (P : α → Prop) {xs : List α} {s s' : σ}
    (h : xs.foldlM f s = some s') (h₀ : I s)
    (hstep : ∀ x s s', I s → f s x = some s' → I s' ∧ P x) : I s' ∧ ∀ x ∈ xs, P x := by
  induction xs generalizing s with
  | nil =>
    cases h
    exact ⟨h₀, nofun⟩
  | cons x xs ih =>
    rw [List.foldlM_cons] at h
    obtain ⟨s₁, h₁, h⟩ := Option.bind_eq_some_iff.mp h
    obtain ⟨hi, hx⟩ := hstep x s s₁ h₀ h₁
    obtain ⟨hi', hxs⟩ := ih h hi
    exact ⟨hi', List.forall_mem_cons.mpr ⟨hx, hxs⟩⟩

end Loops

/-! ## Retries -/

section Retry

variable {ε σ : Type} (work : σ → σ × Option ε)

/-- The work is repeated while it fails, at most so many times after the first attempt; the
last error is returned. A failed attempt may have left something behind. -/
def retry : Nat → σ → σ × Option ε
  | 0, s => work s
  | n + 1, s =>
    match work s with
    | (s', none) => (s', none)
    | (s', some _) => retry n s'

variable {work}

theorem retry_ok {s s' : σ} (h : work s = (s', none)) (n : Nat) : retry work n s = (s', none) := by
  cases n with
  | zero => exact h
  | succ n => rw [retry, h]

variable (work) in
/-- An attempt that fails where the first one left off fails for ever. -/
theorem retry_fails {s s' : σ} {e e' : ε} (h : work s = (s', some e))
    (h' : work s' = (s', some e')) (n : Nat) : ∃ x, retry work n s = (s', some x) := by
  induction n generalizing s e with
  | zero => exact ⟨e, h⟩
  | succ n ih =>
    rw [retry, h]
    exact ih h'

end Retry

/-! ## One computation follows another -/

section Lifts

variable {ε α β γ δ σ τ : Type} {N : Prop}

/-- The second computation does what the first one does, on values translated by
`φ`; only where `N` holds, the first one may panic alone. -/
def Lifts (N : Prop) (φ : α → β) (x : Go ε α) (y : Go ε β) : Prop :=
  match x with
  | .ok a => y = .ok (φ a)
  | .error (.err e) => y = .error (.err e)
  | .error .panic => y = .error .panic ∨ N

theorem Lifts.ok {φ : α → β} (a : α) : Lifts N φ (.ok a : Go ε α) (.ok (φ a)) := rfl

theorem Lifts.deref {φ : α → β} (o : Option α) :
    Lifts N φ (deref o : Go ε α) (deref (o.map φ)) := by
  cases o with
  | none => exact .inl rfl
  | some a => rfl

theorem Lifts.refl (x : Go ε α) : Lifts N id x x := by
  rcases x with (_ | e) | a
  · exact .inl rfl
  · rfl
  · rfl

theorem Lifts.bind {φ : α → β} {ψ : γ → δ} {x : Go ε α} {y : Go ε β} {k : α → Go ε γ}
    {k' : β → Go ε δ} (h : Lifts N φ x y) (hk : ∀ a, x = .ok a → Lifts N ψ (k a) (k' (φ a))) :
    Lifts N ψ (x >>= k) (y >>= k') := by
  rcases x with (_ | e) | a
  · rcases h with rfl | hN
    · exact .inl rfl
    · exact .inr hN
  · obtain rfl : y = .error (.err e) := h
    rfl
  · obtain rfl : y = .ok (φ a) := h
    exact hk a rfl

theorem Lifts.foldlM {φ : σ → τ} {f : σ → α → Go ε σ} {g : τ → α → Go ε τ} (J : σ → Prop)
    {xs : List α} {s : σ} (hs : J s) (hJ : ∀ x ∈ xs, ∀ s s', J s → f s x = .ok s' → J s')
    (h : ∀ x ∈ xs, ∀ s, J s → Lifts N φ (f s x) (g (φ s) x)) :
    Lifts N φ (xs.foldlM f s) (xs.foldlM g (φ s)) := by
  induction xs generalizing s with
  | nil => rfl
  | cons x xs ih =>
    rw [List.foldlM_cons, List.foldlM_cons]
    refine (h x (by simp) s hs).bind fun s₁ h₁ => ?_
    exact ih (hJ x (by simp) s s₁ hs h₁) (fun y hy => hJ y (by simp [hy]))
      fun y hy => h y (by simp [hy])

theorem Lifts.foldlM_of_forall {φ : σ → τ} {f : σ → α → Go ε σ} {g : τ → α → Go ε τ}
    (h : ∀ s x, Lifts N φ (f s x) (g (φ s) x)) (xs : List α) (s : σ) :
    Lifts N φ (xs.foldlM f s) (xs.foldlM g (φ s)) :=
  Lifts.foldlM (fun _ => True) trivial (fun _ _ _ _ _ _ => trivial) fun x _ s _ => h s x

theorem Lifts.bind_same {ψ : γ → δ} {x : Go ε α} {k : α → Go ε γ} {k' : α → Go ε δ}
    (hk : ∀ a, x = .ok a → Lifts N ψ (k a) (k' a)) : Lifts N ψ (x >>= k) (x >>= k') :=
  (Lifts.refl x).bind hk

end Lifts

/-! ## Maps -/

/-- **A loop that updates entries**, each key at most once. -/
theorem foldl_update {σ κ α β : Type} [DecidableEq κ] (get : σ → κ → Option β)
    (f : σ → κ → α → σ) (g : α → β → β)
    (hf : ∀ s k a k', get (f s k a) k' = if k' = k then (get s k).map (g a) else get s k')
    (m : AList fun _ : κ => α) (s : σ) (k : κ) :
    get (m.entries.foldl (fun s e => f s e.1 e.2) s) k =
      (m.lookup k).elim (get s k) fun a => (get s k).map (g a) := by
  have key : ∀ (l : List (Sigma fun _ : κ => α)) (s : σ), l.NodupKeys →
      get (l.foldl (fun s e => f s e.1 e.2) s) k =
        (l.dlookup k).elim (get s k) fun a => (get s k).map (g a) := by
    intro l
    induction l with
    | nil =>
      intro s _
      rfl
    | cons e l ih =>
      intro s hl
      obtain ⟨hne, hl⟩ := List.nodupKeys_cons.mp hl
      rw [List.foldl_cons, ih _ hl, hf]
      by_cases hk : k = e.1
      · subst hk
        rw [List.dlookup_eq_none.mpr hne, List.dlookup_cons_eq, if_pos rfl]
        rfl
      · rw [List.dlookup_cons_ne _ _ hk, if_neg hk]
  exact key m.entries s m.nodupKeys

/-- **A loop of assignments** that agree on the value of each key. -/
theorem foldl_assign {σ κ α β : Type} [DecidableEq κ] (get : σ → κ → Option β) (f : σ → α → σ)
    (key : α → κ) (val : α → β)
    (hf : ∀ s a k, get (f s a) k = if k = key a then some (val a) else get s k) {l : List α}
    (hl : ∀ a ∈ l, ∀ b ∈ l, key a = key b → val a = val b) (s : σ) (k : κ) (x : β) :
    get (l.foldl f s) k = some x ↔ (∃ a ∈ l, key a = k ∧ val a = x) ∨
      (∀ a ∈ l, key a ≠ k) ∧ get s k = some x := by
  induction l generalizing s with
  | nil => simp
  | cons a l ih =>
    have hrest : ∀ b ∈ l, ∀ c ∈ l, key b = key c → val b = val c :=
      fun b hb c hc => hl b (by simp [hb]) c (by simp [hc])
    rw [List.foldl_cons, ih hrest, hf]
    by_cases hk : k = key a
    · subst hk
      rw [if_pos rfl]
      constructor
      · rintro (⟨b, hb, he, hv⟩ | ⟨_, hx⟩)
        · exact .inl ⟨b, by simp [hb], he, hv⟩
        · exact .inl ⟨a, by simp, rfl, Option.some.inj hx⟩
      · rintro (⟨b, hb, he, rfl⟩ | ⟨hno, _⟩)
        · by_cases hin : ∃ c ∈ l, key c = key a
          · obtain ⟨c, hc, hce⟩ := hin
            exact .inl ⟨c, hc, hce, hl c (by simp [hc]) b hb (hce.trans he.symm)⟩
          · refine .inr ⟨fun c hc hce => hin ⟨c, hc, hce⟩, ?_⟩
            rw [hl a (by simp) b hb he.symm]
        · exact absurd rfl (hno a (by simp))
    · rw [if_neg hk]
      constructor
      · rintro (⟨b, hb, he, hv⟩ | ⟨hno, hx⟩)
        · exact .inl ⟨b, by simp [hb], he, hv⟩
        · refine .inr ⟨fun b hb => ?_, hx⟩
          rcases List.mem_cons.mp hb with rfl | hb
          · exact fun he => hk he.symm
          · exact hno b hb
      · rintro (⟨b, hb, he, hv⟩ | ⟨hno, hx⟩)
        · rcases List.mem_cons.mp hb with rfl | hb
          · exact absurd he.symm hk
          · exact .inl ⟨b, hb, he, hv⟩
        · exact .inr ⟨fun b hb => hno b (by simp [hb]), hx⟩

inductive GoMap (κ α : Type) where
  | nil
  | made (content : AList fun _ : κ => α)

namespace GoMap

variable {κ α β : Type}

def content : GoMap κ α → AList fun _ : κ => α
  | nil => ∅
  | made c => c

def empty : GoMap κ α := made ∅

def isNil : GoMap κ α → Bool
  | nil => true
  | made _ => false

def toList (m : GoMap κ α) : List (κ × α) := m.content.entries.map fun e => (e.1, e.2)

/-- A map field of a decoded message: an empty map is not on the wire. -/
def wire (m : GoMap κ α) : GoMap κ α := if m.content.entries = [] then nil else m

def mapContent (f : α → β) (c : AList fun _ : κ => α) : AList fun _ : κ => β :=
  ⟨c.entries.map (Sigma.map id fun _ => f), by
    have h := c.nodupKeys
    simp only [List.NodupKeys, List.keys, List.map_map] at h ⊢
    exact h⟩

def mapEntries (f : κ → α → β) (c : AList fun _ : κ => α) : AList fun _ : κ => β :=
  ⟨c.entries.map (Sigma.map id f), by
    have h := c.nodupKeys
    simp only [List.NodupKeys, List.keys, List.map_map] at h ⊢
    exact h⟩

def mapValues (f : α → β) : GoMap κ α → GoMap κ β
  | nil => nil
  | made c => made (mapContent f c)

def fill (m : GoMap κ α) : GoMap κ α := made m.content

@[simp] theorem content_fill (m : GoMap κ α) : m.fill.content = m.content := rfl

@[simp] theorem toList_fill (m : GoMap κ α) : m.fill.toList = m.toList := rfl

theorem mapContent_mapContent {γ : Type} (f : α → β) (g : β → γ) (c : AList fun _ : κ => α) :
    mapContent g (mapContent f c) = mapContent (g ∘ f) c :=
  AList.ext (by simp [mapContent, List.map_map, Function.comp_def, Sigma.map])

theorem content_mapValues (f : α → β) (m : GoMap κ α) :
    (m.mapValues f).content = mapContent f m.content := by
  cases m <;> rfl

theorem fill_wire (m : GoMap κ α) : m.wire.fill = m.fill := by
  unfold wire
  split
  · next h =>
    have hc : m.content = ∅ := AList.ext (by rw [h]; rfl)
    show made ∅ = made m.content
    rw [hc]
  · rfl

theorem wire_fill (m : GoMap κ α) : m.fill.wire = m.wire := by
  unfold wire
  rw [content_fill]
  cases m with
  | nil => rfl
  | made c => rfl

theorem nodup_keys (m : GoMap κ α) : (m.toList.map Prod.fst).Nodup := by
  have h := m.content.nodupKeys
  unfold toList
  rw [List.map_map]
  exact h

variable [DecidableEq κ]

def get (m : GoMap κ α) (k : κ) : Option α := m.content.lookup k

/-- Assignment to an entry; `none` is the panic of a nil map. -/
def set (m : GoMap κ α) (k : κ) (v : α) : Option (GoMap κ α) :=
  match m with
  | nil => none
  | made c => some (made (c.insert k v))

/-- The value under a present key is a pointer whose target becomes `v`. -/
def store (m : GoMap κ α) (k : κ) (v : α) : GoMap κ α :=
  match m with
  | nil => nil
  | made c => made (if (c.lookup k).isSome then c.insert k v else c)

def delete (m : GoMap κ α) (k : κ) : GoMap κ α :=
  match m with
  | nil => nil
  | made c => made (c.erase k)

@[simp] theorem get_nil (k : κ) : (nil : GoMap κ α).get k = none := rfl

@[simp] theorem get_empty (k : κ) : (empty : GoMap κ α).get k = none := rfl

@[simp] theorem get_fill (m : GoMap κ α) (k : κ) : m.fill.get k = m.get k := rfl

theorem mem_toList {m : GoMap κ α} {k : κ} {v : α} : (k, v) ∈ m.toList ↔ m.get k = some v := by
  unfold toList get
  rw [← mem_entries_iff, List.mem_map]
  constructor
  · rintro ⟨⟨k', v'⟩, he, h⟩
    cases h
    exact he
  · intro h
    exact ⟨⟨k, v⟩, h, rfl⟩

theorem forall_get {m : GoMap κ α} {P : κ → α → Prop} :
    (∀ k v, m.get k = some v → P k v) ↔ ∀ e ∈ m.toList, P e.1 e.2 := by
  constructor
  · rintro h ⟨k, v⟩ he
    exact h k v (mem_toList.mp he)
  · intro h k v hk
    exact h (k, v) (mem_toList.mpr hk)

theorem get_of_set {m m' : GoMap κ α} {k : κ} {v : α} (h : m.set k v = some m') (k' : κ) :
    m'.get k' = if k' = k then some v else m.get k' := by
  cases m with
  | nil => cases h
  | made c =>
    cases h
    by_cases hk : k' = k
    · subst hk
      simp [get, content]
    · simp [get, content, hk, AList.lookup_insert_ne hk]

theorem get_store (m : GoMap κ α) (k : κ) (v : α) (k' : κ) :
    (m.store k v).get k' = if k' = k then (m.get k).map (fun _ => v) else m.get k' := by
  cases m with
  | nil => simp [store]
  | made c =>
    show (made (if (c.lookup k).isSome then c.insert k v else c)).content.lookup k' = _
    cases hc : c.lookup k with
    | none =>
      by_cases hk : k' = k
      · subst hk
        simp [get, content, hc]
      · simp [get, content, hk]
    | some x =>
      by_cases hk : k' = k
      · subst hk
        simp [get, content, hc]
      · simp [get, content, hk, AList.lookup_insert_ne hk]

theorem get_delete (m : GoMap κ α) (k k' : κ) :
    (m.delete k).get k' = if k' = k then none else m.get k' := by
  cases m with
  | nil => simp [delete]
  | made c =>
    by_cases hk : k' = k
    · subst hk
      simp [delete, get, content]
    · simp [delete, get, content, hk, AList.lookup_erase_ne hk]

theorem mapContent_insert (f : α → β) (c : AList fun _ : κ => α) (k : κ) (v : α) :
    mapContent f (c.insert k v) = (mapContent f c).insert k (f v) := by
  apply AList.ext
  simp only [mapContent, AList.insert, List.kinsert, List.map_cons, List.kerase, List.eraseP_map]
  rfl

theorem lookup_mapContent (f : α → β) (c : AList fun _ : κ => α) (k : κ) :
    (mapContent f c).lookup k = (c.lookup k).map f :=
  @List.dlookup_map₂ κ _ (fun _ => α) (fun _ => β) c.entries (fun _ => f) k

theorem lookup_mapEntries (f : κ → α → β) (c : AList fun _ : κ => α) (k : κ) :
    (mapEntries f c).lookup k = (c.lookup k).map (f k) :=
  @List.dlookup_map₂ κ _ (fun _ => α) (fun _ => β) c.entries f k

omit [DecidableEq κ] in
theorem mapContent_congr {f g : α → β} {c : AList fun _ : κ => α}
    (h : ∀ e ∈ c.entries, f e.2 = g e.2) : mapContent f c = mapContent g c := by
  apply AList.ext
  refine List.map_congr_left fun e he => ?_
  show (⟨e.1, f e.2⟩ : Sigma fun _ => β) = ⟨e.1, g e.2⟩
  rw [h e he]

/-- The value that is stored hides the one that was there. -/
theorem mapContent_insert_congr {f g : α → β} {c : AList fun _ : κ => α} {k : κ} (v : β)
    (h : ∀ e ∈ c.entries, e.1 ≠ k → f e.2 = g e.2) :
    (mapContent f c).insert k v = (mapContent g c).insert k v := by
  have herase : mapContent f (c.erase k) = mapContent g (c.erase k) := by
    refine mapContent_congr fun e he => ?_
    have hmem : e ∈ c.entries := List.eraseP_subset he
    refine h e hmem fun hk => ?_
    have hkey : e.1 ∈ c.erase k := List.mem_map_of_mem he
    exact (AList.mem_erase.mp hkey).1 hk
  have hentries : (c.entries.kerase k).map (fun e => (⟨e.1, f e.2⟩ : Sigma fun _ => β)) =
      (c.entries.kerase k).map fun e => ⟨e.1, g e.2⟩ := congrArg AList.entries herase
  apply AList.ext
  simp only [mapContent, AList.insert, List.kinsert, List.kerase, List.eraseP_map] at hentries ⊢
  exact congrArg _ hentries

theorem fill_store (m : GoMap κ α) (k : κ) (v : α) : (m.store k v).fill = m.fill.store k v := by
  cases m <;> rfl

theorem fill_delete (m : GoMap κ α) (k : κ) : (m.delete k).fill = m.fill.delete k := by
  cases m <;> rfl

theorem lifts_set {ε : Type} {N : Prop} {m : GoMap κ α} (hN : m.isNil = true → N) (k : κ) (v : α) :
    Lifts N fill (deref (m.set k v) : Go ε (GoMap κ α)) (deref (m.fill.set k v)) := by
  cases m with
  | nil => exact .inr (hN rfl)
  | made c => rfl

theorem get_mapValues (f : α → β) (m : GoMap κ α) (k : κ) :
    (m.mapValues f).get k = (m.get k).map f := by
  cases m with
  | nil => rfl
  | made c => exact lookup_mapContent f c k

@[simp] theorem get_wire (m : GoMap κ α) (k : κ) : m.wire.get k = m.get k := by
  unfold wire
  split
  · next h =>
    have hc : m.content = ∅ := AList.ext (by rw [h]; rfl)
    show none = m.content.lookup k
    rw [hc]
    rfl
  · rfl

end GoMap

end Scout.Lib
