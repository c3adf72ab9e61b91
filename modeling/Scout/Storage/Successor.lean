import Scout.Storage.Kv

/-!
`Next` and `NextKey` against the order of the addresses. Both count the bytes of the key from
the first one on, while `Compare` looks at the first byte first. The successor of a key is the
next key of its length only for keys of one byte and for keys whose bytes are all 255.
-/

namespace Scout.Kv

open Data Lib

/-- `Next` comes after the address, and no address with a key of the same length lies between. -/
structure Address.NextOk (a : Address) : Prop where
  forward : a.compare a.next < 0
  adjacent : ∀ b : Address, b.Fits → b.key.length = a.key.length →
    ¬ (a.compare b < 0 ∧ b.compare a.next < 0)

/-- `NextKey` comes after every version of the key, and not after the first version of a
greater key of the same length. -/
structure Address.NextKeyOk (a : Address) : Prop where
  forward : ∀ t ≤ maxUint64, Address.compare ⟨a.keyspace, a.key, t⟩ a.nextKey < 0
  adjacent : ∀ k : Bytes, k.length = a.key.length → a.key < k →
    a.nextKey.compare ⟨a.keyspace, k, maxUint64⟩ ≤ 0

/-- The last address with a key of its length. -/
def Address.IsLast (a : Address) : Prop :=
  a.keyspace + 1 = 2 ^ 32 ∧ a.key.all (· == 255) = true ∧ a.timestamp = 0

/-- A key whose successor is the next one of its length. -/
def SimpleKey (key : Bytes) : Prop := key.length ≤ 1 ∨ key.all (· == 255) = true
  deriving Decidable

/-! ## Keys of one length -/

variable {k : Bytes}

theorem le_of_all_max {m : Bytes} (hm : m.all (· == 255) = true) (hl : k.length = m.length) :
    k ≤ m := by
  induction k generalizing m with
  | nil =>
    obtain rfl := List.length_eq_zero_iff.mp hl.symm
    exact le_rfl
  | cons b k ih =>
    obtain _ | ⟨c, m⟩ := m
    · cases hl
    rw [List.all_cons, Bool.and_eq_true, beq_iff_eq] at hm
    rw [← not_lt, List.cons_lt_cons_iff, not_or]
    refine ⟨by rw [hm.1, not_lt]; exact Fin.le_last b, ?_⟩
    rintro ⟨_, hlt⟩
    exact absurd (ih hm.2 (by simpa using hl)) (not_le.mpr hlt)

theorem le_of_zeros {n : Nat} (hl : k.length = n) : List.replicate n 0 ≤ k := by
  induction k generalizing n with
  | nil =>
    subst hl
    exact le_rfl
  | cons b k ih =>
    subst hl
    rw [List.length_cons, List.replicate_succ, ← not_lt, List.cons_lt_cons_iff, not_or]
    refine ⟨not_lt.mpr (Fin.zero_le b), ?_⟩
    rintro ⟨_, hlt⟩
    exact absurd (ih rfl) (not_le.mpr hlt)

theorem replicate_all (n : Nat) : (List.replicate n (255 : Byte)).all (· == 255) = true := by
  simp

theorem lt_maxKey (h : k.all (· == 255) = false) : k < List.replicate k.length 255 := by
  refine lt_of_le_of_ne (le_of_all_max (replicate_all _) (by simp)) ?_
  intro he
  rw [he, replicate_all] at h
  cases h

theorem zeros_lt_maxKey (hk : k ≠ []) (h : k.all (· == 255) = true) :
    List.replicate k.length 0 < k := by
  obtain _ | ⟨b, k⟩ := k
  · exact absurd rfl hk
  rw [List.all_cons, Bool.and_eq_true, beq_iff_eq] at h
  rw [List.length_cons, List.replicate_succ, List.cons_lt_cons_iff, h.1]
  exact .inl (by decide)

theorem incrementKey_all_max (h : k.all (· == 255) = true) :
    (incrementKey k).1 = List.replicate k.length 0 := by
  induction k with
  | nil => rfl
  | cons b k ih =>
    rw [List.all_cons, Bool.and_eq_true, beq_iff_eq] at h
    rw [incrementKey, h.1, if_neg (by decide), List.length_cons, List.replicate_succ, ih h.2]

/-- A key of two bytes or more is followed by another one of its length before the key that
`incrementKey` makes of it, unless that one wraps back. -/
theorem exists_between {b : Byte} {bs : Bytes} (hb : b ≠ 255) (hbs : bs ≠ []) :
    ∃ k : Bytes, k.length = (b :: bs).length ∧ b :: bs < k ∧ k < (b + 1) :: bs := by
  cases hall : bs.all (· == 255) with
  | false =>
    refine ⟨b :: List.replicate bs.length 255, by simp, ?_, ?_⟩
    · rw [List.cons_lt_cons_iff]
      exact .inr ⟨rfl, lt_maxKey hall⟩
    · rw [List.cons_lt_cons_iff]
      exact .inl (byte_succ hb).2
  | true =>
    refine ⟨(b + 1) :: List.replicate bs.length 0, by simp, ?_, ?_⟩
    · rw [List.cons_lt_cons_iff]
      exact .inl (byte_succ hb).2
    · rw [List.cons_lt_cons_iff]
      exact .inr ⟨rfl, zeros_lt_maxKey hbs hall⟩

/-! ## The successor of a key -/

variable {a : Address}

theorem nextKey_of_not_max (h : a.key.all (· == 255) = false) :
    a.nextKey = ⟨a.keyspace, (incrementKey a.key).1, maxUint64⟩ := by
  rw [Address.nextKey, incrementKey_carry, h]
  rfl

/-- When the first byte carries, the successor lies before the key. -/
theorem nextKey_wraps (h : a.key.all (· == 255) = false) (hhead : a.key.head? = some 255) :
    a.nextKey < ⟨a.keyspace, a.key, maxUint64⟩ := by
  obtain ⟨ks, key, t⟩ := a
  obtain _ | ⟨b, bs⟩ := key
  · cases hhead
  cases hhead
  rw [nextKey_of_not_max h, Address.lt_iff, incrementKey, if_neg (by decide)]
  refine .inr ⟨rfl, .inl ?_⟩
  rw [List.cons_lt_cons_iff]
  exact .inl (by decide)

theorem nextKey_lt_of_wrapsBack (h : a.wrapsBack = true) :
    a.nextKey < ⟨a.keyspace, a.key, maxUint64⟩ := by
  unfold Address.wrapsBack at h
  split at h
  · rename_i hall
    have hks : a.keyspace + 1 = 2 ^ 32 := by simpa using h
    rw [Address.nextKey, incrementKey_carry, if_pos hall, hks, Address.lt_iff]
    left
    dsimp only
    omega
  · rename_i hall
    exact nextKey_wraps (by simpa using hall) (by simpa using h)

/-- Two bytes or more, not all 255: the successor wraps back or passes over a key. -/
theorem nextKey_fails (h : ¬ SimpleKey a.key) : a.nextKey < ⟨a.keyspace, a.key, maxUint64⟩ ∨
    ∃ k : Bytes, k.length = a.key.length ∧ a.key < k ∧ (⟨a.keyspace, k, 0⟩ : Address) < a.nextKey ∧
      (⟨a.keyspace, k, maxUint64⟩ : Address) < a.nextKey := by
  obtain ⟨hlen, hall⟩ := not_or.mp h
  rw [Bool.not_eq_true] at hall
  by_cases hhead : a.key.head? = some 255
  · exact .inl (nextKey_wraps hall hhead)
  right
  obtain ⟨ks, key, t⟩ := a
  obtain _ | ⟨b, bs⟩ := key
  · exact absurd (Nat.zero_le 1) hlen
  have hb : b ≠ 255 := fun e => hhead (by rw [e]; rfl)
  have hbs : bs ≠ [] := by
    rintro rfl
    exact hlen le_rfl
  obtain ⟨k, hk, hlt, hlt'⟩ := exists_between hb hbs
  have hnext : Address.nextKey ⟨ks, b :: bs, t⟩ = ⟨ks, (b + 1) :: bs, maxUint64⟩ := by
    rw [nextKey_of_not_max hall, incrementKey, if_pos (byte_succ hb).1]
  refine ⟨k, hk, hlt, ?_, ?_⟩
  · rw [hnext, Address.lt_iff]
    exact .inr ⟨rfl, .inl hlt'⟩
  · rw [hnext, Address.lt_iff]
    exact .inr ⟨rfl, .inl hlt'⟩

/-- **The successor of a simple key** comes after all versions of the key, and before or at
every later address with a key of the same length. -/
theorem nextKey_least (ha : a.Fits) (hs : SimpleKey a.key)
    (hlast : ¬ (a.keyspace + 1 = 2 ^ 32 ∧ a.key.all (· == 255) = true)) :
    (∀ t, (⟨a.keyspace, a.key, t⟩ : Address) < a.nextKey) ∧
    ∀ b : Address, b.Fits → b.key.length = a.key.length →
      (⟨a.keyspace, a.key, 0⟩ : Address) < b → a.nextKey ≤ b := by
  cases hall : a.key.all (· == 255) with
  | true =>
    have hks : (a.keyspace + 1) % 2 ^ 32 = a.keyspace + 1 := by
      have := ha.keyspace_lt
      have hne : a.keyspace + 1 ≠ 2 ^ 32 := fun e => hlast ⟨e, hall⟩
      exact Nat.mod_eq_of_lt (by omega)
    have hnext : a.nextKey = ⟨a.keyspace + 1, List.replicate a.key.length 0, maxUint64⟩ := by
      rw [Address.nextKey, incrementKey_carry, hall, if_pos rfl, hks, incrementKey_all_max hall]
    rw [hnext]
    refine ⟨fun t => Address.lt_iff.mpr (.inl (Nat.lt_succ_self _)), ?_⟩
    intro b hb hl hlt
    rw [← not_lt, Address.lt_iff]
    have hmax := le_of_all_max hall hl
    have hzero := le_of_zeros hl
    have hts := hb.timestamp_le
    rw [Address.lt_iff] at hlt
    dsimp only at hlt ⊢
    rintro (h | ⟨h, h' | ⟨_, h'⟩⟩)
    · rcases hlt with hlt | ⟨_, hlt | ⟨_, hlt⟩⟩
      · omega
      · exact absurd hmax (not_le.mpr hlt)
      · omega
    · exact absurd hzero (not_le.mpr h')
    · omega
  | false =>
    obtain ⟨ks, key, t⟩ := a
    have hlen : key.length ≤ 1 := hs.resolve_right (by rw [hall]; decide)
    obtain _ | ⟨c, _ | ⟨d, key⟩⟩ := key
    · cases hall
    · have hc : c ≠ 255 := by
        rintro rfl
        cases hall
      obtain ⟨hne, hlt⟩ := byte_succ hc
      have hnext : Address.nextKey ⟨ks, [c], t⟩ = ⟨ks, [c + 1], maxUint64⟩ := by
        rw [nextKey_of_not_max hall, incrementKey, if_pos hne]
      rw [hnext]
      refine ⟨fun t => Address.lt_iff.mpr (.inr ⟨rfl, .inl ?_⟩), ?_⟩
      · rw [List.cons_lt_cons_iff]
        exact .inl hlt
      · rintro ⟨ks', k, t'⟩ hb hl hab
        obtain ⟨e, rfl⟩ := List.length_eq_one_iff.mp hl
        have hts := hb.timestamp_le
        rw [← not_lt, Address.lt_iff]
        rw [Address.lt_iff] at hab
        simp only [List.cons_lt_cons_iff, List.not_lt_nil, and_false, or_false,
          List.cons.injEq, and_true] at hab ⊢
        have hsucc : (c + 1).val = c.val + 1 := by
          have := c.isLt
          have hv : c.val ≠ 255 := fun h => hc (Fin.ext h)
          rw [Fin.val_add]
          exact Nat.mod_eq_of_lt (by simp; omega)
        rw [Fin.lt_def, Fin.ext_iff] at hab ⊢
        dsimp only at hts
        omega
    · exact absurd hlen (by simp)

/-! ## The two successors -/

theorem next_of_pos (ha : a.Fits) (ht : 0 < a.timestamp) :
    a.next = ⟨a.keyspace, a.key, a.timestamp - 1⟩ := by
  have hle := ha.timestamp_le
  rw [Address.next, decUint64_of_pos ht, if_pos (by omega)]

theorem next_of_zero (ht : a.timestamp = 0) : a.next = a.nextKey := by
  rw [Address.next, ht]
  rfl

theorem nextOk_of_pos (ha : a.Fits) (ht : 0 < a.timestamp) : a.NextOk := by
  have hnext := next_of_pos ha ht
  constructor
  · rw [Address.compare_neg, hnext, Address.lt_iff]
    exact .inr ⟨rfl, .inr ⟨rfl, Nat.sub_lt ht Nat.one_pos⟩⟩
  · rintro b _ _ ⟨h1, h2⟩
    rw [Address.compare_neg, Address.lt_iff] at h1 h2
    rw [hnext] at h2
    dsimp only at h2
    rcases h1 with h1 | ⟨_, h1 | ⟨_, h1⟩⟩
    · omega
    · rcases h2 with h2 | ⟨_, h2 | ⟨h2, _⟩⟩
      · omega
      · exact lt_asymm h1 h2
      · exact absurd h1 (by rw [h2]; exact lt_irrefl _)
    · rcases h2 with h2 | ⟨_, h2 | ⟨_, h2⟩⟩
      · omega
      · rename_i hkey _
        exact absurd h2 (by rw [hkey]; exact lt_irrefl _)
      · omega

theorem nextOk_of_zero (ha : a.Fits) (ht : a.timestamp = 0) (hlast : ¬ a.IsLast) :
    a.NextOk ↔ SimpleKey a.key := by
  have haz : a = ⟨a.keyspace, a.key, 0⟩ := by rw [← ht]
  constructor
  · rintro ⟨hforward, hadjacent⟩
    rw [next_of_zero ht] at hforward hadjacent
    by_contra hs
    rw [Address.compare_neg] at hforward
    rcases nextKey_fails hs with hwrap | ⟨k, hl, hlt, hbefore, _⟩
    · have hle : (⟨a.keyspace, a.key, maxUint64⟩ : Address) ≤ a := by
        rw [← not_lt, Address.lt_iff]
        simp [ht]
      exact absurd hforward (not_lt.mpr (hwrap.le.trans hle))
    · refine hadjacent ⟨a.keyspace, k, 0⟩ ⟨ha.keyspace_lt, Nat.zero_le _⟩ hl ⟨?_, ?_⟩
      · rw [Address.compare_neg, Address.lt_iff]
        exact .inr ⟨rfl, .inl hlt⟩
      · rw [Address.compare_neg]
        exact hbefore
  · intro hs
    obtain ⟨hforward, hleast⟩ := nextKey_least ha hs fun h => hlast ⟨h.1, h.2, ht⟩
    constructor
    · rw [next_of_zero ht, Address.compare_neg]
      have h := hforward 0
      rwa [← haz] at h
    · rintro b hb hl ⟨h1, h2⟩
      rw [Address.compare_neg] at h1 h2
      rw [next_of_zero ht] at h2
      rw [haz] at h1
      exact absurd (hleast b hb hl h1) (not_le.mpr h2)

theorem nextKeyOk_iff (ha : a.Fits) (hmax : a.key.all (· == 255) = false) :
    a.NextKeyOk ↔ SimpleKey a.key := by
  constructor
  · rintro ⟨hforward, hadjacent⟩
    by_contra hs
    rcases nextKey_fails hs with hwrap | ⟨k, hl, hlt, _, hbefore⟩
    · exact absurd (Address.compare_neg.mp (hforward maxUint64 le_rfl)) (not_lt.mpr hwrap.le)
    · have hle := hadjacent k hl hlt
      exact absurd (Address.compare_pos.mpr hbefore) (not_lt.mpr hle)
  · intro hs
    obtain ⟨hforward, hleast⟩ := nextKey_least ha hs fun h => by rw [hmax] at h; cases h.2
    constructor
    · exact fun t _ => Address.compare_neg.mpr (hforward t)
    · intro k hl hlt
      rw [← not_lt, Address.compare_pos, not_lt]
      refine hleast ⟨a.keyspace, k, maxUint64⟩ ⟨ha.keyspace_lt, le_rfl⟩ hl ?_
      rw [Address.lt_iff]
      exact .inr ⟨rfl, .inl hlt⟩

/-- **When the successors move to the next address.** `Next` does among the versions of a key,
and both do at keys of at most one byte and at keys whose bytes are all 255. -/
theorem next_forward_iff {a : Address} (ha : a.Fits) :
    (¬ a.IsLast → (a.NextOk ↔ 0 < a.timestamp ∨ SimpleKey a.key)) ∧
    (a.key.all (· == 255) = false → (a.NextKeyOk ↔ SimpleKey a.key)) := by
  refine ⟨fun hlast => ?_, nextKeyOk_iff ha⟩
  rcases Nat.eq_zero_or_pos a.timestamp with ht | ht
  · rw [nextOk_of_zero ha ht hlast, ht]
    simp
  · exact iff_of_true (nextOk_of_pos ha ht) (.inl ht)

/-- The successor of `[1, 0]` passes over `[1, 1]`, and that of `[255, 1]` lies before it. -/
theorem next_not_adjacent : Address.compare ⟨16, [1, 0], 0⟩ ⟨16, [1, 1], 5⟩ < 0 ∧
    Address.compare ⟨16, [1, 1], 5⟩ (Address.next ⟨16, [1, 0], 0⟩) < 0 ∧
    Address.compare ⟨16, [1, 1], maxUint64⟩ (Address.nextKey ⟨16, [1, 0], 0⟩) < 0 ∧
    Address.compare (Address.next ⟨16, [255, 1], 0⟩) ⟨16, [255, 1], 0⟩ < 0 ∧
    Address.compare (Address.nextKey ⟨16, [255, 1], 0⟩) ⟨16, [255, 1], maxUint64⟩ < 0 := by
  decide

/-- A key of one byte, its last version. -/
theorem next_forward_iff_byte : Address.NextOk ⟨16, [7], 0⟩ ∧ Address.NextKeyOk ⟨16, [7], 0⟩ := by
  obtain ⟨hnext, hkey⟩ := next_forward_iff (a := ⟨16, [7], 0⟩) ⟨by decide, by decide⟩
  exact ⟨(hnext (fun h => absurd h.1 (by decide))).mpr (by decide), (hkey rfl).mpr (by decide)⟩

end Scout.Kv
