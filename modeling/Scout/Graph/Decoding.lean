import Scout.Graph.Encoding
import Scout.Lib.Go

/-!
The decoders of the graph keys: `DecodeVertexId`, `DecodeEdgeId` (`encoding.go`). The
offsets come from lengths inside of the key, so the slice expressions are modelled with
their bounds checks.

`decode_exact_iff` says which keys the decoders handle as they should. A vertex key is
always told apart from what is none. The edge decoder cuts off the head and four bytes
for the type before it has seen that they are there.
-/

namespace Scout.Graph

open Data Lib

/-! ## The source -/

/-- `key[low:high]` with bounds inside of the slice. -/
def slice (key : Bytes) (low high : Nat) : Go String Bytes :=
  if low ≤ high ∧ high ≤ key.length then .ok ((key.take high).drop low) else .error .panic

/-- `binary.BigEndian.Uint32`. -/
def uint32 (bytes : Bytes) : Go String UInt32 :=
  if 4 ≤ bytes.length then .ok (UInt32.ofNat (ofBigEndian (bytes.take 4))) else .error .panic

/-- The id and the number of bytes read, which is 0 with an error. -/
def decodeVertexKey (key : Bytes) : Go String (VertexId × Nat) :=
  if key.length ≤ 8 then .error (.err "key is too short")
  else do
    let valueLen := (← uint32 (← slice key 4 8)).toNat
    if valueLen = 0 then .error (.err "value length is zero")
    else if valueLen > key.length - 8 then
      .error (.err "value length too large or trimmed key")
    else
      let type ← uint32 (← slice key 0 4)
      let value ← slice key 8 (valueLen + 8)
      return (⟨type, value⟩, valueLen + 8)

/-- The padding is checked before the error. -/
def decodeVertexId (key : Bytes) : Go String VertexId :=
  match decodeVertexKey key with
  | .error .panic => .error .panic
  | .error (.err e) =>
    .error (.err (if 0 ≠ key.length then "unexpected key padding" else e))
  | .ok (id, readLen) =>
    if readLen ≠ key.length then .error (.err "unexpected key padding") else .ok id

/-- An error is replaced by another one. -/
def orErr {α : Type} (message : String) : Go String α → Go String α
  | .error (.err _) => .error (.err message)
  | x => x

def decodeEdgeId (key : Bytes) : Go String EdgeId := do
  let (head, headLen) ← orErr "invalid head key" (decodeVertexKey key)
  let rest ← slice key (headLen + 4) key.length
  let (tail, tailLen) ← orErr "invalid tail key" (decodeVertexKey rest)
  if headLen + tailLen + 4 ≠ key.length then .error (.err "unexpected key padding")
  else
    let type ← uint32 (← slice key headLen (headLen + 4))
    return ⟨type, head, tail⟩

/-! ## Parts of a key -/

/-- An id with a value that is not empty and whose length fits. -/
def VertexId.Encodable (id : VertexId) : Prop := 0 < id.value.length ∧ id.Fits
  deriving Decidable

def EdgeId.Encodable (id : EdgeId) : Prop := id.head.Encodable ∧ id.tail.Encodable
  deriving Decidable

theorem slice_append (a b c : Bytes) :
    slice (a ++ (b ++ c)) a.length (a.length + b.length) = .ok b := by
  unfold slice
  rw [if_pos (by simp), ← List.append_assoc, List.take_left' (by simp), List.drop_left]

variable {bytes : Bytes}

theorem uint32_eq (h : bytes.length = 4) :
    uint32 bytes = .ok (UInt32.ofNat (ofBigEndian bytes)) := by
  unfold uint32
  rw [if_pos h.ge, List.take_of_length_le h.le]

theorem ofBigEndian_lt_uint32 (h : bytes.length = 4) : ofBigEndian bytes < 2 ^ 32 := by
  have hlt := ofBigEndian_lt bytes
  rw [h] at hlt
  exact hlt

theorem bigEndian_uint32 (h : bytes.length = 4) :
    bigEndian 4 (UInt32.ofNat (ofBigEndian bytes)).toNat = bytes := by
  rw [UInt32.toNat_ofNat', Nat.mod_eq_of_lt (ofBigEndian_lt_uint32 h)]
  nth_rewrite 1 [← h]
  exact bigEndian_ofBigEndian bytes

variable {t : Bytes}

theorem decodeVertexKey_parts {l v : Bytes} (ht : t.length = 4) (hl : l.length = 4) (hv : v ≠ []) :
    decodeVertexKey (t ++ (l ++ v)) = if ofBigEndian l = 0 then .error (.err "value length is zero")
      else if ofBigEndian l > v.length then .error (.err "value length too large or trimmed key")
      else .ok (⟨UInt32.ofNat (ofBigEndian t), v.take (ofBigEndian l)⟩, ofBigEndian l + 8) := by
  have hlen : (t ++ (l ++ v)).length = v.length + 8 := by
    simp only [List.length_append, ht, hl]
    omega
  have hpos := List.length_pos_iff.mpr hv
  have htype : slice (t ++ (l ++ v)) 0 4 = .ok t := by
    have h := slice_append [] t (l ++ v)
    rw [ht] at h
    exact h
  have hlenBytes : slice (t ++ (l ++ v)) 4 8 = .ok l := by
    have h := slice_append t l v
    rw [ht, hl] at h
    exact h
  have htoNat : (UInt32.ofNat (ofBigEndian l)).toNat = ofBigEndian l := by
    rw [UInt32.toNat_ofNat', Nat.mod_eq_of_lt (ofBigEndian_lt_uint32 hl)]
  unfold decodeVertexKey
  rw [if_neg (by omega), hlen, hlenBytes, htype]
  simp only [bind, Except.bind, pure, Except.pure, uint32_eq hl, uint32_eq ht, htoNat,
    Nat.add_sub_cancel]
  split
  · rfl
  split
  · rfl
  next hle =>
  have hvalue : slice (t ++ (l ++ v)) 8 (ofBigEndian l + 8) =
      .ok (v.take (ofBigEndian l)) := by
    have h := slice_append (t ++ l) (v.take (ofBigEndian l)) (v.drop (ofBigEndian l))
    rw [List.take_append_drop, List.append_assoc, List.length_append, ht, hl,
      List.length_take_of_le (by omega), Nat.add_comm (4 + 4)] at h
    exact h
  rw [hvalue]

variable {key : Bytes}

theorem exists_parts (h : 8 < key.length) :
    ∃ t l v : Bytes, key = t ++ (l ++ v) ∧ t.length = 4 ∧ l.length = 4 ∧ v ≠ [] := by
  refine ⟨key.take 4, (key.drop 4).take 4, (key.drop 4).drop 4, ?_, ?_, ?_, ?_⟩
  · rw [List.take_append_drop, List.take_append_drop]
  · rw [List.length_take_of_le (by omega)]
  · rw [List.length_take_of_le (by rw [List.length_drop]; omega)]
  · rw [← List.length_pos_iff, List.length_drop, List.length_drop]
    omega

theorem encodeVertexId_length (id : VertexId) :
    (encodeVertexId id).length = id.value.length + 8 := by
  rw [encodeVertexId_eq]
  simp only [List.length_append, length_bigEndian]
  omega

theorem decodeVertexKey_encode {id : VertexId} (h : id.Encodable) (rest : Bytes) :
    decodeVertexKey (encodeVertexId id ++ rest) = .ok (id, (encodeVertexId id).length) := by
  have hlen : ofBigEndian (bigEndian 4 (UInt32.ofNat id.value.length).toNat) =
      id.value.length := by
    rw [ofBigEndian_bigEndian (toNat_lt_bytes _), UInt32.toNat_ofNat', Nat.mod_eq_of_lt h.2]
  have hne : id.value ++ rest ≠ [] :=
    List.append_ne_nil_of_left_ne_nil (List.length_pos_iff.mp h.1) rest
  rw [encodeVertexId_length, encodeVertexId_eq, List.append_assoc, List.append_assoc,
    decodeVertexKey_parts (length_bigEndian 4 _) (length_bigEndian 4 _) hne, hlen,
    if_neg h.1.ne', if_neg (by simp), List.take_left, ofBigEndian_bigEndian (toNat_lt_bytes _),
    UInt32.ofNat_toNat]

/-- **What `decodeVertexKey` reads is the key of its id**, and something may follow. -/
theorem decodeVertexKey_eq_ok {id : VertexId} {n : Nat} : decodeVertexKey key = .ok (id, n) ↔
      id.Encodable ∧ n = (encodeVertexId id).length ∧ ∃ rest, key = encodeVertexId id ++ rest := by
  constructor
  · intro h
    by_cases hshort : key.length ≤ 8
    · unfold decodeVertexKey at h
      rw [if_pos hshort] at h
      cases h
    · obtain ⟨t, l, v, rfl, ht, hl, hv⟩ := exists_parts (not_le.mp hshort)
      rw [decodeVertexKey_parts ht hl hv] at h
      split at h
      · cases h
      next hzero =>
      split at h
      · cases h
      next hle =>
      cases h
      have hlen : (v.take (ofBigEndian l)).length = ofBigEndian l :=
        List.length_take_of_le (by omega)
      refine ⟨⟨?_, ?_⟩, ?_, v.drop (ofBigEndian l), ?_⟩
      · rw [hlen]
        omega
      · unfold VertexId.Fits
        rw [hlen]
        exact ofBigEndian_lt_uint32 hl
      · rw [encodeVertexId_length, hlen]
      · rw [encodeVertexId_eq, hlen, bigEndian_uint32 ht, bigEndian_uint32 hl]
        simp only [List.append_assoc, List.take_append_drop]
  · rintro ⟨hid, rfl, rest, rfl⟩
    exact decodeVertexKey_encode hid rest

theorem decodeVertexKey_noPanic (key : Bytes) : NoPanic (decodeVertexKey key) := by
  by_cases hshort : key.length ≤ 8
  · unfold decodeVertexKey
    rw [if_pos hshort]
    nofun
  · obtain ⟨t, l, v, rfl, ht, hl, hv⟩ := exists_parts (not_le.mp hshort)
    rw [decodeVertexKey_parts ht hl hv]
    split
    · nofun
    · split
      · nofun
      · exact noPanic_ok _

theorem decodeVertexKey_cases (key : Bytes) :
    (∃ id rest, id.Encodable ∧ key = encodeVertexId id ++ rest) ∨
      ∃ e, decodeVertexKey key = .error (.err e) := by
  cases h : decodeVertexKey key with
  | ok x =>
    obtain ⟨hid, _, rest, hkey⟩ := decodeVertexKey_eq_ok.mp h
    exact .inl ⟨x.1, rest, hid, hkey⟩
  | error f =>
    cases f with
    | panic => exact absurd h (decodeVertexKey_noPanic key)
    | err e => exact .inr ⟨e, rfl⟩

/-! ## The decoders -/

structure Exact {α : Type} (decode : Bytes → Go String α) (encode : α → Bytes)
    (Encodable : α → Prop) (key : Bytes) : Prop where
  noPanic : NoPanic (decode key)
  inverse : ∀ id, Encodable id → key = encode id → decode key = .ok id
  refuses : (∀ id, Encodable id → key ≠ encode id) → ∃ e, decode key = .error (.err e)

theorem decodeVertexId_exact (key : Bytes) :
    Exact decodeVertexId encodeVertexId VertexId.Encodable key := by
  rcases decodeVertexKey_cases key with ⟨id, rest, hid, rfl⟩ | ⟨e, he⟩
  · have hdecode : decodeVertexId (encodeVertexId id ++ rest) =
        if rest = [] then .ok id else .error (.err "unexpected key padding") := by
      unfold decodeVertexId
      rw [decodeVertexKey_encode hid]
      by_cases hrest : rest = []
      · simp [hrest]
      · simp [hrest]
    refine ⟨?_, fun id' hid' hkey => ?_, fun hno => ?_⟩
    · rw [hdecode]
      split
      · exact noPanic_ok id
      · nofun
    · have hkey' : encodeVertexId id ++ rest = encodeVertexId id' ++ [] := by
        rw [hkey, List.append_nil]
      obtain ⟨rfl, hrest⟩ := encodeVertexId_append_inj hid.2 hid'.2 hkey'
      rw [hdecode, if_pos hrest]
    · rw [hdecode]
      by_cases hrest : rest = []
      · subst hrest
        exact absurd (List.append_nil _) (hno id hid)
      · exact ⟨_, if_neg hrest⟩
  · have hdecode : decodeVertexId key =
        .error (.err (if 0 ≠ key.length then "unexpected key padding" else e)) := by
      unfold decodeVertexId
      rw [he]
    refine ⟨?_, fun id hid hkey => ?_, fun _ => ⟨_, hdecode⟩⟩
    · rw [hdecode]
      nofun
    · have hok := decodeVertexKey_encode hid []
      rw [List.append_nil, ← hkey, he] at hok
      cases hok

/-- The key of a vertex, with fewer bytes after it than the type of an edge has. -/
def HeadOnly (key : Bytes) : Prop :=
  ∃ head rest, VertexId.Encodable head ∧ rest.length < 4 ∧ key = encodeVertexId head ++ rest

theorem decodeEdgeId_invalidHead {e : String} (h : decodeVertexKey key = .error (.err e)) :
    decodeEdgeId key = .error (.err "invalid head key") := by
  unfold decodeEdgeId
  rw [h]
  rfl

theorem slice_tail (ht : t.length = 4) (head : VertexId) (r : Bytes) :
    slice (encodeVertexId head ++ (t ++ r)) ((encodeVertexId head).length + 4)
      (encodeVertexId head ++ (t ++ r)).length = .ok r := by
  have h := slice_append (encodeVertexId head ++ t) r []
  rw [List.append_nil, List.append_assoc, List.length_append, ht] at h
  rw [← h]
  congr 1
  simp only [List.length_append, ht]
  omega

section Head

variable {head : VertexId} (hh : head.Encodable)

include hh

/-- The slice after the type starts behind the end of the key. -/
theorem decodeEdgeId_headOnly {rest : Bytes} (h : rest.length < 4) :
    decodeEdgeId (encodeVertexId head ++ rest) = .error .panic := by
  have hslice : slice (encodeVertexId head ++ rest) ((encodeVertexId head).length + 4)
      (encodeVertexId head ++ rest).length = .error .panic := by
    refine if_neg fun hbounds => ?_
    rw [List.length_append] at hbounds
    omega
  unfold decodeEdgeId
  rw [decodeVertexKey_encode hh]
  simp only [orErr, bind, Except.bind, hslice]

variable {t r : Bytes} (ht : t.length = 4)

include ht

theorem decodeEdgeId_invalidTail {e : String} (h : decodeVertexKey r = .error (.err e)) :
    decodeEdgeId (encodeVertexId head ++ (t ++ r)) = .error (.err "invalid tail key") := by
  unfold decodeEdgeId
  rw [decodeVertexKey_encode hh]
  simp only [orErr, bind, Except.bind, slice_tail ht, h]

theorem decodeEdgeId_tail {tail : VertexId} (htail : tail.Encodable) (rest : Bytes) :
    decodeEdgeId (encodeVertexId head ++ (t ++ (encodeVertexId tail ++ rest))) =
      if rest = [] then .ok ⟨UInt32.ofNat (ofBigEndian t), head, tail⟩
      else .error (.err "unexpected key padding") := by
  have htype := slice_append (encodeVertexId head) t (encodeVertexId tail ++ rest)
  rw [ht] at htype
  unfold decodeEdgeId
  rw [decodeVertexKey_encode hh]
  simp only [orErr, bind, Except.bind, pure, Except.pure, slice_tail ht,
    decodeVertexKey_encode htail, htype, uint32_eq ht]
  by_cases hrest : rest = []
  · rw [if_pos hrest, if_neg]
    simp only [hrest, List.append_nil, List.length_append, ht]
    omega
  · have hpos := List.length_pos_iff.mpr hrest
    rw [if_neg hrest, if_pos]
    simp only [List.length_append, ht]
    omega

end Head

theorem encodeEdgeId_parts (ht : t.length = 4) (head tail : VertexId) :
    encodeEdgeId ⟨UInt32.ofNat (ofBigEndian t), head, tail⟩ =
      encodeVertexId head ++ (t ++ encodeVertexId tail) := by
  rw [encodeEdgeId_eq, bigEndian_uint32 ht]

theorem decodeEdgeId_encode {id : EdgeId} (h : id.Encodable) :
    decodeEdgeId (encodeEdgeId id) = .ok id := by
  have hdecode := decodeEdgeId_tail h.1 (length_bigEndian 4 id.type.toNat) h.2 []
  rw [List.append_nil, if_pos rfl, ofBigEndian_bigEndian (toNat_lt_bytes _),
    UInt32.ofNat_toNat] at hdecode
  rw [encodeEdgeId_eq]
  exact hdecode

theorem decodeEdgeId_cases (key : Bytes) :
    (∃ id : EdgeId, id.Encodable ∧ key = encodeEdgeId id) ∨ HeadOnly key ∨
      ∃ e, decodeEdgeId key = .error (.err e) := by
  rcases decodeVertexKey_cases key with ⟨head, rest, hh, rfl⟩ | ⟨e, he⟩
  · by_cases hlen : rest.length < 4
    · exact .inr (.inl ⟨head, rest, hh, hlen, rfl⟩)
    · have ht : (rest.take 4).length = 4 := List.length_take_of_le (by omega)
      rw [← List.take_append_drop 4 rest]
      rcases decodeVertexKey_cases (rest.drop 4) with ⟨tail, more, htail, hrest⟩ | ⟨e, he⟩
      · rw [hrest]
        by_cases hmore : more = []
        · refine .inl ⟨⟨UInt32.ofNat (ofBigEndian (rest.take 4)), head, tail⟩, ⟨hh, htail⟩, ?_⟩
          rw [encodeEdgeId_parts ht, hmore, List.append_nil]
        · refine .inr (.inr ⟨"unexpected key padding", ?_⟩)
          rw [decodeEdgeId_tail hh ht htail, if_neg hmore]
      · exact .inr (.inr ⟨_, decodeEdgeId_invalidTail hh ht he⟩)
  · exact .inr (.inr ⟨_, decodeEdgeId_invalidHead he⟩)

/-- **The decoders are inverses that refuse every other key**, but for one kind of key: the
edge decoder panics on a vertex key with at most three bytes after it. -/
theorem decode_exact_iff (key : Bytes) :
    Exact decodeVertexId encodeVertexId VertexId.Encodable key ∧
      (Exact decodeEdgeId encodeEdgeId EdgeId.Encodable key ↔ ¬HeadOnly key) := by
  refine ⟨decodeVertexId_exact key, ⟨?_, fun hhead => ?_⟩⟩
  · rintro hexact ⟨head, rest, hh, hlen, rfl⟩
    exact hexact.noPanic (decodeEdgeId_headOnly hh hlen)
  · have hinverse : ∀ id, EdgeId.Encodable id → key = encodeEdgeId id →
        decodeEdgeId key = .ok id := by
      rintro id hid rfl
      exact decodeEdgeId_encode hid
    rcases decodeEdgeId_cases key with ⟨id, hid, hkey⟩ | hbad | ⟨e, he⟩
    · refine ⟨?_, hinverse, fun hno => absurd hkey (hno id hid)⟩
      rw [hinverse id hid hkey]
      exact noPanic_ok id
    · exact absurd hbad hhead
    · refine ⟨?_, hinverse, fun _ => ⟨e, he⟩⟩
      rw [he]
      nofun

/-- A bare vertex key, which is no edge key. -/
theorem decodeEdgeId_bareVertex : decodeEdgeId (encodeVertexId ⟨1, [7]⟩) = .error .panic ∧
    ∀ id, EdgeId.Encodable id → encodeVertexId ⟨1, [7]⟩ ≠ encodeEdgeId id := by
  refine ⟨rfl, fun id hid hkey => ?_⟩
  have hok := decodeEdgeId_encode hid
  rw [← hkey] at hok
  cases hok

end Scout.Graph
