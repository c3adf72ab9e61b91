import Scout.Data.Txn
import Scout.Lib.Bytes

/-!
Keys of the graph: `internal/api/server/graph/encoding.go`. A vertex key carries
the length of its value, so that it can be told where it ends; an edge key is the
key of its head, the type of the edge and the key of its tail.
-/

namespace Scout.Graph

open Data Lib

structure VertexId where
  type : UInt32
  value : Bytes
  deriving DecidableEq, Repr

structure EdgeId where
  type : UInt32
  head : VertexId
  tail : VertexId
  deriving DecidableEq, Repr

/-- `binary.BigEndian.AppendUint32`. -/
def appendUint32 (bytes : Bytes) (x : UInt32) : Bytes := bytes ++ bigEndian 4 x.toNat

def appendVertexKey (bytes : Bytes) (id : VertexId) : Bytes :=
  let bytes := appendUint32 bytes id.type
  let bytes := appendUint32 bytes (UInt32.ofNat id.value.length)
  bytes ++ id.value

def encodeVertexId (id : VertexId) : Bytes := appendVertexKey [] id

def encodeEdgeId (id : EdgeId) : Bytes :=
  let key := appendVertexKey [] id.head
  let key := appendUint32 key id.type
  appendVertexKey key id.tail

/-- The length of the value fits the four bytes it is given. -/
def VertexId.Fits (id : VertexId) : Prop := id.value.length < 2 ^ 32
  deriving Decidable

def EdgeId.Fits (id : EdgeId) : Prop := id.head.Fits ∧ id.tail.Fits
  deriving Decidable

/-! ## The parts of a key -/

theorem toNat_lt_bytes (x : UInt32) : x.toNat < 256 ^ 4 := x.toNat_lt

theorem bigEndian_toNat_inj {x y : UInt32} : bigEndian 4 x.toNat = bigEndian 4 y.toNat ↔ x = y := by
  rw [bigEndian_inj (toNat_lt_bytes x) (toNat_lt_bytes y), UInt32.toNat_inj]

theorem bigEndian_toNat_lt {x y : UInt32} : bigEndian 4 x.toNat < bigEndian 4 y.toNat ↔ x < y := by
  rw [bigEndian_lt_iff (toNat_lt_bytes x) (toNat_lt_bytes y), UInt32.lt_iff_toNat_lt]

theorem appendVertexKey_eq (bytes : Bytes) (id : VertexId) :
    appendVertexKey bytes id = bytes ++ encodeVertexId id := by
  simp [encodeVertexId, appendVertexKey, appendUint32]

theorem encodeVertexId_eq (id : VertexId) : encodeVertexId id = bigEndian 4 id.type.toNat ++
      (bigEndian 4 (UInt32.ofNat id.value.length).toNat ++ id.value) := by
  simp [encodeVertexId, appendVertexKey, appendUint32]

theorem encodeEdgeId_eq (id : EdgeId) : encodeEdgeId id =
    encodeVertexId id.head ++ (bigEndian 4 id.type.toNat ++ encodeVertexId id.tail) := by
  simp [encodeEdgeId, appendVertexKey_eq, appendUint32]

/-- **A vertex key can be told from what follows it.** -/
theorem encodeVertexId_append_inj {u v : VertexId} (hu : u.Fits) (hv : v.Fits) {s t : Bytes}
    (h : encodeVertexId u ++ s = encodeVertexId v ++ t) : u = v ∧ s = t := by
  rw [encodeVertexId_eq, encodeVertexId_eq] at h
  simp only [List.append_assoc] at h
  obtain ⟨htype, h⟩ := List.append_inj h (by simp)
  obtain ⟨hlen, h⟩ := List.append_inj h (by simp)
  -- the values have the length that stands before them
  rw [bigEndian_toNat_inj, ← UInt32.toNat_inj, UInt32.toNat_ofNat', UInt32.toNat_ofNat',
    Nat.mod_eq_of_lt hu, Nat.mod_eq_of_lt hv] at hlen
  obtain ⟨hvalue, h⟩ := List.append_inj h hlen
  refine ⟨?_, h⟩
  cases u
  cases v
  simp only [VertexId.mk.injEq]
  exact ⟨bigEndian_toNat_inj.mp htype, hvalue⟩

theorem encodeVertexId_inj {u v : VertexId} (hu : u.Fits) (hv : v.Fits)
    (h : encodeVertexId u = encodeVertexId v) : u = v := by
  have h' : encodeVertexId u ++ [] = encodeVertexId v ++ [] := by rw [h]
  exact (encodeVertexId_append_inj hu hv h').1

theorem encodeEdgeId_inj {d e : EdgeId} (hd : d.Fits) (he : e.Fits)
    (h : encodeEdgeId d = encodeEdgeId e) : d = e := by
  rw [encodeEdgeId_eq, encodeEdgeId_eq] at h
  obtain ⟨hhead, h⟩ := encodeVertexId_append_inj hd.1 he.1 h
  obtain ⟨htype, htail⟩ := List.append_inj h (by simp)
  cases d
  cases e
  simp only [EdgeId.mk.injEq]
  exact ⟨bigEndian_toNat_inj.mp htype, hhead, encodeVertexId_inj hd.2 he.2 htail⟩

/-! ## The keys of a vertex and its edges -/

/-- What a key may stand for. -/
inductive Element where
  | vertex (id : VertexId)
  | edge (id : EdgeId)
  deriving DecidableEq, Repr

namespace Element

def key : Element → Bytes
  | vertex id => encodeVertexId id
  | edge id => encodeEdgeId id

def Fits : Element → Prop
  | vertex id => id.Fits
  | edge id => id.Fits

/-- The vertex itself or one of the edges that leave it. -/
def Of (v : VertexId) : Element → Prop
  | vertex id => id = v
  | edge id => id.head = v

end Element

theorem encodeVertexId_prefix_iff {v : VertexId} (hv : v.Fits) {x : Element} (hx : x.Fits) :
    encodeVertexId v <+: x.key ↔ x.Of v := by
  cases x with
  | vertex id =>
    constructor
    · rintro ⟨s, hs⟩
      have hs' : encodeVertexId v ++ s = encodeVertexId id ++ [] := by simpa [Element.key] using hs
      exact (encodeVertexId_append_inj hv hx hs').1.symm
    · rintro rfl
      exact List.prefix_rfl
  | edge id =>
    constructor
    · rintro ⟨s, hs⟩
      rw [Element.key, encodeEdgeId_eq] at hs
      exact (encodeVertexId_append_inj hv hx.1 hs).1.symm
    · rintro rfl
      rw [Element.key, encodeEdgeId_eq]
      exact List.prefix_append _ _

theorem encodeVertexId_lt_encodeEdgeId (e : EdgeId) : encodeVertexId e.head < encodeEdgeId e := by
  refine lt_of_le_of_ne ?_ ?_
  · rw [encodeEdgeId_eq]
    exact le_append _ _
  · intro h
    have hlen := congrArg List.length h
    rw [encodeEdgeId_eq] at hlen
    simp at hlen

theorem encodeEdgeId_lt_iff {d e : EdgeId} (h : d.head = e.head) : encodeEdgeId d < encodeEdgeId e ↔
      d.type < e.type ∨ d.type = e.type ∧ encodeVertexId d.tail < encodeVertexId e.tail := by
  rw [encodeEdgeId_eq, encodeEdgeId_eq, h, append_lt_append_iff,
    append_lt_append_iff_of_length (by simp), bigEndian_toNat_lt, bigEndian_toNat_inj]

theorem key_inj {x y : Element} (hx : x.Fits) (hy : y.Fits) (h : x.key = y.key) : x = y := by
  cases x with
  | vertex u =>
    cases y with
    | vertex v => exact congrArg _ (encodeVertexId_inj hx hy h)
    | edge e =>
      -- the key of an edge is longer than the key of its head
      have hp : encodeVertexId u <+: (Element.edge e).key := h ▸ List.prefix_rfl
      have hof := (encodeVertexId_prefix_iff hx hy).mp hp
      have hlt := encodeVertexId_lt_encodeEdgeId e
      rw [show e.head = u from hof] at hlt
      exact absurd h hlt.ne
  | edge d =>
    cases y with
    | vertex v =>
      have hp : encodeVertexId v <+: (Element.edge d).key := h ▸ List.prefix_rfl
      have hof := (encodeVertexId_prefix_iff hy hx).mp hp
      have hlt := encodeVertexId_lt_encodeEdgeId d
      rw [show d.head = v from hof] at hlt
      exact absurd h hlt.ne'
    | edge e => exact congrArg _ (encodeEdgeId_inj hx hy h)

/-- **A vertex and its edges form one contiguous range of keys.** The keys that
start with the key of a vertex are its own and those of its edges; its own comes
first, the edges follow by type and tail, and no other key lies between them. No
two vertices or edges have the same key. -/
theorem vertex_range {v : VertexId} (hv : v.Fits) :
    (∀ x : Element, x.Fits → (encodeVertexId v <+: x.key ↔
      x = .vertex v ∨ ∃ e, x = .edge e ∧ e.head = v)) ∧
    (∀ e : EdgeId, e.head = v → encodeVertexId v < encodeEdgeId e) ∧
    (∀ d e : EdgeId, d.head = v → e.head = v → (encodeEdgeId d < encodeEdgeId e ↔
      d.type < e.type ∨ d.type = e.type ∧ encodeVertexId d.tail < encodeVertexId e.tail)) ∧
    (∀ x y z : Element, x.Fits → y.Fits → z.Fits → x.Of v → z.Of v →
      x.key ≤ y.key → y.key ≤ z.key → y.Of v) ∧
    (∀ x y : Element, x.Fits → y.Fits → x.key = y.key → x = y) := by
  refine ⟨?_, ?_, ?_, ?_, fun x y => key_inj⟩
  · intro x hx
    rw [encodeVertexId_prefix_iff hv hx]
    cases x <;> simp [Element.Of]
  · rintro e rfl
    exact encodeVertexId_lt_encodeEdgeId e
  · rintro d e hd he
    exact encodeEdgeId_lt_iff (hd.trans he.symm)
  · intro x y z hx hy hz hxv hzv hxy hyz
    rw [← encodeVertexId_prefix_iff hv hy]
    exact prefix_of_between ((encodeVertexId_prefix_iff hv hx).mpr hxv)
      ((encodeVertexId_prefix_iff hv hz).mpr hzv) hxy hyz

/-- A vertex whose value starts with the value of another one is not in its range. -/
theorem vertex_range_shortValue : let v : VertexId := ⟨1, [7]⟩
    let longer : VertexId := ⟨1, [7, 0]⟩
    v.Fits ∧ (Element.edge ⟨2, v, longer⟩).Of v ∧
      ¬ encodeVertexId v <+: (Element.vertex longer).key := by
  intro v longer
  have hv : v.Fits := by decide
  have hl : longer.Fits := by decide
  refine ⟨hv, rfl, ?_⟩
  rw [(vertex_range hv).1 (.vertex longer) hl]
  rintro (h | ⟨e, h, _⟩)
  · exact absurd h (by decide)
  · cases h

end Scout.Graph
