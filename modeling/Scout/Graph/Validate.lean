import Scout.Data.Validate
import Scout.Graph.Encoding

/-!
`Validate` of the graph messages (`graph.go`). Messages are pointers, so that every one
may be nil. A function returns the text of the error, or `none` for the nil error.

The methods of `Vertex` and `Edge` call themselves where they mean the method of the id.
The call is made again with the same message, so that only a nil message gets an answer.
-/

namespace Scout.Graph.Message

open Data

/-! ## Messages -/

structure Timestamp where
  seconds : Int64
  nanos : Int32
  deriving DecidableEq, Repr

structure EdgeId where
  head : Option VertexId
  tail : Option VertexId
  type : UInt32
  deriving DecidableEq, Repr

/-- A value by its payload. A list or a map is a message of its own that holds a slice or
a Go map, and both may be nil. -/
inductive Value where
  | unset
  | bool (x : Bool)
  | str (x : String)
  | int32 (x : Int32)
  | uint32 (x : UInt32)
  | int64 (x : Int64)
  | uint64 (x : UInt64)
  | float32 (x : Float32)
  | float64 (x : Float)
  | bytes (x : Bytes)
  | list (x : Option (Option (List (Option Value))))
  | map (x : Option (Option (List (String × Option Value))))
  | timestamp (x : Option Timestamp)

/-- The properties in the order in which they are visited, which is any. -/
abbrev Properties := List (UInt32 × Option Value)

structure Vertex where
  id : Option VertexId
  properties : Properties

structure Edge where
  id : Option EdgeId
  properties : Properties

/-! ## The source -/

def maxVertexIdValueLen : Nat := 2 ^ 32 - 1

def VertexId.validate : Option VertexId → Option String
  | none => some "VertexId is nil"
  | some r =>
    if r.type = 0 then some "VertexId.Type is invalid"
    else if r.value.length = 0 ∨ r.value.length > maxVertexIdValueLen then
      some "VertexId.Value is invalid"
    else none

/-- The items of a list or a map are not looked at. -/
def Value.validate : Option Value → Option String
  | none => some "Value is nil"
  | some .unset => some "Value.Payload is nil"
  | some (.list x) => if x.join.isNone then some "Value.List is nil" else none
  | some (.map x) => if x.join.isNone then some "Value.Map is nil" else none
  | some (.timestamp x) => if x.isNone then some "ValueTimestamp is nil" else none
  | some (.bool _) | some (.str _) | some (.int32 _) | some (.uint32 _) | some (.int64 _)
  | some (.uint64 _) | some (.float32 _) | some (.float64 _) | some (.bytes _) => none

/-- One iteration over the properties. -/
def checkProperty (name : String) (x : UInt32 × Option Value) : Option String :=
  if x.1 = 0 then some (name ++ ".Properties has invalid key")
  else (Value.validate x.2).map
    (wrap (name ++ ".Properties[" ++ toString x.1.toNat ++ "] is invalid"))

/-- The method of a vertex or an edge, with its properties if it is not nil. Calls may be
nested to the given depth; there is no answer if that is not enough. -/
def validateElement (name : String) (properties : Option Properties) :
    Nat → Option (Option String)
  | 0 => none
  | depth + 1 =>
    match properties with
    | none => some (some (name ++ " is nil"))
    | some ps => do
      -- `r.Validate()`, not `r.Id.Validate()`
      let err ← validateElement name properties depth
      return err.map (wrap (name ++ ".Id is invalid")) <|> ps.findSome? (checkProperty name)

def Vertex.validate (r : Option Vertex) : Nat → Option (Option String) :=
  validateElement "Vertex" (r.map Vertex.properties)

def Edge.validate (r : Option Edge) : Nat → Option (Option String) :=
  validateElement "Edge" (r.map Edge.properties)

/-! ## Valid messages -/

def VertexId.Valid (r : Option VertexId) : Prop :=
  ∃ id, r = some id ∧ id.type ≠ 0 ∧ 1 ≤ id.value.length ∧ id.value.length ≤ 2 ^ 32 - 1

def EdgeId.Valid (r : Option EdgeId) : Prop :=
  ∃ id, r = some id ∧ id.type ≠ 0 ∧ VertexId.Valid id.head ∧ VertexId.Valid id.tail

def Properties.Valid (ps : Properties) : Prop := ∀ x ∈ ps, x.1 ≠ 0 ∧ Value.validate x.2 = none

def Vertex.Valid (r : Option Vertex) : Prop :=
  ∃ v, r = some v ∧ VertexId.Valid v.id ∧ Properties.Valid v.properties

def Edge.Valid (r : Option Edge) : Prop :=
  ∃ e, r = some e ∧ EdgeId.Valid e.id ∧ Properties.Valid e.properties

theorem VertexId.validate_eq_none {r : Option VertexId} :
    VertexId.validate r = none ↔ VertexId.Valid r := by
  cases r with
  | none => exact ⟨nofun, fun ⟨_, h, _⟩ => nomatch h⟩
  | some id =>
    unfold VertexId.validate VertexId.Valid maxVertexIdValueLen
    by_cases htype : id.type = 0
    · simp [htype]
    simp only [htype, if_false, Option.some.injEq, exists_eq_left', ne_eq, not_false_eq_true,
      true_and]
    split
    · next h => simp only [reduceCtorEq, false_iff]; omega
    · next h => simp only [true_iff]; omega

/-! ## Vertices and edges -/

/-- A message that is not nil gets no answer at any depth: the call at the top waits for
the same call one level below. -/
theorem validateElement_diverges (name : String) (ps : Properties) (depth : Nat) :
    validateElement name (some ps) depth = none := by
  induction depth with
  | zero => rfl
  | succ depth ih =>
    unfold validateElement
    simp only [ih, Option.bind_eq_bind, Option.bind_none]

/-- The calls end, and the message is accepted exactly if it is valid. -/
def Decides (validate : Nat → Option (Option String)) (valid : Prop) : Prop :=
  ∃ depth err, validate depth = some err ∧ (err = none ↔ valid)

theorem validateElement_decides_iff {name : String} {properties : Option Properties} {valid : Prop}
    (hnil : properties = none → ¬valid) :
    Decides (validateElement name properties) valid ↔ properties = none := by
  cases properties with
  | none =>
    refine iff_of_true ⟨1, some (name ++ " is nil"), rfl, ?_⟩ rfl
    exact iff_of_false nofun (hnil rfl)
  | some ps =>
    refine iff_of_false ?_ nofun
    rintro ⟨depth, err, h, _⟩
    rw [validateElement_diverges] at h
    cases h

/-- **Validation ends and is exact for nil messages only.** -/
theorem graph_validate_exact_iff (v : Option Vertex) (e : Option Edge) :
    (Decides (Vertex.validate v) (Vertex.Valid v) ↔ v = none) ∧
      (Decides (Edge.validate e) (Edge.Valid e) ↔ e = none) := by
  constructor
  · refine (validateElement_decides_iff ?_).trans Option.map_eq_none_iff
    rintro hnil ⟨v, rfl, _⟩
    cases hnil
  · refine (validateElement_decides_iff ?_).trans Option.map_eq_none_iff
    rintro hnil ⟨e, rfl, _⟩
    cases hnil

/-- A vertex and an edge without properties. Both are valid. -/
theorem validate_overflows : (Vertex.Valid (some ⟨some ⟨1, [7]⟩, []⟩) ∧
      ∀ depth, Vertex.validate (some ⟨some ⟨1, [7]⟩, []⟩) depth = none) ∧
    (Edge.Valid (some ⟨some ⟨some ⟨1, [7]⟩, some ⟨1, [8]⟩, 2⟩, []⟩) ∧
      ∀ depth, Edge.validate (some ⟨some ⟨some ⟨1, [7]⟩, some ⟨1, [8]⟩, 2⟩, []⟩) depth = none) := by
  have hseven : VertexId.Valid (some ⟨1, [7]⟩) := VertexId.validate_eq_none.mp rfl
  have hother : VertexId.Valid (some ⟨1, [8]⟩) := VertexId.validate_eq_none.mp rfl
  refine ⟨⟨⟨_, rfl, hseven, nofun⟩, validateElement_diverges _ _⟩, ?_,
    validateElement_diverges _ _⟩
  exact ⟨_, rfl, ⟨_, rfl, by decide, hseven, hother⟩, nofun⟩

end Scout.Graph.Message
