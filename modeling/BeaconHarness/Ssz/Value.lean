import BeaconHarness.Bytes
import BeaconHarness.Ssz.Schema

/-!
# Values

A value is data without a schema: a number, a boolean, a byte string, a bit string or a sequence
of values. The fields of a container form a sequence in the container's order. The predicate
`Schema.admits` says which values belong to a schema: numbers in range, byte and bit strings of
the right length, sequences within their limit and of the right elements.

Main statement: every schema admits its default value (`admits_default`).
-/

namespace BeaconHarness.Ssz

/-- Data, to be read with a schema. -/
inductive Value where
  | uint (n : Nat)
  | boolean (b : Bool)
  | bytes (b : Bytes)
  | bits (bs : List Bool)
  | seq (vs : List Value)
  deriving Repr, Inhabited

namespace Schema

/-! ## Membership -/

mutual
/-- Whether a value belongs to a schema. -/
def admits : Schema → Value → Bool
  | uint width, .uint n => n < Bytes.capacity width
  | boolean, .boolean _ => true
  | byteVector length, .bytes b => b.length = length
  | bitvector length, .bits bs => bs.length = length
  | bitlist limit, .bits bs => bs.length ≤ limit
  | vector element length, .seq vs => vs.length = length && vs.all (admits element)
  | list element limit, .seq vs => vs.length ≤ limit && vs.all (admits element)
  | container _ fields, .seq vs => admitsFields fields vs
  | _, _ => false

/-- Whether values belong to fields, one to each. -/
def admitsFields : Fields → List Value → Bool
  | [], [] => true
  | (_, τ) :: fields, v :: vs => admits τ v && admitsFields fields vs
  | _, _ => false
end

/-! ## Default values -/

mutual
/-- The default value of a schema: zeros throughout, and empty lists. -/
def default : Schema → Value
  | uint _ => .uint 0
  | boolean => .boolean false
  | byteVector length => .bytes (Bytes.zeros length)
  | bitvector length => .bits (List.replicate length false)
  | bitlist _ => .bits []
  | vector element length => .seq (List.replicate length (default element))
  | list _ _ => .seq []
  | container _ fields => .seq (defaults fields)

/-- The default values of fields. -/
def defaults : Fields → List Value
  | [] => []
  | (_, τ) :: rest => default τ :: defaults rest
end

mutual
theorem admits_default (τ : Schema) : τ.admits τ.default = true := by
  match τ with
  | uint width => exact decide_eq_true (Bytes.capacity_pos width)
  | boolean => rfl
  | byteVector length => simp [admits, default]
  | bitvector length => simp [admits, default]
  | bitlist limit => simp [admits, default]
  | vector element length =>
    simp only [admits, default, List.length_replicate, decide_true, Bool.true_and,
      List.all_replicate]
    split
    · rfl
    · exact admits_default element
  | list element limit => simp [admits, default]
  | container name fields => simpa [admits, default] using admitsFields_defaults fields

theorem admitsFields_defaults (fields : Fields) : admitsFields fields (defaults fields) = true := by
  match fields with
  | [] => rfl
  | (name, τ) :: rest =>
    simp only [admitsFields, defaults, Bool.and_eq_true]
    exact ⟨admits_default τ, admitsFields_defaults rest⟩
end

end Schema

/-! ## Values under a schema -/

/-- A value together with the schema it is read with. -/
structure Object where
  schema : Schema
  value : Value
  deriving Repr, Inhabited

namespace Value

/-- The number of a `uint` value, and zero of any other. -/
def toNat : Value → Nat
  | uint n => n
  | _ => 0

/-- The byte string of a `bytes` value, and the empty one of any other. -/
def toBytes : Value → Bytes
  | bytes b => b
  | _ => []

/-- The parts of a sequence. -/
def parts : Value → List Value
  | seq vs => vs
  | _ => []

end Value

/-- The field of a given name among values in the order of the fields. -/
def lookup (name : String) : Fields → List Value → Option Object
  | (n, τ) :: fields, v :: vs => if n = name then some ⟨τ, v⟩ else lookup name fields vs
  | _, _ => none

namespace Object

/-- The field of a container, if it has one of that name. -/
def field? (x : Object) (name : String) : Option Object :=
  lookup name x.schema.fields x.value.parts

/-- The field of a container that is known to have it. -/
def field (x : Object) (name : String) : Object := (x.field? name).getD default

/-- The elements of a list or vector, or the fields of a container. -/
def elements (x : Object) : List Object :=
  match x.schema with
  | .vector element _ | .list element _ => x.value.parts.map (⟨element, ·⟩)
  | .container _ fields => (fields.zip x.value.parts).map fun p => ⟨p.1.2, p.2⟩
  | _ => []

/-- The object with one field replaced. -/
def setField (x : Object) (name : String) (v : Value) : Object :=
  match x.schema, x.value with
  | .container _ fields, .seq vs =>
    { x with value := .seq ((fields.zip vs).map fun p => if p.1.1 = name then v else p.2) }
  | _, _ => x

/-- The number in an object that holds one. -/
def toNat (x : Object) : Nat := x.value.toNat

/-- The byte string in an object that holds one. -/
def toBytes (x : Object) : Bytes := x.value.toBytes

end Object

/-- The container with the given values, if they belong to its fields. -/
def Schema.make? (τ : Schema) (v : Value) : Option Object :=
  if τ.admits v then some ⟨τ, v⟩ else none

end BeaconHarness.Ssz
