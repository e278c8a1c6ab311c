/-!
# Schemas

A schema describes a set of values and with it their layout in bytes. A schema is *fixed* when all
its values have encodings of one length; vectors and containers of fixed parts are fixed, lists
and bitlists never are.

For every schema there is a least and a greatest length of an encoding. A decoder refuses a part
whose share of the input lies outside these bounds before it reads it.
-/

namespace BeaconHarness.Ssz

/-- A schema of values. -/
inductive Schema where
  /-- Unsigned integers of `width` bytes. -/
  | uint (width : Nat)
  | boolean
  /-- Byte strings of exactly `length` bytes. -/
  | byteVector (length : Nat)
  /-- Bit strings of exactly `length` bits. -/
  | bitvector (length : Nat)
  /-- Bit strings of at most `limit` bits. -/
  | bitlist (limit : Nat)
  /-- Sequences of exactly `length` elements. -/
  | vector (element : Schema) (length : Nat)
  /-- Sequences of at most `limit` elements. -/
  | list (element : Schema) (limit : Nat)
  /-- Records with the given fields in order. The name tells apart records of equal fields. -/
  | container (name : String) (fields : List (String × Schema))
  deriving Repr, Inhabited

/-- The fields of a container, in order. -/
abbrev Fields := List (String × Schema)

namespace Schema

/-- The bytes an offset takes. -/
def offsetWidth : Nat := 4

/-! ## Fixed and variable -/

mutual
/-- Whether all values of a schema have encodings of one length. -/
def isFixed : Schema → Bool
  | uint _ | boolean | byteVector _ | bitvector _ => true
  | bitlist _ | list _ _ => false
  | vector element _ => element.isFixed
  | container _ fields => allFixed fields

/-- Whether all fields are fixed. -/
def allFixed : Fields → Bool
  | [] => true
  | (_, τ) :: rest => τ.isFixed && allFixed rest
end

/-- Whether a schema is a number or a boolean, whose values are packed into shared chunks. -/
def isBasic : Schema → Bool
  | uint _ | boolean => true
  | _ => false

/-! ## Lengths -/

/-- The bytes that hold `bits` bits. -/
def bitBytes (bits : Nat) : Nat := (bits + 7) / 8

mutual
/-- The least length of an encoding; of a fixed schema, the length of every encoding. -/
def minLength : Schema → Nat
  | uint width => width
  | boolean => 1
  | byteVector length => length
  | bitvector length => bitBytes length
  | bitlist _ => 1
  | vector element length =>
    length * (if element.isFixed then element.minLength else offsetWidth + element.minLength)
  | list _ _ => 0
  | container _ fields => fieldsMinLength fields

/-- The least length of the encodings of fields, with an offset for each variable one. -/
def fieldsMinLength : Fields → Nat
  | [] => 0
  | (_, τ) :: rest =>
    (if τ.isFixed then τ.minLength else offsetWidth + τ.minLength) + fieldsMinLength rest
end

mutual
/-- The greatest length of an encoding. -/
def maxLength : Schema → Nat
  | uint width => width
  | boolean => 1
  | byteVector length => length
  | bitvector length => bitBytes length
  | bitlist limit => (limit + 8) / 8
  | vector element length =>
    length * (if element.isFixed then element.maxLength else offsetWidth + element.maxLength)
  | list element limit =>
    limit * (if element.isFixed then element.maxLength else offsetWidth + element.maxLength)
  | container _ fields => fieldsMaxLength fields

/-- The greatest length of the encodings of fields, with an offset for each variable one. -/
def fieldsMaxLength : Fields → Nat
  | [] => 0
  | (_, τ) :: rest =>
    (if τ.isFixed then τ.maxLength else offsetWidth + τ.maxLength) + fieldsMaxLength rest
end

/-- The length of the part of a container that comes before its variable fields: the fixed fields
and one offset for each variable one. -/
def headLength : Fields → Nat
  | [] => 0
  | (_, τ) :: rest => (if τ.isFixed then τ.minLength else offsetWidth) + headLength rest

/-! ## Names -/

/-- The name of a schema, as a mismatch between a value and its tag reports it. -/
def typeName : Schema → String
  | uint width => "uint" ++ toString (8 * width)
  | boolean => "boolean"
  | byteVector length => "ByteVector[" ++ toString length ++ "]"
  | bitvector length => "Bitvector[" ++ toString length ++ "]"
  | bitlist limit => "Bitlist[" ++ toString limit ++ "]"
  | vector element length => "Vector[" ++ element.typeName ++ ", " ++ toString length ++ "]"
  | list element limit => "List[" ++ element.typeName ++ ", " ++ toString limit ++ "]"
  | container name _ => name

/-- The fields of a container; other schemas have none. -/
def fields : Schema → Fields
  | container _ fields => fields
  | _ => []

/-! ## Induction -/

/-- What passes from elements and fields to the schemas made of them holds of all schemas. -/
@[elab_as_elim]
theorem byParts {P : Schema → Prop} (uint : ∀ width, P (uint width)) (boolean : P boolean)
    (byteVector : ∀ length, P (byteVector length)) (bitvector : ∀ length, P (bitvector length))
    (bitlist : ∀ limit, P (bitlist limit))
    (vector : ∀ element length, P element → P (vector element length))
    (list : ∀ element limit, P element → P (list element limit))
    (container : ∀ name fields, (∀ f ∈ fields, P f.2) → P (container name fields)) (τ : Schema) :
    P τ := by
  refine @Schema.rec P (fun fields => ∀ f ∈ fields, P f.2) (fun f => P f.2) uint boolean byteVector
    bitvector bitlist vector list container (fun f hf => ?_) (fun f rest hτ hrest g hg => ?_)
    (fun _ τ hτ => hτ) τ
  · exact absurd hf List.not_mem_nil
  · rcases List.mem_cons.mp hg with rfl | hg
    · exact hτ
    · exact hrest g hg

end Schema

end BeaconHarness.Ssz
