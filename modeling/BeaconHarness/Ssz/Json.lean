import BeaconHarness.Datum
import BeaconHarness.Ssz.Encoding

/-!
# Values in API bodies

How a value is written in a JSON body of the Beacon API: a number as its decimal text, a boolean
as itself, byte strings and bit strings as hexadecimal text of their encoding, a list or vector as
an array and a container as an object of its fields.

Main statement: an object's keys are exactly the names of the container's fields
(`fieldsJson_keys`).
-/

namespace BeaconHarness.Ssz

mutual
/-- The JSON form of a value of a schema. -/
def toJson : Schema → Value → Datum
  | .uint _, .uint n => .str (toString n)
  | .boolean, .boolean b => .bool b
  | .byteVector _, .bytes b => .str (Text.Hex.marked b)
  | .bitvector n, .bits bs => .str (Text.Hex.marked (encode (.bitvector n) (.bits bs)))
  | .bitlist n, .bits bs => .str (Text.Hex.marked (encode (.bitlist n) (.bits bs)))
  | .vector element _, .seq vs => .list (vs.map (toJson element))
  | .list element _, .seq vs => .list (vs.map (toJson element))
  | .container _ fields, .seq vs => .dict (fieldsJson fields vs)
  | _, _ => .null

/-- The entries of a container's fields. -/
def fieldsJson : Fields → List Value → List (Datum × Datum)
  | (name, τ) :: fields, v :: vs => (.str name, toJson τ v) :: fieldsJson fields vs
  | _, _ => []
end

/-- The JSON form of an object. -/
def Object.toJson (x : Object) : Datum := Ssz.toJson x.schema x.value

/-- As many values as fields are written under exactly the fields' names. -/
theorem fieldsJson_keys (fields : Fields) (vs : List Value) (h : vs.length = fields.length) :
    (fieldsJson fields vs).map Prod.fst = fields.map fun f => Datum.str f.1 := by
  induction fields generalizing vs with
  | nil =>
    cases vs with
    | nil => rfl
    | cons v vs => simp at h
  | cons f fields ih =>
    cases vs with
    | nil => simp at h
    | cons v vs =>
      obtain ⟨name, τ⟩ := f
      simp only [List.length_cons, Nat.add_right_cancel_iff] at h
      simp [fieldsJson, ih vs h]

end BeaconHarness.Ssz
