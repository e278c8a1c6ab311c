import BeaconHarness.Failure

/-!
# Values from data

How a value of a schema is written down by hand: numbers as numbers or decimal text, byte strings as
hexadecimal text, bit strings as text of zeros and ones, lists as arrays and containers as
mappings. What is left out of a container is its default, and a long list may be written short: as
one element repeated, or as the default with single positions replaced.

What is written need not belong to the schema; `Schema.read` refuses it if it does not.

Main statement: what `Schema.read` accepts is a value of the schema (`admits_of_read`).
-/

namespace BeaconHarness.Ssz

/-! ## Parts without elements -/

/-- The number in a datum, if it is not negative. -/
def readNumber? (d : Datum) : Option Nat :=
  let found := match d with
    | .int n => some n
    | .bool b => some (if b then 1 else 0)
    | .str s => (Text.Integer.read .decimal s.toList).toOption
    | _ => none
  found.bind fun n => if 0 ≤ n then some n.toNat else none

/-- The truth value in a datum: one as such, zero or one. -/
def readTruth? : Datum → Option Bool
  | .bool b => some b
  | .int 0 => some false
  | .int 1 => some true
  | _ => none

/-- The bytes in a datum. -/
def readBytes? : Datum → Option Bytes
  | .str s => (Text.Hex.decode (Text.Hex.unmark s)).toOption
  | .bytes b => some b
  | _ => none

/-- The bits of a text, first bit first. -/
def readBits? : Datum → Option (List Bool)
  | .str s => some (s.toList.map (· = '1'))
  | _ => none

/-! ## Elements -/

/-- Replaces single positions of a list by what is written for them. -/
def replaceAt (read : Datum → Option Value) : List (Datum × Datum) → List Value →
    Option (List Value)
  | [], vs => some vs
  | (position, d) :: rest, vs => do
    let i ← position.display.toNat?
    let v ← read d
    if i < vs.length then replaceAt read rest (vs.set i v) else none

/-- The elements that a datum stands for, at most `room` of them, where the default value has
`count` elements, each one `default`. -/
def readElements (read : Datum → Option Value) (room count : Nat) (default : Value) :
    Datum → Option (List Value)
  | .list xs => if xs.length ≤ room then xs.mapM read else none
  | .dict [(.str "repeat", .list [.int n, d])] =>
    if n ≤ room then (read d).map (List.replicate n.toNat) else none
  | .dict [(.str "at", .dict entries)] => replaceAt read entries (List.replicate count default)
  | _ => none

/-- Small numbers written as hexadecimal text. -/
def readSmall? (element : Schema) (d : Datum) : Option (List Value) :=
  match element, d with
  | .uint 1, .str _ => (readBytes? d).map fun b => b.map fun c => .uint c.toNat
  | _, _ => none

/-! ## Values -/

mutual
/-- The value that a datum stands for under a schema. No element and no bit written for a part of
fixed length stand for its default. -/
def readValue : Schema → Datum → Option Value
  | .uint _, d => (readNumber? d).map .uint
  | .boolean, d => (readTruth? d).map .boolean
  | .byteVector _, d => (readBytes? d).map .bytes
  | .bitvector n, d => (readBits? d).map fun bs =>
    .bits (if bs.isEmpty then List.replicate n false else bs)
  | .bitlist _, d => (readBits? d).map .bits
  | .vector element n, d =>
    let written := (readSmall? element d).or
      (readElements (readValue element) n n element.default d)
    written.map fun vs => .seq (if vs.isEmpty then List.replicate n element.default else vs)
  | .list element n, d =>
    ((readSmall? element d).or (readElements (readValue element) n 0 element.default d)).map .seq
  | .container _ fields, .dict entries =>
    if entries.all fun e => fields.any fun (f : String × Schema) => f.1 = e.1.display then
      (readFields fields entries).map .seq
    else none
  | _, _ => none

/-- The values that entries stand for, field by field. -/
def readFields : Fields → List (Datum × Datum) → Option (List Value)
  | [], _ => some []
  | (name, τ) :: fields, entries => do
    let v ← match Datum.lookup name entries with
      | some d => readValue τ d
      | none => some τ.default
    return v :: (← readFields fields entries)
end

/-- The value that a datum stands for, if it belongs to the schema. -/
def Schema.read (τ : Schema) (d : Datum) : Except Failure Object :=
  match (readValue τ d).bind τ.make? with
  | some x => .ok x
  | none => .error .malformed

theorem admits_of_read {τ : Schema} {d : Datum} {x : Object} (h : τ.read d = .ok x) :
    x.schema = τ ∧ τ.admits x.value = true := by
  unfold Schema.read at h
  split at h
  · rename_i y hy
    obtain ⟨v, -, hv⟩ := Option.bind_eq_some_iff.1 hy
    cases h
    unfold Schema.make? at hv
    split at hv
    · rename_i hadmits
      cases hv
      exact ⟨rfl, hadmits⟩
    · cases hv
  · cases h

end BeaconHarness.Ssz
