import BeaconHarness.Ssz.Value

/-!
# Encoding

The encoding of a value is a byte string. Numbers are little-endian, bit strings are packed eight
to a byte with the first bit lowest, and a bitlist is closed by a set bit behind its last one.

A container is laid out in slots, one per field: a fixed field stands inline, a variable one is
replaced by the offset of its body, and the bodies follow in order. A list of variable elements
is laid out in the same way.

Main statement: a layout is as long as its heads and bodies together (`length_assemble`).
-/

namespace BeaconHarness.Ssz

/-! ## Bits -/

/-- The number whose binary digits are the given bits, first bit lowest. -/
def bitsToNat (bits : List Bool) : Nat :=
  bits.foldr (fun b n => b.toNat + 2 * n) 0

/-- The low `count` binary digits of a number, lowest first. -/
def bitsOfNat (count n : Nat) : List Bool := (List.range count).map n.testBit

/-- The bytes of a bit string of fixed length. -/
def packBits (bits : List Bool) : Bytes :=
  Bytes.littleEndian (Schema.bitBytes bits.length) (bitsToNat bits)

/-- The bytes of a bit string of variable length: a set bit marks its end. -/
def packDelimited (bits : List Bool) : Bytes := packBits (bits ++ [true])

/-! ## Slots -/

/-- The place of a part in the layout of a container. -/
inductive Slot where
  /-- A part that stands where it is. -/
  | inline (part : Bytes)
  /-- A part that stands behind all others, with an offset in its place. -/
  | body (part : Bytes)

namespace Slot

/-- The bytes a slot takes in the head of the layout. -/
def headWidth : Slot → Nat
  | inline part => part.length
  | body _ => Schema.offsetWidth

/-- The bytes that slots take in the head of the layout. -/
def headLength : List Slot → Nat
  | [] => 0
  | slot :: rest => slot.headWidth + headLength rest

/-- The heads of slots, when the next body starts at `offset`. -/
def heads : (offset : Nat) → List Slot → Bytes
  | _, [] => []
  | offset, inline part :: rest => part ++ heads offset rest
  | offset, body part :: rest =>
    Bytes.littleEndian Schema.offsetWidth offset ++ heads (offset + part.length) rest

/-- The bodies of slots, in order. -/
def bodies : List Slot → Bytes
  | [] => []
  | inline _ :: rest => bodies rest
  | body part :: rest => part ++ bodies rest

/-- The layout of slots: all heads, then all bodies. -/
def assemble (slots : List Slot) : Bytes :=
  heads (headLength slots) slots ++ bodies slots

/-- The heads take the widths of their slots, wherever the bodies start. -/
theorem length_heads (offset : Nat) (slots : List Slot) :
    (heads offset slots).length = headLength slots := by
  induction slots generalizing offset with
  | nil => rfl
  | cons slot rest ih => cases slot <;> simp [heads, headLength, headWidth, ih]

theorem length_assemble (slots : List Slot) :
    (assemble slots).length = headLength slots + (bodies slots).length := by
  simp [assemble, length_heads]

end Slot

/-! ## The encoding of a value -/

mutual
/-- The encoding of a value of a schema. A value that does not belong to the schema has no
meaningful encoding and gives the empty one. -/
def encode : Schema → Value → Bytes
  | .uint width, .uint n => Bytes.littleEndian width n
  | .boolean, .boolean b => [if b then 1 else 0]
  | .byteVector _, .bytes b => b
  | .bitvector _, .bits bs => packBits bs
  | .bitlist _, .bits bs => packDelimited bs
  | .vector element _, .seq vs =>
    if element.isFixed then vs.flatMap (encode element)
    else Slot.assemble (vs.map fun v => .body (encode element v))
  | .list element _, .seq vs =>
    if element.isFixed then vs.flatMap (encode element)
    else Slot.assemble (vs.map fun v => .body (encode element v))
  | .container _ fields, .seq vs => Slot.assemble (fieldSlots fields vs)
  | _, _ => []

/-- The slots of a container's fields. -/
def fieldSlots : Fields → List Value → List Slot
  | (_, τ) :: fields, v :: vs =>
    (if τ.isFixed then Slot.inline (encode τ v) else Slot.body (encode τ v)) :: fieldSlots fields vs
  | _, _ => []
end

/-- The encoding of an object. -/
def Object.encode (x : Object) : Bytes := Ssz.encode x.schema x.value

end BeaconHarness.Ssz
