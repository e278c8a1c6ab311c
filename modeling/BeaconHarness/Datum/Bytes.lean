import BeaconHarness.Failure
import BeaconHarness.Ssz.Encoding

/-!
# Data as byte strings

A caller may hand over a byte string as such, as a value under a schema, which stands for its
encoding, as a count of zero bytes or as a list of numbers below 256. Where a byte string of fixed
length belongs into a container, hexadecimal text is taken as well, and whatever has no such
reading is malformed.
-/

namespace BeaconHarness.Datum

/-- The byte in a datum. A number that is no byte is told apart from what is no number. -/
def byte (d : Datum) : Except Failure UInt8 :=
  match d.exactInteger? with
  | some n =>
    if 0 ≤ n && n < 256 then .ok (UInt8.ofNat n.toNat) else .error (.unreadable .other)
  | none => .error .wrongKind

/-- The bound of a length. -/
def lengthBound : Int := 0x8000000000000000

/-- The most items for which there is memory. -/
def memoryBound : Int := 0x1000000000

/-- Zero bytes, as many as a number says. -/
def zeroBytes (n : Int) : Except Failure Bytes :=
  if n < -lengthBound || lengthBound ≤ n then .error .outOfRange
  else if n < 0 then .error (.unreadable .other)
  else if memoryBound < n then .error (.ofKind .memory)
  else .ok (Bytes.zeros n.toNat)

/-- The byte string that a datum stands for. -/
def toBytes : Datum → Except Failure Bytes
  | bytes b => .ok b
  | int n => zeroBytes n
  | bool b => zeroBytes (if b then 1 else 0)
  | list xs | tuple xs => xs.mapM byte
  | dict entries => entries.mapM fun e => e.1.byte
  | ssz x => .ok x.encode
  | _ => .error .wrongKind

/-- The byte string of `length` bytes that a datum stands for inside a container. -/
def fixedBytes (length : Nat) (d : Datum) : Except Failure Bytes :=
  let read : Option Bytes := match d with
    | str s => (Text.Hex.decode (Text.Hex.unmark s)).toOption
    | fork f => (Text.Hex.decode (Text.Hex.unmark f.name)).toOption
    -- A count that does not fit is told apart before any bytes are made.
    | int n => if n = length then some (Bytes.zeros length) else none
    | d => d.toBytes.toOption
  match read with
  | some b => if b.length = length then .ok b else .error .malformed
  | none => .error .malformed

end BeaconHarness.Datum
