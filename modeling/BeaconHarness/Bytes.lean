/-!
# Byte strings

A byte string is a list of bytes, first byte first. This module holds the two ways in which a
number is laid out over a fixed count of bytes: least significant byte first, as SSZ writes its
integers, and most significant byte first, as SHA-256 writes its words and as a fork version is
read from an integer.

Main statements: both layouts have exactly the requested width, and a number that fits the
width is read back (`ofLittleEndian_littleEndian`).
-/

namespace BeaconHarness

/-- A byte string, first byte first. -/
abbrev Bytes := List UInt8

namespace Bytes

/-- The byte string of `n` zero bytes. -/
def zeros (n : Nat) : Bytes := List.replicate n 0

@[simp] theorem length_zeros (n : Nat) : (zeros n).length = n := List.length_replicate

/-- How many numbers have a layout of `width` bytes: those below 256 to the power `width`. -/
def capacity : (width : Nat) → Nat
  | 0 => 1
  | width + 1 => 256 * capacity width

theorem capacity_pos (width : Nat) : 0 < capacity width := by
  induction width with
  | zero => exact Nat.one_pos
  | succ width ih =>
    simp only [capacity]
    omega

/-- The low `width` bytes of a number, least significant byte first. -/
def littleEndian : (width : Nat) → Nat → Bytes
  | 0, _ => []
  | width + 1, n => UInt8.ofNat n :: littleEndian width (n / 256)

/-- The number a byte string holds when its first byte is the least significant. -/
def ofLittleEndian (bytes : Bytes) : Nat :=
  bytes.foldr (fun b n => b.toNat + 256 * n) 0

/-- The low `width` bytes of a number, most significant byte first. -/
def bigEndian (width n : Nat) : Bytes := (littleEndian width n).reverse

/-- The number a byte string holds when its first byte is the most significant. -/
def ofBigEndian (bytes : Bytes) : Nat :=
  bytes.foldl (fun n b => 256 * n + b.toNat) 0

@[simp] theorem length_littleEndian (width n : Nat) : (littleEndian width n).length = width := by
  induction width generalizing n with
  | zero => rfl
  | succ width ih => simp [littleEndian, ih]

@[simp] theorem length_bigEndian (width n : Nat) : (bigEndian width n).length = width := by
  simp [bigEndian]

/-- A number that fits the width is recovered from its little-endian layout. -/
theorem ofLittleEndian_littleEndian {width n : Nat} (h : n < capacity width) :
    ofLittleEndian (littleEndian width n) = n := by
  induction width generalizing n with
  | zero =>
    simp only [capacity] at h
    obtain rfl : n = 0 := by omega
    rfl
  | succ width ih =>
    have hdiv : n / 256 < capacity width := Nat.div_lt_of_lt_mul h
    have := ih hdiv
    simp only [ofLittleEndian] at this
    simp only [littleEndian, ofLittleEndian, List.foldr_cons, this, UInt8.toNat_ofNat']
    omega

/-- The value of a byte string stays below the bound its length sets. -/
theorem ofLittleEndian_lt (bytes : Bytes) : ofLittleEndian bytes < capacity bytes.length := by
  induction bytes with
  | nil => exact capacity_pos 0
  | cons b rest ih =>
    have hb := b.toNat_lt
    simp only [ofLittleEndian] at ih
    simp only [ofLittleEndian, List.foldr_cons, List.length_cons, capacity]
    omega

end Bytes

end BeaconHarness
