import BeaconHarness.Ssz.Decoding
import Mathlib.Algebra.Group.Nat.Defs

/-!
# Bit strings and their bytes

A bit string is laid out as a number with its bits as binary digits. A bit string of variable length
is closed by one more bit, which is the highest digit of the number: its place tells the length, and
it lies in the last byte, which is therefore never zero.

Main statements: both layouts are read back (`unpackBits_packBits`,
`unpackDelimited_packDelimited`).
-/

namespace BeaconHarness

namespace Bytes

/-! ## The numbers of a width -/

theorem capacity_eq_two_pow (width : Nat) : capacity width = 2 ^ (8 * width) := by
  induction width with
  | zero => rfl
  | succ width ih =>
    rw [capacity, ih, Nat.mul_succ, Nat.pow_add, Nat.mul_comm]

theorem two_pow_le_capacity {bits width : Nat} (h : bits ≤ 8 * width) :
    2 ^ bits ≤ capacity width := by
  rw [capacity_eq_two_pow]
  exact Nat.pow_le_pow_right (by decide) h

/-- The last byte of a little-endian layout holds the highest digits. -/
theorem getLast?_littleEndian (width n : Nat) :
    (littleEndian (width + 1) n).getLast? = some (UInt8.ofNat (n / capacity width)) := by
  induction width generalizing n with
  | zero => simp [littleEndian, capacity]
  | succ width ih =>
    have hne : littleEndian (width + 1) (n / 256) ≠ [] := by simp [littleEndian]
    rw [littleEndian, List.getLast?_cons_of_ne_nil hne, ih, Nat.div_div_eq_div_mul, capacity]

end Bytes

namespace Ssz

open Schema (bitBytes)

/-! ## Digits -/

theorem bitsToNat_cons (b : Bool) (bits : List Bool) :
    bitsToNat (b :: bits) = b.toNat + 2 * bitsToNat bits := rfl

theorem bitsToNat_lt (bits : List Bool) : bitsToNat bits < 2 ^ bits.length := by
  induction bits with
  | nil => exact Nat.one_pos
  | cons b bits ih =>
    have hb := b.toNat_lt
    rw [bitsToNat_cons, List.length_cons, Nat.pow_succ]
    omega

theorem bitsToNat_append_true (bits : List Bool) :
    bitsToNat (bits ++ [true]) = bitsToNat bits + 2 ^ bits.length := by
  induction bits with
  | nil => rfl
  | cons b bits ih =>
    rw [List.cons_append, bitsToNat_cons, bitsToNat_cons, ih, List.length_cons, Nat.pow_succ]
    omega

/-- The lowest digits of a bit string with more bits behind it are its own bits. -/
theorem bitsOfNat_bitsToNat_append (bits more : List Bool) :
    bitsOfNat bits.length (bitsToNat (bits ++ more)) = bits := by
  induction bits with
  | nil => rfl
  | cons b bits ih =>
    have hfirst : (b.toNat + 2 * bitsToNat (bits ++ more)).testBit 0 = b := by
      rw [Nat.testBit_zero]
      cases b <;> simp
    have hrest : ∀ i, (b.toNat + 2 * bitsToNat (bits ++ more)).testBit (i + 1) =
        (bitsToNat (bits ++ more)).testBit i := by
      intro i
      have hhalf : (b.toNat + 2 * bitsToNat (bits ++ more)) / 2 = bitsToNat (bits ++ more) := by
        have hb := b.toNat_lt
        omega
      rw [Nat.testBit_add_one, hhalf]
    unfold bitsOfNat at ih ⊢
    rw [List.length_cons, List.range_succ_eq_map, List.map_cons, List.map_map, List.cons_append,
      bitsToNat_cons, hfirst]
    refine congrArg (b :: ·) (Eq.trans (List.map_congr_left fun i _ => ?_) ih)
    exact hrest i

theorem bitsOfNat_bitsToNat (bits : List Bool) : bitsOfNat bits.length (bitsToNat bits) = bits := by
  have h := bitsOfNat_bitsToNat_append bits []
  rwa [List.append_nil] at h

/-! ## Bytes -/

@[simp] theorem length_packBits (bits : List Bool) :
    (packBits bits).length = bitBytes bits.length := by
  simp [packBits]

@[simp] theorem length_packDelimited (bits : List Bool) :
    (packDelimited bits).length = (bits.length + 8) / 8 := by
  simp only [packDelimited, length_packBits, bitBytes, List.length_append, List.length_singleton]

/-- The bytes of a bit string hold the number whose digits its bits are. -/
theorem ofLittleEndian_packBits (bits : List Bool) :
    Bytes.ofLittleEndian (packBits bits) = bitsToNat bits := by
  have hroom : 2 ^ bits.length ≤ Bytes.capacity (bitBytes bits.length) :=
    Bytes.two_pow_le_capacity (by unfold bitBytes; omega)
  exact Bytes.ofLittleEndian_littleEndian (Nat.lt_of_lt_of_le (bitsToNat_lt bits) hroom)

theorem unpackBits_packBits (bits : List Bool) :
    unpackBits bits.length (packBits bits) = some bits := by
  have hlt : bitsToNat bits < Nat.pow 2 bits.length := bitsToNat_lt bits
  unfold unpackBits
  rw [ofLittleEndian_packBits, if_pos hlt, bitsOfNat_bitsToNat]

/-- The closing bit lies in the last byte. -/
theorem getLast?_packDelimited (bits : List Bool) :
    ∃ last, (packDelimited bits).getLast? = some last ∧ last ≠ 0 := by
  obtain ⟨width, hwidth⟩ : ∃ width, bitBytes (bits ++ [true]).length = width + 1 :=
    ⟨bits.length / 8, by simp only [bitBytes, List.length_append, List.length_singleton]; omega⟩
  have hbits : 8 * width ≤ bits.length ∧ bits.length < 8 * (width + 1) := by
    simp only [bitBytes, List.length_append, List.length_singleton] at hwidth
    omega
  refine ⟨UInt8.ofNat (bitsToNat (bits ++ [true]) / Bytes.capacity width), ?_, ?_⟩
  · unfold packDelimited packBits
    rw [hwidth, Bytes.getLast?_littleEndian]
  · -- The quotient is a number below 256 that is not zero, so its byte is not zero either.
    have hpos := Bytes.capacity_pos width
    have hlow : Bytes.capacity width ≤ bitsToNat (bits ++ [true]) := by
      rw [bitsToNat_append_true, Bytes.capacity_eq_two_pow]
      have := Nat.pow_le_pow_right (show 0 < 2 by decide) hbits.1
      omega
    have hhigh : bitsToNat (bits ++ [true]) < 256 * Bytes.capacity width := by
      have hlt := bitsToNat_lt (bits ++ [true])
      have hroom : 2 ^ (bits ++ [true]).length ≤ Bytes.capacity (width + 1) :=
        Bytes.two_pow_le_capacity (by rw [List.length_append, List.length_singleton]; omega)
      rw [Bytes.capacity] at hroom
      omega
    have hquotient : 0 < bitsToNat (bits ++ [true]) / Bytes.capacity width ∧
        bitsToNat (bits ++ [true]) / Bytes.capacity width < 256 :=
      ⟨Nat.div_pos hlow hpos, Nat.div_lt_of_lt_mul (by rwa [Nat.mul_comm])⟩
    intro hzero
    have hnat := congrArg UInt8.toNat hzero
    rw [UInt8.toNat_ofNat', Nat.mod_eq_of_lt hquotient.2] at hnat
    simp only [UInt8.toNat_zero] at hnat
    omega

theorem unpackDelimited_packDelimited {limit : Nat} {bits : List Bool} (h : bits.length ≤ limit) :
    unpackDelimited limit (packDelimited bits) = some bits := by
  obtain ⟨last, hlast, hne⟩ := getLast?_packDelimited bits
  have hnumber : Bytes.ofLittleEndian (packDelimited bits) = bitsToNat (bits ++ [true]) :=
    ofLittleEndian_packBits _
  have hlength : Nat.log2 (bitsToNat (bits ++ [true])) = bits.length := by
    have hpow : 0 < 2 ^ bits.length := Nat.pow_pos (by decide)
    have hlt := bitsToNat_lt bits
    rw [Nat.log2_eq_iff (by rw [bitsToNat_append_true]; omega), bitsToNat_append_true,
      Nat.pow_succ]
    omega
  unfold unpackDelimited
  rw [hlast]
  simp only [hnumber, hlength, if_neg hne, if_pos h, bitsOfNat_bitsToNat_append]

end Ssz

end BeaconHarness
