import BeaconHarness.Bytes
import BeaconHarness.Text.Blank

/-!
# Hexadecimal text

Two digits a byte, the high half first. Writing uses lower-case digits; reading accepts either
case and ASCII blanks between bytes, never inside one, and a refused text is answered with the
position of the first character that does not fit.

Main statement: what is written is read back (`decode_encode`).
-/

namespace BeaconHarness.Text.Hex

/-! ## Digits -/

/-- The lower-case digit of a number below sixteen. -/
def digit (n : Nat) : Char :=
  if n < 10 then Char.ofNat (48 + n) else Char.ofNat (87 + n)

/-- The value of a hexadecimal digit of either case. -/
def value? (c : Char) : Option Nat :=
  if '0' ≤ c ∧ c ≤ '9' then some (c.toNat - 48)
  else if 'a' ≤ c ∧ c ≤ 'f' then some (c.toNat - 87)
  else if 'A' ≤ c ∧ c ≤ 'F' then some (c.toNat - 55)
  else none

/-! ## Writing -/

/-- The two digits of a byte. -/
def ofByte (b : UInt8) : List Char := [digit (b.toNat / 16), digit (b.toNat % 16)]

/-- The digits of a byte string. -/
def encode (bytes : Bytes) : List Char := bytes.flatMap ofByte

/-- The digits of a byte string behind the mark `0x`. -/
def marked (bytes : Bytes) : String := String.ofList ('0' :: 'x' :: encode bytes)

/-! ## Reading -/

/-- Reads bytes from a text that begins at position `start`; a refusal carries the position of the
character at fault. An odd last digit is at fault behind the end of the text. -/
def decodeFrom : (start : Nat) → Bytes → List Char → Except Nat Bytes
  | _, read, [] => .ok read.reverse
  | start, read, [c] =>
    if isAsciiBlank c then .ok read.reverse
    else match value? c with
      | some _ => .error (start + 1)
      | none => .error start
  | start, read, c :: d :: rest =>
    if isAsciiBlank c then decodeFrom (start + 1) read (d :: rest)
    else match value? c, value? d with
      | none, _ => .error start
      | some _, none => .error (start + 1)
      | some hi, some lo => decodeFrom (start + 2) (UInt8.ofNat (16 * hi + lo) :: read) rest

/-- The bytes of a hexadecimal text, or the position of the first character that does not fit.
In a text with characters beyond ASCII the first of those is at fault. -/
def decode (text : String) : Except Nat Bytes :=
  match text.toList.findIdx? (fun c => 128 ≤ c.toNat) with
  | some i => .error i
  | none => decodeFrom 0 [] text.toList

/-- A text without its leading mark `0x`, if it has one. -/
def unmark (text : String) : String :=
  match text.toList with
  | '0' :: 'x' :: rest => String.ofList rest
  | _ => text

/-! ## Laws -/

theorem value?_digit {n : Nat} (h : n < 16) : value? (digit n) = some n :=
  (by decide : ∀ n < 16, value? (digit n) = some n) n h

theorem isAsciiBlank_digit {n : Nat} (h : n < 16) : isAsciiBlank (digit n) = false :=
  (by decide : ∀ n < 16, isAsciiBlank (digit n) = false) n h

theorem digit_lt {n : Nat} (h : n < 16) : (digit n).toNat < 128 :=
  (by decide : ∀ n < 16, (digit n).toNat < 128) n h

@[simp] theorem length_encode (bytes : Bytes) : (encode bytes).length = 2 * bytes.length := by
  induction bytes with
  | nil => rfl
  | cons b bytes ih =>
    simp only [encode, List.flatMap_cons, List.length_append] at ih ⊢
    simp [ih, ofByte]
    omega

/-- Written text is ASCII. -/
theorem encode_ascii (bytes : Bytes) : ∀ c ∈ encode bytes, c.toNat < 128 := by
  intro c hc
  obtain ⟨b, -, hb⟩ := List.mem_flatMap.mp hc
  have hlt : b.toNat < 256 := b.toNat_lt
  rcases List.mem_cons.mp hb with rfl | hb
  · exact digit_lt (by omega)
  · obtain rfl := List.mem_singleton.mp hb
    exact digit_lt (by omega)

theorem decodeFrom_encode (bytes read : Bytes) (start : Nat) :
    decodeFrom start read (encode bytes) = .ok (read.reverse ++ bytes) := by
  induction bytes generalizing read start with
  | nil => simp [encode, decodeFrom]
  | cons b bytes ih =>
    have hb : b.toNat < 256 := b.toNat_lt
    have hi : b.toNat / 16 < 16 := by omega
    have lo : b.toNat % 16 < 16 := by omega
    have hbyte : UInt8.ofNat (16 * (b.toNat / 16) + b.toNat % 16) = b := by
      rw [Nat.div_add_mod, UInt8.ofNat_toNat]
    have hcons : encode (b :: bytes)
        = digit (b.toNat / 16) :: digit (b.toNat % 16) :: encode bytes := rfl
    rw [hcons, decodeFrom]
    simp only [isAsciiBlank_digit hi, value?_digit hi, value?_digit lo, hbyte,
      Bool.false_eq_true, if_false, ih]
    simp

/-- Reading takes back what was written. -/
theorem decode_encode (bytes : Bytes) : decode (String.ofList (encode bytes)) = .ok bytes := by
  have hfind : (encode bytes).findIdx? (fun c => 128 ≤ c.toNat) = none := by
    rw [List.findIdx?_eq_none_iff]
    intro c hc
    have := encode_ascii bytes c hc
    simp
    omega
  simp [decode, hfind, decodeFrom_encode]

end BeaconHarness.Text.Hex
