import BeaconHarness.Datum.Reading
import BeaconHarness.Proofs.Text.Digits

/-!
# Data that come back

A number is written as a run of decimal digits, and a byte string as one of hexadecimal digits
behind a mark. Both ways to read a number leave a decimal text as it is, and both ways to read a
byte string take the mark off.

Main statements: the decimal text of an integer is read as that integer, whether or not texts behind
a mark are read as hexadecimal (`Datum.plainInteger_text`, `Datum.integer_text`), the hexadecimal
text of a number as that number (`Datum.integer_hexadecimal`), and the text of a byte string as that
byte string (`Datum.hexBytes_marked`, `Datum.hexBytesPastMark_marked`).
-/

namespace BeaconHarness

namespace Datum

/-! ## Texts -/

/-- A text is displayed as it is. -/
@[simp] theorem displayed_str (s : String) : (str s).displayed = .ok s := rfl

/-! ## Numbers -/

/-- A text is read in the base that its mark tells. -/
theorem integer_str (s : String) :
    (str s).integer =
      readInteger (if isMarked s.toList then .hexadecimal else .decimal) s.toList
        (Text.Quoted.ofString s) := by
  unfold integer
  cases hmark : isMarked s.toList with
  | true => simp [hmark]
  | false => simp [hmark, plainInteger]

/-- The text of a number has no mark. -/
theorem isMarked_toString (n : Nat) : isMarked (toString n).toList = false := by
  unfold isMarked
  split
  · rename_i rest heq
    have hmem : 'x' ∈ (toString n).toList := by
      rw [heq]
      exact List.mem_cons_of_mem '0' List.mem_cons_self
    obtain ⟨-, -, -, -, -, hletter⟩ :=
      Text.Hex.of_mem_digits (Text.Integer.toString_mem_digits n 'x' hmem)
    exact absurd rfl hletter
  · rfl

/-- The text of an integer of either sign has no mark. -/
theorem isMarked_decimal (n : Int) : isMarked (Text.Integer.decimal n).toList = false := by
  cases n with
  | ofNat n => exact isMarked_toString n
  | negSucc n =>
    rw [Text.Integer.toList_decimal_negSucc]
    rfl

/-- The decimal text of an integer stands for the integer. -/
theorem plainInteger_text {n : Int} (h : n.natAbs < Nat.pow 10 Text.Integer.digitLimit) :
    (str (Text.Integer.decimal n)).plainInteger = .ok n := by
  show readInteger .decimal (Text.Integer.decimal n).toList _ = _
  unfold readInteger
  rw [Text.Integer.read_decimal h]

/-- It does so also where texts behind a mark are hexadecimal. -/
theorem integer_text {n : Int} (h : n.natAbs < Nat.pow 10 Text.Integer.digitLimit) :
    (str (Text.Integer.decimal n)).integer = .ok n := by
  rw [integer_str, isMarked_decimal]
  exact plainInteger_text h

theorem plainInteger_decimal {n : Nat} (h : n < Nat.pow 10 Text.Integer.digitLimit) :
    (str (toString n)).plainInteger = .ok n := plainInteger_text (n := n) h

theorem integer_decimal {n : Nat} (h : n < Nat.pow 10 Text.Integer.digitLimit) :
    (str (toString n)).integer = .ok n := integer_text (n := n) h

/-- A text behind a mark stands for the number that is read of it in hexadecimal. -/
theorem integer_marked {n : Int} {digits : List Char}
    (h : Text.Integer.read .hexadecimal ('0' :: 'x' :: digits) = .ok n) :
    (str (String.ofList ('0' :: 'x' :: digits))).integer = .ok n := by
  rw [integer_str, String.toList_ofList, isMarked, if_pos rfl]
  unfold readInteger
  rw [h]

/-- The hexadecimal text of a number stands for the number. -/
theorem integer_hexadecimal (n : Nat) : (str (Text.Integer.hexadecimal n)).integer = .ok n := by
  have htext : Text.Integer.hexadecimal n = String.ofList ('0' :: 'x' :: Nat.toDigits 16 n) := by
    rw [← String.toList_inj, Text.Integer.toList_hexadecimal, String.toList_ofList]
  have hread := Text.Integer.read_toList_hexadecimal n
  rw [Text.Integer.toList_hexadecimal] at hread
  rw [htext]
  exact integer_marked hread

/-! ## Byte strings -/

/-- The marked text of a byte string stands for the byte string. -/
theorem hexBytes_marked (b : Bytes) : (str (Text.Hex.marked b)).hexBytes = .ok b := by
  have hunmark : Text.Hex.unmark (Text.Hex.marked b) = String.ofList (Text.Hex.encode b) := by
    unfold Text.Hex.unmark Text.Hex.marked
    rw [String.toList_ofList]
    rfl
  show readHex (Text.Hex.unmark (Text.Hex.marked b)) = _
  unfold readHex
  rw [hunmark, Text.Hex.decode_encode]

/-- It does so also where the first two characters are passed over. -/
theorem hexBytesPastMark_marked (b : Bytes) :
    (str (Text.Hex.marked b)).hexBytesPastMark = .ok b := by
  have hdrop : (Text.Hex.marked b).toList.drop 2 = Text.Hex.encode b := by
    unfold Text.Hex.marked
    rw [String.toList_ofList]
    rfl
  show readHex (String.ofList ((Text.Hex.marked b).toList.drop 2)) = _
  unfold readHex
  rw [hdrop, Text.Hex.decode_encode]

end Datum

end BeaconHarness
