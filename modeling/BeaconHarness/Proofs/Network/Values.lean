import BeaconHarness.Network.Config
import BeaconHarness.Proofs.Datum.Reading
import Mathlib.Data.List.Induction

/-!
# Values of a configuration

A number may be written as a number, as its decimal text, or as its hexadecimal text behind the
mark; a fork version as a byte string, as the number that its bytes make up, or as its hexadecimal
text with or without the mark. The digits of hexadecimal texts may be in either case, and zeros may
stand in front of those of a number, but zero bytes in front of a version vanish in the number.

Main statement: every field reads what was written as the value (`Form.read_of_writes`).
-/

namespace BeaconHarness

/-! ## Bytes and numbers -/

namespace Bytes

theorem ofBigEndian_append (b : Bytes) (x : UInt8) :
    ofBigEndian (b ++ [x]) = 256 * ofBigEndian b + x.toNat := by
  rw [ofBigEndian, List.foldl_append]
  rfl

theorem bigEndian_succ (width n : Nat) :
    bigEndian (width + 1) n = bigEndian width (n / 256) ++ [UInt8.ofNat n] := by
  rw [bigEndian, littleEndian, List.reverse_cons]
  rfl

theorem ofBigEndian_lt (b : Bytes) : ofBigEndian b < capacity b.length := by
  induction b using List.reverseRecOn with
  | nil => exact Nat.one_pos
  | append_singleton b x ih =>
    have hx := x.toNat_lt
    rw [ofBigEndian_append, List.length_append, List.length_singleton, capacity]
    omega

/-- A byte string is laid out again from the number that it makes up. -/
theorem bigEndian_ofBigEndian (b : Bytes) : bigEndian b.length (ofBigEndian b) = b := by
  induction b using List.reverseRecOn with
  | nil => rfl
  | append_singleton b x ih =>
    have hx : x.toNat < 256 := x.toNat_lt
    have hquotient : (256 * ofBigEndian b + x.toNat) / 256 = ofBigEndian b := by omega
    have hbyte : UInt8.ofNat (256 * ofBigEndian b + x.toNat) = x := by
      rw [← UInt8.toNat_inj, UInt8.toNat_ofNat']
      omega
    rw [ofBigEndian_append, List.length_append, List.length_singleton, bigEndian_succ, hquotient,
      ih, hbyte]

end Bytes

namespace Spec

/-! ## How values are written -/

/-- How a configuration may write the value of a field of a form. -/
inductive Writes : Form → Datum → Datum → Prop
  | text (s : String) : Writes .text (.str s) (.str s)
  | number (n : Int) : Writes .number (.int n) (.int n)
  | decimal {n : Nat} (h : n < Nat.pow 10 Text.Integer.digitLimit) :
    Writes .number (.int n) (.str (toString n))
  /-- A number in hexadecimal digits of either case, behind any number of zeros. -/
  | hexadecimal {n zeros : Nat} {digits : List Char}
    (hdigits : digits.map Char.toLower = List.replicate zeros '0' ++ Nat.toDigits 16 n) :
    Writes .number (.int n) (.str (String.ofList ('0' :: 'x' :: digits)))
  | version {b : Bytes} (h : b.length = 4) : Writes .version (.bytes b) (.bytes b)
  | bigEndian {b : Bytes} (h : b.length = 4) :
    Writes .version (.bytes b) (.int (Bytes.ofBigEndian b))
  /-- A version in hexadecimal digits of either case. -/
  | bare {b : Bytes} {digits : List Char} (h : b.length = 4)
    (hdigits : digits.map Char.toLower = Text.Hex.encode b) :
    Writes .version (.bytes b) (.str (String.ofList digits))
  | marked {b : Bytes} {digits : List Char} (h : b.length = 4)
    (hdigits : digits.map Char.toLower = Text.Hex.encode b) :
    Writes .version (.bytes b) (.str (String.ofList ('0' :: 'x' :: digits)))

/-! ## Numbers -/

theorem isBlank_of_mem_digits {text : List Char} (h : ∀ c ∈ text, c ∈ Text.Hex.digits) :
    ∀ c ∈ text, Text.isBlank c = false := fun c hc => (Text.Hex.of_mem_digits (h c hc)).2.1

/-- Nothing is stripped off the decimal text of an integer. -/
theorem isBlank_decimal (n : Int) :
    ∀ c ∈ (Text.Integer.decimal n).toList, Text.isBlank c = false := by
  cases n with
  | ofNat n => exact isBlank_of_mem_digits (Text.Integer.toString_mem_digits n)
  | negSucc n =>
    rw [Text.Integer.toList_decimal_negSucc]
    intro c hc
    rcases List.mem_cons.mp hc with rfl | hc
    · decide
    · exact isBlank_of_mem_digits (Text.Integer.toString_mem_digits (n + 1)) c hc

/-- Nothing is stripped off the mark and the digits behind it. -/
theorem isBlank_of_marked {digits : List Char} (h : ∀ c ∈ digits, c ∈ Text.Hex.digits) :
    ∀ c ∈ '0' :: 'x' :: digits, Text.isBlank c = false := by
  intro c hc
  rcases List.mem_cons.mp hc with rfl | hc
  · decide
  · rcases List.mem_cons.mp hc with rfl | hc
    · decide
    · exact isBlank_of_mem_digits h c hc

/-- A configuration strips a text of blanks, and reads what is left as answers are read. -/
theorem readNumber_str (s : String) :
    readNumber (.str s) = (Datum.str (String.ofList (Text.strip s.toList))).integer.map .int := by
  have hstripped : readNumberText (.str s) = (if Datum.isMarked (Text.strip s.toList)
      then Datum.readInteger .hexadecimal (Text.strip s.toList)
        (Text.Quoted.ofString (String.ofList (Text.strip s.toList)))
      else Datum.readInteger .decimal (Text.strip s.toList)
        (Text.Quoted.ofString (String.ofList (Text.strip s.toList)))) := rfl
  show (readNumberText (.str s)).map Datum.int = _
  rw [hstripped, Datum.integer_str, String.toList_ofList]
  split <;> rfl

/-- What is read of the text of a number that has no blanks. -/
theorem readNumber_of_integer {s : String} {n : Int}
    (h : ∀ c ∈ s.toList, Text.isBlank c = false) (hread : (Datum.str s).integer = .ok n) :
    readNumber (.str s) = .ok (.int n) := by
  rw [readNumber_str, Text.strip_eq_self h, String.ofList_toList, hread]
  rfl

/-- The decimal text of an integer of either sign is read as the integer. -/
theorem readNumber_text {n : Int} (h : n.natAbs < Nat.pow 10 Text.Integer.digitLimit) :
    readNumber (.str (Text.Integer.decimal n)) = .ok (.int n) :=
  readNumber_of_integer (isBlank_decimal n) (Datum.integer_text h)

theorem readNumber_decimal {n : Nat} (h : n < Nat.pow 10 Text.Integer.digitLimit) :
    readNumber (.str (toString n)) = .ok (.int n) := readNumber_text (n := n) h

theorem readNumber_hexadecimal {n zeros : Nat} {digits : List Char}
    (h : digits.map Char.toLower = List.replicate zeros '0' ++ Nat.toDigits 16 n) :
    readNumber (.str (String.ofList ('0' :: 'x' :: digits))) = .ok (.int n) := by
  obtain ⟨ds, hvalues, -⟩ := Text.Integer.exists_values_of_toLower h
  have hdigits := Text.Integer.mem_digits_of_values hvalues
  apply readNumber_of_integer
  · rw [String.toList_ofList]
    exact isBlank_of_marked hdigits
  · exact Datum.integer_marked (Text.Integer.read_hexadecimal h)

/-! ## Versions -/

/-- A text without the letter of the mark is left as it is. -/
theorem unmarkAll_eq_self {text : List Char} (h : ∀ c ∈ text, c ≠ 'x') :
    unmarkAll text = text := by
  fun_induction unmarkAll text with
  | case1 rest ih => exact absurd rfl (h 'x' (by simp))
  | case2 c rest hc ih => rw [ih fun d hd => h d (List.mem_cons_of_mem c hd)]
  | case3 => rfl

/-- What is read of the text of a version. -/
theorem versionBytes_str (s : String) : versionBytes (.str s)
    = Datum.readHex (String.ofList (unmarkAll (Text.strip s.toList))) := by
  simp only [versionBytes, Datum.displayed_str, bind, Except.bind]

/-- A version is read of its digits. -/
theorem versionBytes_of_unmarkAll {s : String} {b : Bytes} {digits : List Char}
    (hblank : ∀ c ∈ s.toList, Text.isBlank c = false) (hunmark : unmarkAll s.toList = digits)
    (hdigits : digits.map Char.toLower = Text.Hex.encode b) : versionBytes (.str s) = .ok b := by
  rw [versionBytes_str, Text.strip_eq_self hblank, hunmark]
  unfold Datum.readHex
  rw [Text.Hex.decode_of_toLower hdigits]

theorem unmarkAll_of_mem_digits {digits : List Char} (h : ∀ c ∈ digits, c ∈ Text.Hex.digits) :
    unmarkAll digits = digits :=
  unmarkAll_eq_self fun c hc => (Text.Hex.of_mem_digits (h c hc)).2.2.2.2.2

theorem versionBytes_bare {b : Bytes} {digits : List Char}
    (hdigits : digits.map Char.toLower = Text.Hex.encode b) :
    versionBytes (.str (String.ofList digits)) = .ok b := by
  have hmem := Text.Hex.mem_digits_of_toLower hdigits
  refine versionBytes_of_unmarkAll ?_ ?_ hdigits
  · rw [String.toList_ofList]
    exact isBlank_of_mem_digits hmem
  · rw [String.toList_ofList]
    exact unmarkAll_of_mem_digits hmem

theorem versionBytes_marked {b : Bytes} {digits : List Char}
    (hdigits : digits.map Char.toLower = Text.Hex.encode b) :
    versionBytes (.str (String.ofList ('0' :: 'x' :: digits))) = .ok b := by
  have hmem := Text.Hex.mem_digits_of_toLower hdigits
  refine versionBytes_of_unmarkAll ?_ ?_ hdigits
  · rw [String.toList_ofList]
    exact isBlank_of_marked hmem
  · rw [String.toList_ofList, unmarkAll]
    exact unmarkAll_of_mem_digits hmem

/-- The number that the bytes of a version make up is laid out again. -/
theorem versionOfInt_ofBigEndian {b : Bytes} (h : b.length = 4) :
    versionOfInt (Bytes.ofBigEndian b) = .ok b := by
  have hrange : Bytes.ofBigEndian b < Bytes.capacity 4 := h ▸ Bytes.ofBigEndian_lt b
  have hlayout : Bytes.bigEndian 4 (Bytes.ofBigEndian b) = b :=
    h ▸ Bytes.bigEndian_ofBigEndian b
  generalize Bytes.ofBigEndian b = n at hrange hlayout
  have hfits : (0 ≤ (n : Int) && (n : Int).toNat < Bytes.capacity 4) = true := by
    rw [Int.toNat_natCast, decide_eq_true hrange, decide_eq_true (Int.natCast_nonneg n)]
    rfl
  rw [versionOfInt, hfits, if_pos rfl, Int.toNat_natCast, hlayout]

theorem read_version_of_versionBytes {d : Datum} {b : Bytes} (hbytes : versionBytes d = .ok b)
    (h : b.length = 4) : Form.version.read d = .ok (.bytes b) := by
  have hversion : readVersion d = .ok b := by
    rw [readVersion, hbytes]
    exact if_pos h
  rw [Form.read, hversion]
  rfl

/-! ## Values of all forms -/

/-- Whatever way a value is written in, it is read as the value. -/
theorem Form.read_of_writes {form : Form} {value written : Datum}
    (h : Writes form value written) : form.read written = .ok value := by
  cases h with
  | text s => rfl
  | number n => rfl
  | decimal h => exact readNumber_decimal h
  | hexadecimal hdigits => exact readNumber_hexadecimal hdigits
  | version h => exact read_version_of_versionBytes rfl h
  | bigEndian h =>
    have hbytes : versionBytes (.int _) = .ok _ := versionOfInt_ofBigEndian h
    exact read_version_of_versionBytes hbytes h
  | bare h hdigits => exact read_version_of_versionBytes (versionBytes_bare hdigits) h
  | marked h hdigits => exact read_version_of_versionBytes (versionBytes_marked hdigits) h

end Spec

end BeaconHarness
