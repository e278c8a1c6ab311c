import BeaconHarness.Proofs.Text.Digits
import BeaconHarness.Proofs.Yaml.Entries
import Mathlib.Data.List.TakeWhile

/-!
# Numbers on lines

A run of decimal digits that does not begin with a zero is an integer, and so is one of hexadecimal
digits behind the mark; a zero in front of other digits would mean another base. The first character
already tells both from the words for truth values, and the missing point from decimals.

Main statements: the decimal text of a number denotes the number (`denotes_toString`), and the
marked text of a byte string the number that its bytes make up (`denotes_marked`).
-/

namespace BeaconHarness.Yaml

/-! ## Kinds -/

namespace Scalar

variable {x : Char} {rest : List Char}

/-- Whether a character may stand in a number without a sign and a point. -/
def IsNumeric (c : Char) : Prop := c ∈ 'x' :: Text.Hex.digits

theorem of_isNumeric {c : Char} (h : IsNumeric c) :
    isNameChar c = true ∧ c ≠ '\n' ∧ c ≠ '.' ∧ c ≠ '-' ∧ c ≠ '+' ∧ c ≠ '_' ∧ c ≠ ':' := by
  have hall : ('x' :: Text.Hex.digits).all (fun c => isNameChar c = true ∧ c ≠ '\n' ∧ c ≠ '.'
      ∧ c ≠ '-' ∧ c ≠ '+' ∧ c ≠ '_' ∧ c ≠ ':') = true := by decide +kernel
  exact of_decide_eq_true (List.all_eq_true.mp hall c h)

theorem dropLineEnd_eq_self {text : List Char} (h : ∀ c ∈ text, c ≠ '\n') :
    dropLineEnd text = text := by
  refine if_neg fun hlast => ?_
  exact h '\n' (List.mem_of_getLast? hlast) rfl

/-- The words for truth values begin with letters. -/
theorem not_mem_boolWords (hx : x.isDigit = true) :
    Kind.boolWords.contains (String.ofList (x :: rest)) = false := by
  have hall : Kind.boolWords.all (fun word => !word.toList.head?.any Char.isDigit) = true := by
    decide +kernel
  rw [Bool.eq_false_iff]
  intro hword
  have hfirst := List.all_eq_true.mp hall _ (List.contains_iff_mem.mp hword)
  rw [String.toList_ofList, List.head?_cons, Option.any_some, hx] at hfirst
  cases hfirst

theorem splitSign_eq_self {text : List Char} (h : ∀ c ∈ text, c ≠ '-' ∧ c ≠ '+') :
    Text.Integer.splitSign text = (false, text) := by
  unfold Text.Integer.splitSign
  split
  · exact absurd rfl (h '-' List.mem_cons_self).1
  · exact absurd rfl (h '+' List.mem_cons_self).2
  · rfl

/-- A text without a point is no floating-point number. -/
theorem not_isFloat {text : List Char} (h : ∀ c ∈ text, c ≠ '.' ∧ c ≠ '-' ∧ c ≠ '+') :
    Kind.isFloat text = false := by
  have hsign : Text.Integer.splitSign text = (false, text) :=
    splitSign_eq_self fun c hc => (h c hc).2
  have hdecimal : Kind.isDecimal text = false := by
    have hpoint : text.dropWhile (· ≠ '.') = [] :=
      List.dropWhile_eq_nil_iff.mpr fun c hc => decide_eq_true (h c hc).1
    simp only [Kind.isDecimal, hsign, hpoint]
  -- All words for infinity and for no number have a point.
  have hwords : ∀ word ∈ Kind.infinityWords ++ Kind.nanWords, '.' ∈ word.toList := by
    decide +kernel
  have hword : String.ofList text ∉ Kind.infinityWords ++ Kind.nanWords := by
    intro hmem
    have hpoint := hwords _ hmem
    rw [String.toList_ofList] at hpoint
    exact (h '.' hpoint).1 rfl
  rw [List.mem_append, not_or] at hword
  simp [Kind.isFloat, hdecimal, hsign, hword]

/-- A text of the form of an integer that has a digit in front is one. -/
theorem kindOf_of_isInteger (hx : x.isDigit = true) (h : ∀ c ∈ x :: rest, IsNumeric c)
    (hinteger : Kind.isInteger (x :: rest) = true) : kindOf (x :: rest) = .int := by
  have hbody : dropLineEnd (x :: rest) = x :: rest :=
    dropLineEnd_eq_self fun c hc => (of_isNumeric (h c hc)).2.1
  have hfloat : Kind.isFloat (x :: rest) = false := not_isFloat fun c hc =>
    have hc := of_isNumeric (h c hc)
    ⟨hc.2.2.1, hc.2.2.2.1, hc.2.2.2.2.1⟩
  have hsign : Text.Integer.splitSign (x :: rest) = (false, x :: rest) :=
    splitSign_eq_self fun c hc =>
      have hc := of_isNumeric (h c hc)
      ⟨hc.2.2.2.1, hc.2.2.2.2.1⟩
  simp only [kindOf, hbody, not_mem_boolWords hx, hfloat, hsign, hinteger, Bool.false_eq_true,
    if_false, if_true]

/-- A text without sign and underscores is read as a magnitude. -/
theorem readInt_eq_readMagnitude (h : ∀ c ∈ x :: rest, IsNumeric c) :
    readInt (x :: rest) = readMagnitude (x :: rest) := by
  have hfilter : (x :: rest).filter (· ≠ '_') = x :: rest :=
    List.filter_eq_self.mpr fun c hc => decide_eq_true (of_isNumeric (h c hc)).2.2.2.2.2.1
  have hsign : Text.Integer.splitSign (x :: rest) = (false, x :: rest) :=
    splitSign_eq_self fun c hc =>
      have hc := of_isNumeric (h c hc)
      ⟨hc.2.2.2.1, hc.2.2.2.2.1⟩
  simp only [readInt, splitSign, hfilter, hsign, bind, Except.bind]
  cases readMagnitude (x :: rest) <;> rfl

/-! ## Decimal digits -/

theorem isDigit_of_digitValue? {c : Char}
    (h : (Text.Integer.digitValue? .decimal c).isSome = true) : c.isDigit = true := by
  have hall : Text.Hex.digits.all (fun c =>
      (Text.Integer.digitValue? .decimal c).isSome = true → c.isDigit = true) = true := by
    decide +kernel
  obtain ⟨d, hd⟩ := Option.isSome_iff_exists.mp h
  have hmem := Text.Integer.mem_digits_of_digitValue? hd
  exact of_decide_eq_true (List.all_eq_true.mp hall c hmem) h

/-- The decimal text of a number is a run of digits, with a zero in front only for zero itself. -/
theorem exists_digits (n : Nat) :
    ∃ x rest, (toString n).toList = x :: rest ∧ x.isDigit = true ∧ (n ≠ 0 → x ≠ '0')
      ∧ ∀ c ∈ x :: rest, (Text.Integer.digitValue? .decimal c).isSome = true := by
  obtain ⟨x, rest, hdigits⟩ := List.exists_cons_of_ne_nil (Nat.toDigits_ne_nil (b := 10) (n := n))
  obtain ⟨ds, hvalues, -⟩ := Text.Integer.exists_values_toDigits .decimal n
  have hsome : ∀ c ∈ x :: rest, (Text.Integer.digitValue? .decimal c).isSome = true := by
    intro c hc
    obtain ⟨d, hd⟩ := Text.Integer.exists_value_of_values hvalues c (hdigits ▸ hc)
    rw [hd]
    rfl
  refine ⟨x, rest, (Text.Integer.toList_toString n).trans hdigits,
    isDigit_of_digitValue? (hsome x List.mem_cons_self), ?_, hsome⟩
  intro hn hx
  have hhead : (Nat.toDigits 10 n).head? ≠ some '0' := Text.Integer.head?_toDigits .decimal hn
  rw [hdigits, hx] at hhead
  exact hhead rfl

theorem isNumeric_toString (n : Nat) : ∀ c ∈ (toString n).toList, IsNumeric c :=
  fun c hc => List.mem_cons_of_mem _ (Text.Integer.toString_mem_digits n c hc)

theorem kindOf_toString (n : Nat) : kindOf (toString n).toList = .int := by
  obtain ⟨x, rest, htext, hx, hzero, hsome⟩ := exists_digits n
  have hnumeric : ∀ c ∈ x :: rest, IsNumeric c := htext ▸ isNumeric_toString n
  rw [htext]
  refine kindOf_of_isInteger hx hnumeric ?_
  by_cases hn : n = 0
  · subst hn
    cases htext
    rfl
  -- Without a zero in front only the last form of an integer is left.
  · have hrun : Kind.isRun .decimal (x :: rest) = true := by
      rw [Kind.isRun, List.isEmpty_cons, Bool.not_false, Bool.true_and]
      exact List.all_eq_true.mpr fun c hc => by rw [Kind.isDigitOf, hsome c hc, Bool.or_true]
    have hunderscore : x ≠ '_' := (of_isNumeric (hnumeric x List.mem_cons_self)).2.2.2.2.2.1
    have hnumeral : Kind.isNumeral (x :: rest) = true := by
      simp [Kind.isNumeral, hrun, hunderscore]
    unfold Kind.isInteger
    split
    all_goals first
      | exact absurd (List.cons.inj ‹x :: rest = _›).1 (hzero hn)
      | rw [hnumeral, Bool.true_or]

theorem readInt_toString {n : Nat} (h : n < Nat.pow 10 Text.Integer.digitLimit) :
    readInt (toString n).toList = .ok n := by
  obtain ⟨x, rest, htext, hx, hzero, -⟩ := exists_digits n
  have hnumeric : ∀ c ∈ x :: rest, IsNumeric c := htext ▸ isNumeric_toString n
  have hread : readDigits .decimal (x :: rest) = .ok n := by
    rw [readDigits, ← htext, Text.Integer.read_toString h]
  rw [htext, readInt_eq_readMagnitude hnumeric]
  by_cases hn : n = 0
  · subst hn
    cases htext
    rfl
  · have hcolon : (x :: rest).contains ':' = false := by
      rw [Bool.eq_false_iff]
      intro hmem
      exact (of_isNumeric (hnumeric ':' (List.contains_iff_mem.mp hmem))).2.2.2.2.2.2 rfl
    unfold readMagnitude
    split
    case h_5 => rw [hcolon, if_neg Bool.false_ne_true, hread]
    all_goals first
      | exact absurd (List.cons.inj ‹x :: rest = _›).1 (hzero hn)
      | cases ‹x :: rest = _›

/-! ## Hexadecimal digits -/

theorem isNumeric_marked {digits : List Char} (h : ∀ c ∈ digits, c ∈ Text.Hex.digits) :
    ∀ c ∈ '0' :: 'x' :: digits, IsNumeric c := by
  intro c hc
  rcases List.mem_cons.mp hc with rfl | hc
  · exact List.mem_cons_of_mem _ (by decide)
  · rcases List.mem_cons.mp hc with rfl | hc
    · exact List.mem_cons_self
    · exact List.mem_cons_of_mem _ (h c hc)

theorem kindOf_marked {digits : List Char} (hne : digits ≠ [])
    (h : ∀ c ∈ digits, c ∈ Text.Hex.digits) : kindOf ('0' :: 'x' :: digits) = .int := by
  have hall : Text.Hex.digits.all (Kind.isDigitOf .hexadecimal) = true := by decide +kernel
  have hrun : Kind.isRun .hexadecimal digits = true := by
    rw [Kind.isRun, List.isEmpty_eq_false_iff.mpr hne, Bool.not_false, Bool.true_and]
    exact List.all_eq_true.mpr fun c hc => List.all_eq_true.mp hall c (h c hc)
  exact kindOf_of_isInteger (by decide) (isNumeric_marked h) hrun

/-- The marked text of a byte string, in either case, is read as the number that its bytes make
up. -/
theorem readInt_marked {b : Bytes} {digits : List Char} (hne : digits ≠ [])
    (h : digits.map Char.toLower = Text.Hex.encode b) :
    readInt ('0' :: 'x' :: digits) = .ok (Bytes.ofBigEndian b) := by
  obtain ⟨ds, hvalues, hvalue⟩ := Text.Integer.exists_values_encode b
  rw [← h, Text.Integer.map_digitValue?_toLower] at hvalues
  have hread : readMagnitude ('0' :: 'x' :: digits) = readDigits .hexadecimal digits := rfl
  rw [readInt_eq_readMagnitude (isNumeric_marked (Text.Hex.mem_digits_of_toLower h)), hread,
    readDigits, Text.Integer.read_of_values hvalues hne nofun, hvalue]

end Scalar

/-! ## Lines -/

open Scalar

theorem isWord_of_isNumeric {x : Char} {rest : List Char} (hx : x.isDigit = true)
    (h : ∀ c ∈ x :: rest, IsNumeric c) : IsWord (x :: rest) := by
  refine ⟨⟨x, rfl, ?_⟩, fun c hc => (of_isNumeric (h c hc)).1⟩
  rw [Char.isAlphanum, hx, Bool.or_true]

theorem isWord_toString (n : Nat) : IsWord (toString n).toList := by
  obtain ⟨x, rest, htext, hx, -⟩ := exists_digits n
  have hnumeric := isNumeric_toString n
  rw [htext] at hnumeric ⊢
  exact isWord_of_isNumeric hx hnumeric

theorem isWord_marked {b : Bytes} {digits : List Char}
    (h : digits.map Char.toLower = Text.Hex.encode b) : IsWord ('0' :: 'x' :: digits) :=
  isWord_of_isNumeric (by decide) (isNumeric_marked (Text.Hex.mem_digits_of_toLower h))

namespace Inline

/-- The decimal text of a number denotes the number. -/
theorem denotes_toString {n : Nat} (h : n < Nat.pow 10 Text.Integer.digitLimit) :
    Denotes (.word (toString n).toList (isWord_toString n)) (.int n) := by
  show Scalar.read (kindOf (toString n).toList) (String.ofList (toString n).toList) = _
  rw [kindOf_toString, String.ofList_toList, Scalar.read, readInt_toString h]
  rfl

/-- The marked text of a byte string denotes the number that its bytes make up. -/
theorem denotes_marked {b : Bytes} {digits : List Char} (hne : digits ≠ [])
    (h : digits.map Char.toLower = Text.Hex.encode b) :
    Denotes (.word ('0' :: 'x' :: digits) (isWord_marked h)) (.int (Bytes.ofBigEndian b)) := by
  show Scalar.read (kindOf ('0' :: 'x' :: digits)) (String.ofList ('0' :: 'x' :: digits)) = _
  rw [kindOf_marked hne (Text.Hex.mem_digits_of_toLower h), Scalar.read, String.toList_ofList,
    readInt_marked hne h]
  rfl

end Inline

end BeaconHarness.Yaml
