import BeaconHarness.Proofs.Text.Digits
import Mathlib.Data.List.DropRight

/-!
# Blanks behind a number

Reading a number goes from the front of a text to the end of its digits, and asks for nothing but
blanks behind them. Each step of it leaves blanks at the end of a text where they stand: they are no
sign, no letter of a mark, no underscore and no digit. So the same comes out with and without them,
a number or a refusal.

Stripping a text that does not begin with a blank takes blanks off its end alone. In a text of ASCII
without the separators U+001C to U+001F, all of these may stand behind a number.

Main statement: blanks at the end of an ASCII text do not matter (`Integer.read_append_blanks`).
-/

namespace BeaconHarness.Text

/-! ## Stripping the end of a text -/

/-- Of the blanks, only separators and characters beyond ASCII may not stand around a number. -/
theorem isAsciiBlank_of_isBlank {c : Char} (hascii : c.toNat < 128)
    (hseparator : ¬ (28 ≤ c.toNat ∧ c.toNat ≤ 31)) (h : isBlank c = true) :
    isAsciiBlank c = true := by
  have hwide : wideBlanks.contains c.toNat = false := by
    have hall : wideBlanks.all (128 ≤ ·) = true := by decide
    rw [List.contains_eq_mem, decide_eq_false_iff_not]
    intro hmem
    have hle := of_decide_eq_true (List.all_eq_true.mp hall _ hmem)
    omega
  rw [isBlank, hwide] at h
  simpa [hseparator] using h

/-- A text that does not begin with a blank is what is left of it when it is stripped, with blanks
behind it. -/
theorem exists_strip_append {text : List Char} (h : ∀ c ∈ text.head?, isBlank c = false) :
    ∃ back, text = strip text ++ back ∧ ∀ c ∈ back, isBlank c = true := by
  have hsplit : text.rdropWhile isBlank ++ text.rtakeWhile isBlank = text :=
    List.rdropWhile_append_rtakeWhile
  refine ⟨text.rtakeWhile isBlank, ?_, fun c hc => List.mem_rtakeWhile_imp hc⟩
  unfold strip
  rw [dropWhile_of_head h]
  exact hsplit.symm

namespace Integer

/-! ## What a blank is not -/

/-- A blank is no digit, sign, underscore or letter of a mark. -/
theorem of_isAsciiBlank {c : Char} (h : isAsciiBlank c = true) :
    Hex.value? c = none ∧ c ≠ '-' ∧ c ≠ '+' ∧ c ≠ '_' ∧ c ≠ '0' ∧ c ∉ "bBoOxX".toList :=
  forall_char (P := fun c => isAsciiBlank c = true →
      Hex.value? c = none ∧ c ≠ '-' ∧ c ≠ '+' ∧ c ≠ '_' ∧ c ≠ '0' ∧ c ∉ "bBoOxX".toList)
    (by decide)
    (fun c hwide hblank => by
      simp [isAsciiBlank] at hblank
      omega)
    c h

theorem digitValue?_of_isAsciiBlank (base : Base) {c : Char} (h : isAsciiBlank c = true) :
    digitValue? base c = none := by
  rw [digitValue?, (of_isAsciiBlank h).1]

theorem not_mem_letters_of_isAsciiBlank (base : Base) {c : Char} (h : isAsciiBlank c = true) :
    c ∉ base.letters := by
  obtain ⟨-, -, -, -, -, hletter⟩ := of_isAsciiBlank h
  have hall : base.letters.all (fun d => d ∈ "bBoOxX".toList) = true := by
    cases base <;> decide
  intro hmem
  exact hletter (of_decide_eq_true (List.all_eq_true.mp hall c hmem))

/-! ## The steps of reading -/

section

variable {base : Base} {back : List Char} (hback : ∀ c ∈ back, isAsciiBlank c = true)

include hback

theorem dropWhile_append_blanks (text : List Char) :
    ∃ rest, (text ++ back).dropWhile isAsciiBlank = text.dropWhile isAsciiBlank ++ rest ∧
      ∀ c ∈ rest, isAsciiBlank c = true := by
  rw [List.dropWhile_append]
  -- If there is nothing but blanks, all of them are passed over at once.
  by_cases hnothing : (text.dropWhile isAsciiBlank).isEmpty = true
  · rw [if_pos hnothing, List.isEmpty_iff.mp hnothing, List.dropWhile_eq_nil_iff.mpr hback]
    exact ⟨[], rfl, nofun⟩
  · rw [if_neg hnothing]
    exact ⟨back, rfl, hback⟩

theorem splitSign_append_blanks (text : List Char) :
    splitSign (text ++ back) = ((splitSign text).1, (splitSign text).2 ++ back) := by
  cases text with
  | nil =>
    cases back with
    | nil => rfl
    | cons c rest =>
      obtain ⟨-, hminus, hplus, -⟩ := of_isAsciiBlank (hback c List.mem_cons_self)
      simp [splitSign, hminus, hplus]
  | cons c rest =>
    by_cases hminus : c = '-'
    · simp [splitSign, hminus]
    · by_cases hplus : c = '+'
      · simp [splitSign, hplus]
      · simp [splitSign, hminus, hplus]

theorem dropMark_append_blanks (text : List Char) :
    dropMark base (text ++ back) = dropMark base text ++ back := by
  rcases text with - | ⟨x, - | ⟨c, rest⟩⟩
  · -- A mark does not begin with a blank.
    rcases back with - | ⟨d, back⟩
    · rfl
    · obtain ⟨-, -, -, -, hzero, -⟩ := of_isAsciiBlank (hback d List.mem_cons_self)
      simp [dropMark, hzero]
  · -- A zero alone is no mark, and no blank makes one of it.
    rcases back with - | ⟨d, back⟩
    · simp
    · have hletter := not_mem_letters_of_isAsciiBlank base (hback d List.mem_cons_self)
      by_cases hzero : x = '0'
      · simp [dropMark, hzero, hletter]
      · simp [dropMark, hzero]
  · by_cases hzero : x = '0'
    · by_cases hletter : c ∈ base.letters
      · -- Behind a mark stands an underscore, or nothing is taken off any more.
        rcases rest with - | ⟨y, rest⟩
        · rcases back with - | ⟨d, back⟩
          · simp
          · obtain ⟨-, -, -, hunderscore, -⟩ := of_isAsciiBlank (hback d List.mem_cons_self)
            simp [dropMark, hzero, hletter, hunderscore]
        · by_cases hunderscore : y = '_'
          · simp [dropMark, hzero, hletter, hunderscore]
          · simp [dropMark, hzero, hletter, hunderscore]
      · simp [dropMark, hzero, hletter]
    · simp [dropMark, hzero]

/-- A run of digits ends in front of blanks. -/
theorem digitRun_append_blanks (afterDigit : Bool) (read : List Nat) (text : List Char) :
    digitRun base afterDigit read (text ++ back) =
      (digitRun base afterDigit read text).map fun r => (r.1, r.2 ++ back) := by
  induction text generalizing afterDigit read with
  | nil =>
    cases back with
    | nil => simp
    | cons c rest =>
      have hblank := hback c List.mem_cons_self
      obtain ⟨-, -, -, hunderscore, -⟩ := of_isAsciiBlank hblank
      simp [digitRun, hunderscore, digitValue?_of_isAsciiBlank base hblank]
  | cons c rest ih =>
    rw [List.cons_append, digitRun, digitRun]
    by_cases hunderscore : c = '_'
    · rw [if_pos hunderscore, if_pos hunderscore]
      cases afterDigit with
      | false => rfl
      | true => exact ih false read
    · rw [if_neg hunderscore, if_neg hunderscore]
      cases digitValue? base c with
      | some d => exact ih true (d :: read)
      | none => simp

theorem readDigits_append_blanks (text : List Char) :
    readDigits base (text ++ back) = readDigits base text := by
  have hall : back.all isAsciiBlank = true := List.all_eq_true.mpr hback
  unfold readDigits
  rw [digitRun_append_blanks hback]
  cases digitRun base false [] text with
  | none => rfl
  | some run => simp [hall]

/-- Blanks at the end of an ASCII text do not matter. -/
theorem read_append_blanks {text : List Char} (hascii : ∀ c ∈ text, c.toNat < 128) :
    read base (text ++ back) = read base text := by
  have hblanks : ∀ c ∈ back, c.toNat < 128 := by
    intro c hc
    have hblank := hback c hc
    simp [isAsciiBlank] at hblank
    omega
  have hwhole : toAscii (text ++ back) = text ++ back := by
    apply toAscii_eq_self
    intro c hc
    rcases List.mem_append.mp hc with hc | hc
    · exact hascii c hc
    · exact hblanks c hc
  obtain ⟨rest, hfront, hrest⟩ := dropWhile_append_blanks hback text
  unfold read
  rw [hwhole, toAscii_eq_self hascii, hfront, splitSign_append_blanks hrest]
  simp only [dropMark_append_blanks hrest, readDigits_append_blanks hrest]

end

end Integer

end BeaconHarness.Text
