import BeaconHarness.Proofs.Network.Values
import BeaconHarness.Proofs.Text.Blanks

/-!
# Two readers of numbers

The numbers in the answers of a node and those in a configuration are read by two readers. Both take
a text behind the mark `0x` for hexadecimal and any other text for decimal. They differ in where
they look for the mark: a configuration strips a text of its blanks first, while in an answer the
mark has to stand at the very front.

So the readers can part only over what stands in front of a number, and over the separators, which
are stripped but may not stand around digits. A text without either is the stripped one with blanks
behind it, and blanks behind a number do not matter.

Main statement: both read what is written of a number, and of any other text they make the same
(`Spec.number_readers_agree`).
-/

namespace BeaconHarness

namespace Datum

/-- Blanks behind a text are no part of its mark. -/
theorem isMarked_append_blanks {text back : List Char}
    (hback : ∀ c ∈ back, Text.isAsciiBlank c = true) :
    isMarked (text ++ back) = isMarked text := by
  have hblank : ∀ c ∈ back, c ≠ '0' ∧ c ≠ 'x' := by
    intro c hc
    obtain ⟨-, -, -, -, hzero, hletter⟩ := Text.Integer.of_isAsciiBlank (hback c hc)
    refine ⟨hzero, ?_⟩
    rintro rfl
    exact hletter (by decide)
  rcases text with - | ⟨x, - | ⟨y, rest⟩⟩
  · rcases back with - | ⟨c, back⟩
    · rfl
    · simp [isMarked, (hblank c List.mem_cons_self).1]
  · rcases back with - | ⟨c, back⟩
    · simp
    · simp [isMarked, (hblank c List.mem_cons_self).2]
  · by_cases hzero : x = '0'
    · by_cases hletter : y = 'x'
      · simp [isMarked, hzero, hletter]
      · simp [isMarked, hletter]
    · simp [isMarked, hzero]

end Datum

namespace Spec

/-! ## What two readers make of a text -/

/-- Whether two readers make the same of a text: the same number, or none because they cannot read
the text. What their messages repeat of it may differ. -/
inductive SameReading : Except Failure Int → Except Failure Datum → Prop where
  | number (n : Int) : SameReading (.ok n) (.ok (.int n))
  | unreadable (cause cause' : Unreadable) :
    SameReading (.error (.unreadable cause)) (.error (.unreadable cause'))

/-- Two texts of which the same is read, whatever of them is shown. -/
theorem sameReading_readInteger {base : Text.Integer.Base} {text other : List Char}
    (h : Text.Integer.read base text = Text.Integer.read base other) (shown shownOther : String) :
    SameReading (Datum.readInteger base text shown)
      ((Datum.readInteger base other shownOther).map .int) := by
  unfold Datum.readInteger
  rw [h]
  cases Text.Integer.read base other with
  | ok n => exact .number n
  | error refusal =>
    cases refusal with
    | malformed => exact .unreadable _ _
    | tooLong digits => exact .unreadable _ _

/-- The readers agree about a text with nothing but blanks in addition to the stripped one, if these
stand behind it and may stand around digits. -/
theorem sameReading_of_strip {s : String} {back : List Char} (hascii : ∀ c ∈ s.toList, c.toNat < 128)
    (hback : ∀ c ∈ back, Text.isAsciiBlank c = true) (h : s.toList = Text.strip s.toList ++ back) :
    SameReading (Datum.str s).integer (readNumber (.str s)) := by
  have hmark : Datum.isMarked s.toList = Datum.isMarked (Text.strip s.toList) := by
    rw [h, Datum.isMarked_append_blanks hback, ← h]
  have hstripped : ∀ c ∈ Text.strip s.toList, c.toNat < 128 := by
    intro c hc
    apply hascii c
    rw [h]
    exact List.mem_append_left back hc
  have hread (base : Text.Integer.Base) :
      Text.Integer.read base s.toList = Text.Integer.read base (Text.strip s.toList) := by
    -- The stripped text stands inside itself once more, so only the left side is rewritten.
    conv_lhs => rw [h]
    exact Text.Integer.read_append_blanks hback hstripped
  rw [readNumber_str, Datum.integer_str, Datum.integer_str, String.toList_ofList, hmark]
  exact sameReading_readInteger (hread _) _ _

/-! ## Main statement -/

/-- Both readers read the decimal text of an integer as the integer, as long as it has no more
digits than are converted, and the hexadecimal text of a number, in any case and behind any number
of zeros, as the number. They make the same of every ASCII text that does not begin with a blank and
has none of the separators U+001C to U+001F. -/
theorem number_readers_agree :
    (∀ n : Int, n.natAbs < Nat.pow 10 Text.Integer.digitLimit →
      (Datum.str (Text.Integer.decimal n)).integer = .ok n ∧
      readNumber (.str (Text.Integer.decimal n)) = .ok (.int n)) ∧
    (∀ (n zeros : Nat) (digits : List Char),
      digits.map Char.toLower = List.replicate zeros '0' ++ Nat.toDigits 16 n →
      (Datum.str (String.ofList ('0' :: 'x' :: digits))).integer = .ok n ∧
      readNumber (.str (String.ofList ('0' :: 'x' :: digits))) = .ok (.int n)) ∧
    (∀ s : String, (∀ c ∈ s.toList, c.toNat < 128 ∧ ¬ (28 ≤ c.toNat ∧ c.toNat ≤ 31)) →
      (∀ c ∈ s.toList.head?, Text.isBlank c = false) →
      SameReading (Datum.str s).integer (readNumber (.str s))) := by
  refine ⟨?_, ?_, ?_⟩
  · intro n hn
    exact ⟨Datum.integer_text hn, readNumber_text hn⟩
  · intro n zeros digits hdigits
    exact ⟨Datum.integer_marked (Text.Integer.read_hexadecimal hdigits),
      readNumber_hexadecimal hdigits⟩
  · intro s hs hfront
    obtain ⟨back, hsplit, hblank⟩ := Text.exists_strip_append hfront
    have hback : ∀ c ∈ back, Text.isAsciiBlank c = true := by
      intro c hc
      have hmem : c ∈ s.toList := by
        rw [hsplit]
        exact List.mem_append_right _ hc
      obtain ⟨hascii, hseparator⟩ := hs c hmem
      exact Text.isAsciiBlank_of_isBlank hascii hseparator (hblank c hc)
    exact sameReading_of_strip (fun c hc => (hs c hc).1) hback hsplit

/-- The most negative number of sixty-four bits, a number in digits of both cases behind a zero, a
text with signs, underscores and blanks behind it, and one that neither of the readers can read. -/
theorem number_readers_agree_samples :
    (Datum.str "-9223372036854775808").integer = .ok (-9223372036854775808) ∧
    readNumber (.str "-9223372036854775808") = .ok (.int (-9223372036854775808)) ∧
    (Datum.str "0x0aBcD").integer = .ok 0xabcd ∧ readNumber (.str "0x0aBcD") = .ok (.int 0xabcd) ∧
    SameReading (Datum.str "+1_000\n\t ").integer (readNumber (.str "+1_000\n\t ")) ∧
    SameReading (Datum.str "0x_ ").integer (readNumber (.str "0x_ ")) := by
  have hsize : (-9223372036854775808 : Int).natAbs < Nat.pow 10 Text.Integer.digitLimit :=
    Text.Integer.lt_pow_digitLimit (by decide)
  obtain ⟨hdecimal, hhexadecimal, hsame⟩ := number_readers_agree
  obtain ⟨hanswer, hconfig⟩ := hdecimal (-9223372036854775808) hsize
  obtain ⟨hanswer', hconfig'⟩ := hhexadecimal 0xabcd 1 "0aBcD".toList (by decide)
  have hchars (text : List Char)
      (h : text.all (fun c => c.toNat < 128 ∧ ¬ (28 ≤ c.toNat ∧ c.toNat ≤ 31)) = true) :
      ∀ c ∈ text, c.toNat < 128 ∧ ¬ (28 ≤ c.toNat ∧ c.toNat ≤ 31) :=
    fun c hc => of_decide_eq_true (List.all_eq_true.mp h c hc)
  refine ⟨hanswer, hconfig, hanswer', hconfig', hsame _ ?_ ?_, hsame _ ?_ ?_⟩
  · exact hchars _ (by decide)
  · rintro c ⟨⟩
    rfl
  · exact hchars _ (by decide)
  · rintro c ⟨⟩
    rfl

end Spec

end BeaconHarness
