import BeaconHarness.Text.Integer
import Mathlib.Data.List.Basic
import Mathlib.Tactic.Common

/-!
# Digits in either case

Reading digits does not depend on their letter case. A run of digits has no blanks, signs, marks and
underscores, so that nothing is taken off its front, and it denotes the number that was written,
behind any number of zeros. Only a decimal text of more digits than are converted is refused.

Main statements: decimal texts of integers of either sign (`Integer.read_decimal`) and hexadecimal
texts in either case (`Integer.read_hexadecimal`) are read as the numbers that were written, and so
are byte strings (`Hex.decode_of_toLower`).
-/

namespace BeaconHarness.Text

/-! ## Characters -/

/-- What holds of each ASCII character, and of each one beyond, holds of all of them. -/
theorem forall_char {P : Char → Prop} (hascii : ∀ n < 128, P (Char.ofNat n))
    (hwide : ∀ c : Char, 128 ≤ c.toNat → P c) (c : Char) : P c := by
  by_cases hc : c.toNat < 128
  · have h := hascii c.toNat hc
    rwa [Char.ofNat_toNat] at h
  · exact hwide c (Nat.le_of_not_lt hc)

/-- A character whose lower-case form is ASCII is ASCII itself. -/
theorem toNat_lt_of_toLower_lt {c : Char} (h : c.toLower.toNat < 128) : c.toNat < 128 := by
  unfold Char.toLower at h
  split at h
  · rename_i hupper
    have hle : c.val ≤ 'Z'.val := hupper.2
    have hnat : c.val.toNat ≤ 'Z'.val.toNat := UInt32.le_iff_toNat_le.mp hle
    exact Nat.lt_of_le_of_lt hnat (by decide)
  · exact h

theorem toLower_of_wide {c : Char} (h : 128 ≤ c.toNat) : c.toLower = c := by
  unfold Char.toLower
  refine dif_neg fun hupper => ?_
  have hle : c.toNat ≤ 90 := UInt32.le_iff_toNat_le.mp hupper.2
  omega

theorem isAsciiBlank_toLower (c : Char) : isAsciiBlank c.toLower = isAsciiBlank c :=
  forall_char (P := fun c => isAsciiBlank c.toLower = isAsciiBlank c) (by decide)
    (fun c hc => by rw [toLower_of_wide hc]) c

section

variable {text : List Char}

/-- Nothing is passed over in a text that begins with what has to stay. -/
theorem dropWhile_of_head {p : Char → Bool} (h : ∀ c ∈ text.head?, p c = false) :
    text.dropWhile p = text := by
  cases text with
  | nil => rfl
  | cons c rest =>
    apply List.dropWhile_cons_of_neg
    rw [h c rfl]
    exact Bool.false_ne_true

/-- A text without blanks is not stripped of anything. -/
theorem strip_eq_self (h : ∀ c ∈ text, isBlank c = false) : strip text = text := by
  have hfront : text.dropWhile isBlank = text :=
    dropWhile_of_head fun c hc => h c (List.mem_of_mem_head? hc)
  have hback : text.reverse.dropWhile isBlank = text.reverse :=
    dropWhile_of_head fun c hc => h c (List.mem_reverse.mp (List.mem_of_mem_head? hc))
  rw [strip, hfront, hback, List.reverse_reverse]

end

namespace Hex

/-! ## Hexadecimal digits -/

/-- The hexadecimal digits of both cases. -/
def digits : List Char := "0123456789abcdefABCDEF".toList

theorem value?_toLower (c : Char) : value? c.toLower = value? c :=
  forall_char (P := fun c => value? c.toLower = value? c) (by decide)
    (fun c hc => by rw [toLower_of_wide hc]) c

theorem value?_of_wide {c : Char} (h : 128 ≤ c.toNat) : value? c = none := by
  have hlt : ∀ d : Char, d.toNat < 128 → ¬ c ≤ d := fun d hd hle =>
    absurd (Nat.le_trans h (UInt32.le_iff_toNat_le.mp hle)) (Nat.not_le_of_lt hd)
  rw [value?, if_neg fun hc => hlt '9' (by decide) hc.2, if_neg fun hc => hlt 'f' (by decide) hc.2,
    if_neg fun hc => hlt 'F' (by decide) hc.2]

theorem mem_digits {c : Char} {v : Nat} (h : value? c = some v) : c ∈ digits := by
  have hall : ∀ c, (value? c).isSome = true → c ∈ digits :=
    forall_char (P := fun c => (value? c).isSome = true → c ∈ digits) (by decide)
      fun c hc hvalue => by simp [value?_of_wide hc] at hvalue
  exact hall c (by rw [h]; rfl)

/-- Digits are ASCII, and neither blanks nor signs, marks and underscores. -/
theorem of_mem_digits {c : Char} (h : c ∈ digits) :
    c.toNat < 128 ∧ isBlank c = false ∧ c ≠ '-' ∧ c ≠ '+' ∧ c ≠ '_' ∧ c ≠ 'x' := by
  -- The digits are looked at one by one, and not all characters.
  have hall : digits.all (fun c => c.toNat < 128 ∧ isBlank c = false
      ∧ c ≠ '-' ∧ c ≠ '+' ∧ c ≠ '_' ∧ c ≠ 'x') = true := by decide
  exact of_decide_eq_true (List.all_eq_true.mp hall c h)

theorem isAsciiBlank_of_mem_digits {c : Char} (h : c ∈ digits) : isAsciiBlank c = false := by
  obtain ⟨-, hblank, -⟩ := of_mem_digits h
  rw [Bool.eq_false_iff]
  intro hascii
  rw [isBlank_of_isAsciiBlank hascii] at hblank
  exact nomatch hblank

theorem digit_mem_digits {n : Nat} (h : n < 16) : digit n ∈ digits := mem_digits (value?_digit h)

/-! ## Byte strings -/

theorem encode_mem_digits {b : Bytes} : ∀ c ∈ encode b, c ∈ digits := by
  intro c hc
  obtain ⟨x, -, hx⟩ := List.mem_flatMap.mp hc
  have hlt : x.toNat < 256 := x.toNat_lt
  rcases List.mem_cons.mp hx with rfl | hx
  · exact digit_mem_digits (by omega)
  · obtain rfl := List.mem_singleton.mp hx
    exact digit_mem_digits (by omega)

/-- The text of a byte string in either case has digits alone. -/
theorem mem_digits_of_toLower {cs : List Char} {b : Bytes} (h : cs.map Char.toLower = encode b) :
    ∀ c ∈ cs, c ∈ digits := by
  intro c hc
  have hlower : c.toLower ∈ encode b := by
    rw [← h]
    exact List.mem_map_of_mem hc
  have hall : digits.all (fun d => (value? d).isSome) = true := by decide
  have hvalue : (value? c).isSome = true := by
    rw [← value?_toLower]
    exact List.all_eq_true.mp hall _ (encode_mem_digits _ hlower)
  obtain ⟨v, hv⟩ := Option.isSome_iff_exists.mp hvalue
  exact mem_digits hv

/-- Reading bytes does not depend on letter case. -/
theorem decodeFrom_toLower (start : Nat) (read : Bytes) (text : List Char) :
    decodeFrom start read (text.map Char.toLower) = decodeFrom start read text := by
  fun_induction decodeFrom start read text <;>
    simp_all [decodeFrom, isAsciiBlank_toLower, value?_toLower]

/-- The text of a byte string in either case is read as the byte string. -/
theorem decode_of_toLower {cs : List Char} {b : Bytes} (h : cs.map Char.toLower = encode b) :
    decode (String.ofList cs) = .ok b := by
  have hfind : cs.findIdx? (fun c => 128 ≤ c.toNat) = none := by
    rw [List.findIdx?_eq_none_iff]
    intro c hc
    obtain ⟨hascii, -⟩ := of_mem_digits (mem_digits_of_toLower h c hc)
    exact decide_eq_false (by omega)
  have hread := decodeFrom_encode b [] 0
  rw [← h, decodeFrom_toLower] at hread
  simp only [decode, String.toList_ofList, hfind, hread, List.reverse_nil, List.nil_append]

end Hex

namespace Integer

/-! ## Runs of digits -/

variable {base : Base} {cs : List Char} {ds : List Nat}

theorem digitValue?_toLower (base : Base) (c : Char) :
    digitValue? base c.toLower = digitValue? base c := by
  rw [digitValue?, digitValue?, Hex.value?_toLower]

/-- The values of digits do not depend on letter case. -/
theorem map_digitValue?_toLower (base : Base) (cs : List Char) :
    (cs.map Char.toLower).map (digitValue? base) = cs.map (digitValue? base) := by
  rw [List.map_map]
  exact List.map_congr_left fun c _ => digitValue?_toLower base c

theorem mem_digits_of_digitValue? {c : Char} {d : Nat} (h : digitValue? base c = some d) :
    c ∈ Hex.digits := by
  unfold digitValue? at h
  split at h
  · rename_i v hv
    exact Hex.mem_digits hv
  · exact nomatch h

/-- A run of digits with these values has digits of its base alone. -/
theorem exists_value_of_values (h : cs.map (digitValue? base) = ds.map some) :
    ∀ c ∈ cs, ∃ d, digitValue? base c = some d := by
  intro c hc
  have hmem : digitValue? base c ∈ ds.map some := by
    rw [← h]
    exact List.mem_map_of_mem hc
  obtain ⟨d, -, hd⟩ := List.mem_map.mp hmem
  exact ⟨d, hd.symm⟩

theorem mem_digits_of_values (h : cs.map (digitValue? base) = ds.map some) :
    ∀ c ∈ cs, c ∈ Hex.digits := by
  intro c hc
  obtain ⟨d, hd⟩ := exists_value_of_values h c hc
  exact mem_digits_of_digitValue? hd

/-- A run of digits is read to its end. -/
theorem digitRun_of_values (h : cs.map (digitValue? base) = ds.map some) (afterDigit : Bool)
    (read : List Nat) (hstart : afterDigit = true ∨ cs ≠ []) :
    digitRun base afterDigit read cs = some (read.reverse ++ ds, []) := by
  induction cs generalizing afterDigit read ds with
  | nil =>
    have hafter : afterDigit = true := hstart.resolve_right fun hne => hne rfl
    obtain rfl : ds = [] := List.map_eq_nil_iff.mp h.symm
    simp [digitRun, hafter]
  | cons c cs ih =>
    cases ds with
    | nil => exact nomatch h
    | cons d ds =>
      obtain ⟨hc, hcs⟩ := List.cons.inj h
      obtain ⟨-, -, -, -, hunderscore, -⟩ := Hex.of_mem_digits (mem_digits_of_digitValue? hc)
      rw [digitRun, if_neg hunderscore, hc]
      show digitRun base true (d :: read) cs = _
      rw [ih hcs true _ (.inl rfl)]
      simp

/-- A text of ASCII alone is left as it is. -/
theorem toAscii_eq_self (hascii : ∀ c ∈ cs, c.toNat < 128) : toAscii cs = cs :=
  if_pos (List.all_eq_true.mpr fun c hc => decide_eq_true (hascii c hc))

/-- Nothing is taken off the front of a text that begins with a digit. -/
theorem splitSign_of_digit {c : Char} (hc : c ∈ Hex.digits)
    (hascii : ∀ d ∈ cs, d.toNat < 128) :
    splitSign ((toAscii (c :: cs)).dropWhile isAsciiBlank) = (false, c :: cs) := by
  obtain ⟨hlt, -, hminus, hplus, -, -⟩ := Hex.of_mem_digits hc
  have hsame : toAscii (c :: cs) = c :: cs := by
    apply toAscii_eq_self
    intro d hd
    rcases List.mem_cons.mp hd with rfl | hd
    · exact hlt
    · exact hascii d hd
  have hfront : (c :: cs).dropWhile isAsciiBlank = c :: cs := by
    apply dropWhile_of_head
    rintro d ⟨⟩
    exact Hex.isAsciiBlank_of_mem_digits hc
  rw [hsame, hfront]
  unfold splitSign
  split
  · rename_i heq
    exact absurd (List.cons.inj heq).1 hminus
  · rename_i heq
    exact absurd (List.cons.inj heq).1 hplus
  · rfl

/-- A run of digits denotes a number, if it is not too long. -/
theorem readDigits_of_values (h : cs.map (digitValue? base) = ds.map some) (hne : cs ≠ [])
    (hlength : base = .decimal → ds.length ≤ digitLimit) :
    readDigits base cs = .ok (ofDigits base ds) := by
  have hshort : (base = .decimal && digitLimit < ds.length) = false := by
    rw [Bool.and_eq_false_iff, decide_eq_false_iff_not, decide_eq_false_iff_not]
    by_cases hbase : base = .decimal
    · exact .inr (Nat.not_lt.mpr (hlength hbase))
    · exact .inl hbase
  have hsome : ds ≠ [] := fun hnil => hne (by rw [hnil] at h; exact List.map_eq_nil_iff.mp h)
  have hempty : ds.isEmpty = false := by
    cases ds with
    | nil => exact absurd rfl hsome
    | cons d ds => rfl
  unfold readDigits
  rw [digitRun_of_values h false [] (.inr hne), List.reverse_nil, List.nil_append]
  simp only [hshort, hempty]
  rfl

/-- The letters of a mark are no digits of its base, so that a run of digits has no mark. -/
theorem dropMark_of_values (h : cs.map (digitValue? base) = ds.map some) :
    dropMark base cs = cs := by
  have hletters : base.letters.all (fun c => (digitValue? base c).isNone) = true := by
    cases base <;> decide
  unfold dropMark
  split
  · rename_i c rest
    have hnot : base.letters.contains c = false := by
      rw [Bool.eq_false_iff]
      intro hc
      have hnone := List.all_eq_true.mp hletters c (List.contains_iff_mem.mp hc)
      obtain ⟨d, hd⟩ := exists_value_of_values h c (List.mem_cons_of_mem _ List.mem_cons_self)
      rw [hd] at hnone
      exact nomatch hnone
    rw [hnot, if_neg Bool.false_ne_true]
  · rfl

/-- A run of digits is read as the number that they denote. -/
theorem read_of_values (h : cs.map (digitValue? base) = ds.map some) (hne : cs ≠ [])
    (hlength : base = .decimal → ds.length ≤ digitLimit) :
    read base cs = .ok (ofDigits base ds) := by
  have hdigits := mem_digits_of_values h
  cases cs with
  | nil => exact absurd rfl hne
  | cons c cs =>
    have hascii : ∀ d ∈ cs, d.toNat < 128 :=
      fun d hd => (Hex.of_mem_digits (hdigits d (List.mem_cons_of_mem c hd))).1
    unfold read
    rw [splitSign_of_digit (hdigits c List.mem_cons_self) hascii]
    simp only [dropMark_of_values h, readDigits_of_values h hne hlength]
    rfl

/-- The digits that are written of a number denote it. -/
theorem exists_values_toDigits (base : Base) (n : Nat) :
    ∃ ds, (Nat.toDigits base.size n).map (digitValue? base) = ds.map some
      ∧ ofDigits base ds = n := by
  have hdigit : ∀ d < base.size, digitValue? base (Nat.digitChar d) = some d := by
    cases base <;> decide
  have hsize : 1 < base.size := by cases base <;> decide
  induction n using Nat.strongRecOn with
  | ind n ih =>
    by_cases hsmall : n < base.size
    · refine ⟨[n], ?_, ?_⟩
      · rw [Nat.toDigits_of_lt_base hsmall, List.map_singleton, hdigit n hsmall]
        rfl
      · show base.size * 0 + n = n
        rw [Nat.mul_zero, Nat.zero_add]
    · have hlarge : base.size ≤ n := Nat.le_of_not_lt hsmall
      obtain ⟨ds, hds, hvalue⟩ := ih (n / base.size) (Nat.div_lt_self (by omega) hsize)
      refine ⟨ds ++ [n % base.size], ?_, ?_⟩
      · rw [Nat.toDigits_of_base_le hsize hlarge, List.map_append, hds, List.map_singleton,
          hdigit _ (Nat.mod_lt n (by omega)), List.map_append]
        rfl
      · rw [ofDigits] at hvalue ⊢
        rw [List.foldl_append, hvalue]
        exact Nat.div_add_mod n base.size

theorem toDigits_mem_digits (base : Base) (n : Nat) :
    ∀ c ∈ Nat.toDigits base.size n, c ∈ Hex.digits := by
  obtain ⟨ds, hvalues, -⟩ := exists_values_toDigits base n
  exact mem_digits_of_values hvalues

/-- No zero is in front of the digits of another number. -/
theorem head?_toDigits (base : Base) {n : Nat} (h : n ≠ 0) :
    (Nat.toDigits base.size n).head? ≠ some '0' := by
  have hsize : 1 < base.size := by cases base <;> decide
  have hdigit : ∀ d < base.size, d ≠ 0 → Nat.digitChar d ≠ '0' := by cases base <;> decide
  induction n using Nat.strongRecOn with
  | ind n ih =>
    by_cases hsmall : n < base.size
    · rw [Nat.toDigits_of_lt_base hsmall, List.head?_cons]
      exact fun heq => hdigit n hsmall h (Option.some.inj heq)
    · have hlarge : base.size ≤ n := Nat.le_of_not_lt hsmall
      have hpos : 0 < n / base.size := Nat.div_pos hlarge (Nat.lt_of_succ_lt hsize)
      have hless : n / base.size < n := Nat.div_lt_self (Nat.pos_of_ne_zero h) hsize
      have hquotient := ih (n / base.size) hless (Nat.ne_of_gt hpos)
      rw [Nat.toDigits_of_base_le hsize hlarge,
        List.head?_append_of_ne_nil _ Nat.toDigits_ne_nil]
      exact hquotient

/-! ## Decimal texts -/

theorem toList_toString (n : Nat) : (toString n).toList = Nat.toDigits 10 n := by
  rw [Nat.toString_eq_ofList_toDigits, String.toList_ofList]

theorem toString_mem_digits (n : Nat) : ∀ c ∈ (toString n).toList, c ∈ Hex.digits := by
  rw [toList_toString]
  exact toDigits_mem_digits .decimal n

theorem toString_injective {m n : Nat} (h : toString m = toString n) : m = n := by
  have hdigits : Nat.toDigits 10 m = Nat.toDigits 10 n := by
    rw [← toList_toString, ← toList_toString, h]
  calc
    m = Nat.ofDigitChars 10 (Nat.toDigits 10 m) 0 := Nat.ofDigitChars_ten_toDigits.symm
    _ = Nat.ofDigitChars 10 (Nat.toDigits 10 n) 0 := by rw [hdigits]
    _ = n := Nat.ofDigitChars_ten_toDigits

/-- A number of at most twenty digits has few enough of them to be converted. -/
theorem lt_pow_digitLimit {n : Nat} (h : n < Nat.pow 10 20) : n < Nat.pow 10 digitLimit :=
  Nat.lt_of_lt_of_le h (Nat.pow_le_pow_right (by decide) (by decide))

/-- The decimal text of a number is a run of digits that denote the number. -/
theorem exists_values_toString {n : Nat} (h : n < Nat.pow 10 digitLimit) :
    ∃ ds : List Nat, (toString n).toList.map (digitValue? .decimal) = ds.map some ∧
      ofDigits .decimal ds = n ∧ ds.length ≤ digitLimit := by
  obtain ⟨ds, hvalues, hvalue⟩ : ∃ ds : List Nat, (Nat.toDigits 10 n).map (digitValue? .decimal)
      = ds.map some ∧ ofDigits .decimal ds = n := exists_values_toDigits .decimal n
  have hlength : ds.length ≤ digitLimit := by
    have hsame : ds.length = (Nat.toDigits 10 n).length := by
      rw [← List.length_map (f := some), ← hvalues, List.length_map]
    rw [Nat.pow_eq] at h
    rw [hsame]
    exact (Nat.length_toDigits_le_iff (by decide) (by decide)).mpr h
  rw [toList_toString]
  exact ⟨ds, hvalues, hvalue, hlength⟩

theorem toList_toString_ne_nil (n : Nat) : (toString n).toList ≠ [] := by
  rw [toList_toString]
  exact Nat.toDigits_ne_nil

/-- The decimal text of a number is read as the number. -/
theorem read_toString {n : Nat} (h : n < Nat.pow 10 digitLimit) :
    read .decimal (toString n).toList = .ok n := by
  obtain ⟨ds, hvalues, hvalue, hlength⟩ := exists_values_toString h
  rw [read_of_values hvalues (toList_toString_ne_nil n) fun _ => hlength, hvalue]

/-- Behind a minus, a run of digits is read as the negative of the number that they denote. -/
theorem read_minus_of_values (h : cs.map (digitValue? base) = ds.map some) (hne : cs ≠ [])
    (hlength : base = .decimal → ds.length ≤ digitLimit) :
    read base ('-' :: cs) = .ok (-(ofDigits base ds : Int)) := by
  have hascii : ∀ d ∈ '-' :: cs, d.toNat < 128 := by
    intro d hd
    rcases List.mem_cons.mp hd with rfl | hd
    · decide
    · exact (Hex.of_mem_digits (mem_digits_of_values h d hd)).1
  have hsign : splitSign (('-' :: cs).dropWhile isAsciiBlank) = (true, cs) := rfl
  unfold read
  rw [toAscii_eq_self hascii, hsign]
  simp only [dropMark_of_values h, readDigits_of_values h hne hlength]
  rfl

/-- The text of a negative integer is a minus and the digits of its size. -/
theorem toList_decimal_negSucc (n : Nat) :
    (decimal (.negSucc n)).toList = '-' :: (toString (n + 1)).toList := String.toList_append

/-- The decimal text of an integer of either sign is read as the integer. -/
theorem read_decimal {n : Int} (h : n.natAbs < Nat.pow 10 digitLimit) :
    read .decimal (decimal n).toList = .ok n := by
  cases n with
  | ofNat n => exact read_toString h
  | negSucc n =>
    have hsize : n + 1 < Nat.pow 10 digitLimit := h
    obtain ⟨ds, hvalues, hvalue, hlength⟩ := exists_values_toString hsize
    have hne := toList_toString_ne_nil (n + 1)
    rw [toList_decimal_negSucc, read_minus_of_values hvalues hne fun _ => hlength, hvalue]
    rfl

/-! ## Hexadecimal texts -/

/-- Behind the mark, a run of hexadecimal digits is read as the number that they denote. -/
theorem read_marked (h : cs.map (digitValue? .hexadecimal) = ds.map some) (hne : cs ≠ []) :
    read .hexadecimal ('0' :: 'x' :: cs) = .ok (ofDigits .hexadecimal ds) := by
  have hdigits := mem_digits_of_values h
  have hascii : ∀ d ∈ 'x' :: cs, d.toNat < 128 := by
    intro d hd
    rcases List.mem_cons.mp hd with rfl | hd
    · decide
    · exact (Hex.of_mem_digits (hdigits d hd)).1
  -- No underscore follows the mark.
  have hmark : dropMark .hexadecimal ('0' :: 'x' :: cs) = cs := by
    have hletters : Base.hexadecimal.letters.contains 'x' = true := by decide
    simp only [dropMark, hletters, if_true]
    split
    · rename_i rest
      obtain ⟨-, -, -, -, hunderscore, -⟩ := Hex.of_mem_digits (hdigits '_' List.mem_cons_self)
      exact absurd rfl hunderscore
    · rfl
  unfold read
  rw [splitSign_of_digit (by decide) hascii]
  simp only [hmark, readDigits_of_values h hne nofun]
  rfl

theorem toList_hexadecimal (n : Nat) :
    (hexadecimal n).toList = '0' :: 'x' :: Nat.toDigits 16 n := by
  unfold hexadecimal
  rw [if_neg (Int.not_lt.mpr (Int.natCast_nonneg n)), String.toList_append, String.toList_ofList,
    String.toList_ofList]
  rfl

/-- What is written of a number is read as the number. -/
theorem read_toList_hexadecimal (n : Nat) :
    read .hexadecimal (hexadecimal n).toList = .ok n := by
  obtain ⟨ds, hvalues, hvalue⟩ := exists_values_toDigits .hexadecimal n
  have hread := read_marked hvalues Nat.toDigits_ne_nil
  rw [hvalue] at hread
  rw [toList_hexadecimal]
  exact hread

/-- The digits of a byte string denote the number that it makes up. -/
theorem exists_values_encode (b : Bytes) :
    ∃ ds : List Nat, (Hex.encode b).map (digitValue? .hexadecimal) = ds.map some
      ∧ ofDigits .hexadecimal ds = Bytes.ofBigEndian b := by
  have hdigit : ∀ n < 16, digitValue? .hexadecimal (Hex.digit n) = some n := by decide
  have hfold : ∃ ds : List Nat, (Hex.encode b).map (digitValue? .hexadecimal) = ds.map some
      ∧ ∀ n, ds.foldl (fun n d => 16 * n + d) n = b.foldl (fun n x => 256 * n + x.toNat) n := by
    induction b with
    | nil => exact ⟨[], rfl, fun n => rfl⟩
    | cons x b ih =>
      obtain ⟨ds, hds, hvalue⟩ := ih
      have hlt : x.toNat < 256 := x.toNat_lt
      refine ⟨x.toNat / 16 :: x.toNat % 16 :: ds, ?_, fun n => ?_⟩
      · have hencode : Hex.encode (x :: b)
            = Hex.digit (x.toNat / 16) :: Hex.digit (x.toNat % 16) :: Hex.encode b := rfl
        rw [hencode, List.map_cons, List.map_cons, hds, hdigit _ (by omega), hdigit _ (by omega)]
        rfl
      · have hbyte : 16 * (16 * n + x.toNat / 16) + x.toNat % 16 = 256 * n + x.toNat := by omega
        rw [List.foldl_cons, List.foldl_cons, List.foldl_cons, hbyte, hvalue]
  obtain ⟨ds, hds, hvalue⟩ := hfold
  exact ⟨ds, hds, hvalue 0⟩

/-- Zeros in front of digits do not matter. -/
theorem ofDigits_zeros (base : Base) (zeros : Nat) (ds : List Nat) :
    ofDigits base (List.replicate zeros 0 ++ ds) = ofDigits base ds := by
  induction zeros with
  | zero => rfl
  | succ zeros ih =>
    rw [← ih, List.replicate_succ, List.cons_append, ofDigits, ofDigits, List.foldl_cons,
      Nat.mul_zero, Nat.zero_add]

/-- The hexadecimal text of a number in either case, behind any number of zeros, has its digits. -/
theorem exists_values_of_toLower {zeros n : Nat}
    (h : cs.map Char.toLower = List.replicate zeros '0' ++ Nat.toDigits 16 n) :
    ∃ ds : List Nat, cs.map (digitValue? .hexadecimal) = ds.map some
      ∧ ofDigits .hexadecimal ds = n := by
  obtain ⟨ds, hds, hvalue⟩ := exists_values_toDigits .hexadecimal n
  have hzero : digitValue? .hexadecimal '0' = some 0 := by decide
  refine ⟨List.replicate zeros 0 ++ ds, ?_, (ofDigits_zeros _ _ _).trans hvalue⟩
  rw [← map_digitValue?_toLower, h, List.map_append, List.map_append, ← hds, List.map_replicate,
    hzero, List.map_replicate]
  rfl

/-- The hexadecimal text of a number in either case, behind any number of zeros, is read as the
number. -/
theorem read_hexadecimal {zeros n : Nat}
    (h : cs.map Char.toLower = List.replicate zeros '0' ++ Nat.toDigits 16 n) :
    read .hexadecimal ('0' :: 'x' :: cs) = .ok n := by
  obtain ⟨ds, hvalues, hvalue⟩ := exists_values_of_toLower h
  have hne : cs ≠ [] := by
    rintro rfl
    exact Nat.toDigits_ne_nil (List.append_eq_nil_iff.mp h.symm).2
  rw [read_marked hvalues hne, hvalue]

end Integer

end BeaconHarness.Text
