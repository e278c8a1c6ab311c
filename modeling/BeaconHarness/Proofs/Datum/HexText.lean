import BeaconHarness.Proofs.Datum.Reading
import BeaconHarness.Text.Case

/-!
# Hexadecimal texts of byte strings

A text spells a byte string by two digits a byte, in either case. Blanks may stand in front of a
byte and behind the last one, but not inside a byte. Reading accepts exactly the texts that spell a
byte string, behind the mark `0x` or without it.

A byte string has many spellings. They differ in their blanks and in the case of their digits, and
what is written for the byte string is what is left of each of them without the blanks and in lower
case. So a text has as many digits as twice the bytes that are read from it.

Main statement: what is written is read back, and written again from what is read
(`Datum.hexText_reads_back`).
-/

namespace BeaconHarness

namespace Text.Hex

/-! ## Spellings -/

/-- The texts that spell a byte string. -/
inductive Spells : List Char → Bytes → Prop where
  | nil : Spells [] []
  | blank {c : Char} {text : List Char} {b : Bytes} (hc : isAsciiBlank c = true)
    (h : Spells text b) : Spells (c :: text) b
  | byte {c d : Char} {hi lo : Nat} {text : List Char} {b : Bytes} (hc : value? c = some hi)
    (hd : value? d = some lo) (h : Spells text b) :
    Spells (c :: d :: text) (UInt8.ofNat (16 * hi + lo) :: b)

/-- A digit is written in lower case for its value. -/
theorem digit_of_value? {c : Char} {v : Nat} (h : value? c = some v) :
    v < 16 ∧ digit v = c.toLower := by
  have hall : digits.all (fun c => (value? c).all fun v => v < 16 ∧ digit v = c.toLower) = true := by
    decide
  have hc := List.all_eq_true.mp hall c (mem_digits h)
  rw [h] at hc
  exact of_decide_eq_true hc

namespace Spells

variable {text : List Char} {b : Bytes}

/-- A spelling has digits and blanks, and nothing else. -/
theorem mem_digits_or_blank (h : Spells text b) :
    ∀ c ∈ text, c ∈ digits ∨ isAsciiBlank c = true := by
  induction h with
  | nil =>
    intro c hc
    exact absurd hc List.not_mem_nil
  | blank hblank _ ih =>
    intro c hc
    rcases List.mem_cons.mp hc with rfl | hc
    · exact .inr hblank
    · exact ih c hc
  | byte hfirst hsecond _ ih =>
    intro c hc
    rcases List.mem_cons.mp hc with rfl | hc
    · exact .inl (mem_digits hfirst)
    · rcases List.mem_cons.mp hc with rfl | hc
      · exact .inl (mem_digits hsecond)
      · exact ih c hc

theorem ascii (h : Spells text b) : ∀ c ∈ text, c.toNat < 128 := by
  intro c hc
  rcases h.mem_digits_or_blank c hc with hdigit | hblank
  · exact (of_mem_digits hdigit).1
  · simp [isAsciiBlank] at hblank
    omega

/-- Without its blanks and in lower case, a spelling is what is written for the byte string. -/
theorem encode_eq (h : Spells text b) :
    encode b = (text.filter fun c => !isAsciiBlank c).map Char.toLower := by
  induction h with
  | nil => rfl
  | blank hblank _ ih => simp [hblank, ih]
  | @byte c d hi lo text b hfirst hsecond _ ih =>
    obtain ⟨hhi, hc⟩ := digit_of_value? hfirst
    obtain ⟨hlo, hd⟩ := digit_of_value? hsecond
    have hbyte : (UInt8.ofNat (16 * hi + lo)).toNat = 16 * hi + lo := by
      rw [UInt8.toNat_ofNat']
      omega
    have hquotient : (16 * hi + lo) / 16 = hi := by omega
    have hremainder : (16 * hi + lo) % 16 = lo := by omega
    have hcons : encode (UInt8.ofNat (16 * hi + lo) :: b) = c.toLower :: d.toLower :: encode b := by
      show ofByte (UInt8.ofNat (16 * hi + lo)) ++ encode b = _
      rw [ofByte, hbyte, hquotient, hremainder, hc, hd]
      rfl
    rw [hcons, ih]
    simp [isAsciiBlank_of_mem_digits (mem_digits hfirst),
      isAsciiBlank_of_mem_digits (mem_digits hsecond)]

/-- A spelling has two digits for every byte. -/
theorem length_filter (h : Spells text b) :
    (text.filter fun c => !isAsciiBlank c).length = 2 * b.length := by
  rw [← length_encode, h.encode_eq, List.length_map]

end Spells

/-! ## Reading spellings -/

variable {start : Nat} {read b : Bytes} {text : List Char}

theorem decodeFrom_of_blank {c : Char} (h : isAsciiBlank c = true) :
    decodeFrom start read (c :: text) = decodeFrom (start + 1) read text := by
  cases text with
  | nil => simp [decodeFrom, h]
  | cons d text => simp [decodeFrom, h]

theorem decodeFrom_of_byte {c d : Char} {hi lo : Nat} (hc : value? c = some hi)
    (hd : value? d = some lo) :
    decodeFrom start read (c :: d :: text) =
      decodeFrom (start + 2) (UInt8.ofNat (16 * hi + lo) :: read) text := by
  have hblank := isAsciiBlank_of_mem_digits (mem_digits hc)
  simp [decodeFrom, hblank, hc, hd]

theorem decodeFrom_of_spells (h : Spells text b) :
    decodeFrom start read text = .ok (read.reverse ++ b) := by
  induction h generalizing start read with
  | nil => simp [decodeFrom]
  | blank hblank _ ih => rw [decodeFrom_of_blank hblank, ih]
  | byte hfirst hsecond _ ih =>
    rw [decodeFrom_of_byte hfirst hsecond, ih]
    simp

/-- What is read beyond the bytes that were read before is spelled by the text. -/
theorem exists_spells_of_decodeFrom (h : decodeFrom start read text = .ok b) :
    ∃ rest, Spells text rest ∧ b = read.reverse ++ rest := by
  -- The cases are those of the reader; all in which a character does not fit end with a failure.
  fun_induction decodeFrom start read text with
  | case1 start read =>
    cases h
    exact ⟨[], .nil, by simp⟩
  | case2 start read c hblank =>
    cases h
    exact ⟨[], .blank hblank .nil, by simp⟩
  | case5 start read c d text hblank ih =>
    obtain ⟨rest, hrest, rfl⟩ := ih h
    exact ⟨rest, .blank hblank hrest, rfl⟩
  | case8 start read c d text hblank hi lo hsecond hfirst ih =>
    obtain ⟨rest, hrest, rfl⟩ := ih h
    exact ⟨UInt8.ofNat (16 * hi + lo) :: rest, .byte hfirst hsecond hrest, by simp⟩
  | _ => cases h

/-- Reading accepts exactly the texts that spell a byte string. -/
theorem decode_eq_ok_iff {s : String} : decode s = .ok b ↔ Spells s.toList b := by
  constructor
  · intro h
    unfold decode at h
    split at h
    · exact nomatch h
    · obtain ⟨rest, hrest, rfl⟩ := exists_spells_of_decodeFrom h
      simpa using hrest
  · intro h
    have hfind : s.toList.findIdx? (fun c => 128 ≤ c.toNat) = none := by
      rw [List.findIdx?_eq_none_iff]
      intro c hc
      have hascii := h.ascii c hc
      simp
      omega
    simp [decode, hfind, decodeFrom_of_spells h]

end Text.Hex

namespace Datum

open Text.Hex (Spells)

/-! ## Texts as data -/

/-- A text is read as a byte string if it spells it, with or without the mark in front. -/
theorem hexBytes_str_eq_ok_iff {s : String} {b : Bytes} :
    (str s).hexBytes = .ok b ↔ Spells (Text.Hex.unmark s).toList b := by
  rw [← Text.Hex.decode_eq_ok_iff]
  show readHex (Text.Hex.unmark s) = .ok b ↔ _
  unfold readHex
  split
  · rename_i c hc
    rw [hc]
    simp
  · rename_i position hposition
    rw [hposition]
    simp

/-- A text without a mark is read as it is. -/
theorem unmark_eq_self {cs : List Char} (h : ∀ c ∈ cs, c ≠ 'x') :
    Text.Hex.unmark (String.ofList cs) = String.ofList cs := by
  unfold Text.Hex.unmark
  split
  · rename_i rest heq
    rw [String.toList_ofList] at heq
    exact absurd rfl (h 'x' (by simp [heq]))
  · rfl

theorem unmark_marked (cs : List Char) :
    Text.Hex.unmark (String.ofList ('0' :: 'x' :: cs)) = String.ofList cs := by
  unfold Text.Hex.unmark
  rw [String.toList_ofList]
  rfl

/-! ## Main statement -/

/-- The text of a byte string is read as the byte string, without its mark as well, and with its
digits in any case. A text that is read as a byte string has two digits for each byte, apart from
its mark and its blanks, and in lower case these digits are what is written for the byte string. No
other text is read than one that spells a byte string. -/
theorem hexText_reads_back :
    (∀ b : Bytes, (str (bytes b).toHex).hexBytes = .ok b) ∧
    (∀ (b : Bytes) (digits : List Char),
      (bytes b).toHex.toList = '0' :: 'x' :: digits.map Char.toLower →
      (str (String.ofList digits)).hexBytes = .ok b ∧
      (str (String.ofList ('0' :: 'x' :: digits))).hexBytes = .ok b) ∧
    (∀ (s : String) (b : Bytes), (str s).hexBytes = .ok b →
      let digits := (Text.Hex.unmark s).toList.filter fun c => !Text.isAsciiBlank c
      (bytes b).toHex = "0x" ++ Text.lower (String.ofList digits) ∧
      digits.length = 2 * b.length ∧ ∀ c ∈ digits, c ∈ Text.Hex.digits) ∧
    (∀ (s : String) (b : Bytes),
      (str s).hexBytes = .ok b ↔ Spells (Text.Hex.unmark s).toList b) := by
  refine ⟨hexBytes_marked, ?_, ?_, fun s b => hexBytes_str_eq_ok_iff⟩
  · intro b digits h
    have hlower : digits.map Char.toLower = Text.Hex.encode b := by
      have hwritten : (bytes b).toHex.toList = '0' :: 'x' :: Text.Hex.encode b :=
        String.toList_ofList
      rw [hwritten] at h
      simpa using h.symm
    have hspells : Spells digits b := by
      simpa using Text.Hex.decode_eq_ok_iff.mp (Text.Hex.decode_of_toLower hlower)
    have hmark : ∀ c ∈ digits, c ≠ 'x' := fun c hc =>
      (Text.Hex.of_mem_digits (Text.Hex.mem_digits_of_toLower hlower c hc)).2.2.2.2.2
    constructor
    · rw [hexBytes_str_eq_ok_iff, unmark_eq_self hmark, String.toList_ofList]
      exact hspells
    · rw [hexBytes_str_eq_ok_iff, unmark_marked, String.toList_ofList]
      exact hspells
  · intro s b h digits
    have hspells := hexBytes_str_eq_ok_iff.mp h
    refine ⟨?_, hspells.length_filter, ?_⟩
    · have hascii : ∀ c ∈ digits, c.toNat < 128 := fun c hc =>
        hspells.ascii c (List.mem_of_mem_filter hc)
      have hlower : Text.lower (String.ofList digits) = String.ofList (Text.Hex.encode b) := by
        unfold Text.lower
        rw [String.toList_ofList, Text.lowerFrom_ascii hascii, hspells.encode_eq]
      rw [hlower]
      show String.ofList ('0' :: 'x' :: Text.Hex.encode b) = _
      rw [← String.toList_inj]
      simp
    · intro c hc
      obtain ⟨hmem, hblank⟩ := List.mem_filter.mp hc
      rcases hspells.mem_digits_or_blank c hmem with hdigit | hascii
      · exact hdigit
      · simp [hascii] at hblank

/-- Three bytes in digits of both cases, with blanks in front of, between and behind them. -/
theorem hexText_reads_back_blanks :
    let b : Bytes := [0xab, 0x0c, 0xff]
    (bytes b).toHex = "0xab0cff" ∧
    (str "Ab0CfF").hexBytes = .ok b ∧ (str "0xAb0CfF").hexBytes = .ok b ∧
    (str "0x Ab\t0C\nfF ").hexBytes = .ok b ∧
    (bytes b).toHex = "0x" ++ Text.lower "Ab0CfF" := by
  intro b
  have hread : (str "0x Ab\t0C\nfF ").hexBytes = .ok b := by rfl
  obtain ⟨-, hanyCase, hwritten, -⟩ := hexText_reads_back
  obtain ⟨hbare, hmarked⟩ := hanyCase b "Ab0CfF".toList (by decide)
  exact ⟨by rfl, hbare, hmarked, hread, (hwritten _ b hread).1⟩

end Datum

end BeaconHarness
