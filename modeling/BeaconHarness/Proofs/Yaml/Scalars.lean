import BeaconHarness.Proofs.Text.Digits
import BeaconHarness.Yaml.Token

/-!
# Scalars on one line

A word ends at a colon with a blank behind it or at the end of its line, and a text between single
quotes at the second quote. If another line begins at the margin, it belongs to no scalar of a block
that is indented, so that neither goes on there.

Main statements: what is read of a key (`Plain.read_key`), of a word at the end of a line
(`Plain.read_word`) and of a text between quotes (`Quoted.read_inner`).
-/

namespace BeaconHarness.Yaml

open Text.Quoted (single)

/-! ## Characters -/

theorem toNat_lt_of_isNameChar {c : Char} (h : isNameChar c = true) : c.toNat < 128 := by
  have hbelow : ∀ last : Char, last.toNat < 128 → c.val ≤ last.val → c.toNat < 128 :=
    fun last hlast hc => Nat.lt_of_le_of_lt (UInt32.le_iff_toNat_le.mp hc) hlast
  rw [isNameChar, Bool.or_eq_true, Bool.or_eq_true, Char.isAlphanum, Bool.or_eq_true] at h
  rcases h with ((hletter | hdigit) | hhyphen) | hunderscore
  · rcases Bool.or_eq_true_iff.mp hletter with hupper | hlower
    · have hrange : 'A'.val ≤ c.val ∧ c.val ≤ 'Z'.val := of_decide_eq_true hupper
      exact hbelow 'Z' (by decide) hrange.2
    · exact hbelow 'z' (by decide) (of_decide_eq_true (Bool.and_eq_true_iff.mp hlower).2)
  · exact hbelow '9' (by decide) (of_decide_eq_true (Bool.and_eq_true_iff.mp hdigit).2)
  · rw [of_decide_eq_true hhyphen]
    decide
  · rw [of_decide_eq_true hunderscore]
    decide

/-- What the characters of a word are not. -/
theorem of_isNameChar {c : Char} (h : isNameChar c = true) :
    isGap c = false ∧ isBreak c = false ∧ c ≠ ':' ∧ c ≠ '#' ∧ isAllowed c = true ∧ c ≠ '\r' := by
  revert h
  refine Text.forall_char (P := fun c => isNameChar c = true → isGap c = false ∧ isBreak c = false
    ∧ c ≠ ':' ∧ c ≠ '#' ∧ isAllowed c = true ∧ c ≠ '\r') (by decide +kernel) (fun c hc h => ?_) c
  have := toNat_lt_of_isNameChar h
  omega

theorem isNameChar_of_isAlphanum {c : Char} (h : c.isAlphanum = true) : isNameChar c = true := by
  simp [isNameChar, h]

/-- What the first character of a word is not. -/
theorem of_isAlphanum {c : Char} (h : c.isAlphanum = true) :
    c ∉ Plain.indicators ∧ c ≠ '.' ∧ c ≠ ' ' ∧ c ≠ byteOrderMark := by
  revert h
  refine Text.forall_char (P := fun c => c.isAlphanum = true → c ∉ Plain.indicators ∧ c ≠ '.'
    ∧ c ≠ ' ' ∧ c ≠ byteOrderMark) (by decide +kernel) (fun c hc h => ?_) c
  have := toNat_lt_of_isNameChar (isNameChar_of_isAlphanum h)
  omega

/-! ## Scalars -/

/-- A word: letters, digits, hyphens and underscores behind a letter or digit. -/
def IsWord (text : List Char) : Prop :=
  (∃ x ∈ text.head?, x.isAlphanum = true) ∧ ∀ c ∈ text, isNameChar c = true

instance : DecidablePred IsWord := fun text =>
  decidable_of_iff (text.head?.any Char.isAlphanum = true ∧ text.all isNameChar = true) <| by
    rw [IsWord, Option.any_eq_true, List.all_eq_true]
    rfl

theorem IsWord.exists_cons {text : List Char} (h : IsWord text) :
    ∃ x rest, text = x :: rest ∧ x.isAlphanum = true := by
  obtain ⟨⟨x, hx, halnum⟩, -⟩ := h
  obtain ⟨rest, rfl⟩ := List.head?_eq_some_iff.mp hx
  exact ⟨x, rest, rfl, halnum⟩

/-- Whether a character stands for itself between single quotes on one line. -/
def IsInner (c : Char) : Prop :=
  c ≠ single ∧ isGap c = false ∧ isBreak c = false ∧ isAllowed c = true ∧ c ≠ '\r'

theorem isInner_of_isNameChar {c : Char} (h : isNameChar c = true) : IsInner c := by
  obtain ⟨hgap, hbreak, -, -, hallowed, hreturn⟩ := of_isNameChar h
  refine ⟨?_, hgap, hbreak, hallowed, hreturn⟩
  rintro rfl
  exact absurd h (by decide)

/-- A scalar on one line. -/
inductive Inline where
  | word (text : List Char) (h : IsWord text)
  | quoted (text : List Char) (h : ∀ c ∈ text, IsInner c)

namespace Inline

/-- How a scalar is written. -/
def written : Inline → List Char
  | word text _ => text
  | quoted text _ => single :: text ++ [single]

/-- The token that a scalar is. -/
def token : Inline → Token
  | word text _ => .scalar (String.ofList text) true
  | quoted text _ => .scalar (String.ofList text) false

end Inline

/-- What follows the last scalar of a line, and what of it is left for the next line. -/
inductive Ending : List Char → List Char → Prop
  | last : Ending [] []
  | line {rest : List Char} (h : ∀ x ∈ rest.head?, x.isAlphanum = true) : Ending ('\n' :: rest) rest

theorem Ending.head {ending rest : List Char} (h : Ending ending rest) :
    ∀ x ∈ rest.head?, x.isAlphanum = true := by
  cases h with
  | last => nofun
  | line h => exact h

theorem Ending.mem {ending rest : List Char} (h : Ending ending rest) {c : Char}
    (hc : c ∈ ending) : c = '\n' ∨ c ∈ rest := by
  cases h with
  | last => cases hc
  | line h => exact List.mem_cons.mp hc

theorem Ending.length_le {ending rest : List Char} (h : Ending ending rest) :
    rest.length ≤ ending.length := by
  cases h with
  | last => exact Nat.le_refl _
  | line h => exact Nat.le_succ _

theorem Ending.ne_single {ending rest : List Char} (h : Ending ending rest) :
    ending.head? ≠ some single := by
  cases h with
  | last => nofun
  | line h =>
    intro hhead
    cases hhead

/-! ## Places -/

namespace Cursor

variable {c : Cursor} {run rest : List Char}

theorem peek_of_rest {x : Char} (h : c.rest = x :: rest) : c.peek = some x := by
  rw [peek, h, List.head?_cons]

theorem rest_next_of_rest {x : Char} (h : c.rest = x :: rest) : c.next.rest = rest := by
  rw [rest_next, h, List.tail_cons]

theorem rest_skip_of_append (h : c.rest = run ++ rest) : (c.skip run.length).rest = rest := by
  rw [rest_skip, h, List.drop_left]

theorem takeWhile_of_head {p : Char → Bool} (h : ∀ x ∈ c.rest.head?, p x = false) :
    c.takeWhile p = ([], c) := by
  have htake : c.rest.takeWhile p = [] := by
    cases hrest : c.rest with
    | nil => rfl
    | cons x rest => rw [List.takeWhile_cons, h x (by rw [hrest]; rfl), if_neg Bool.false_ne_true]
  simp only [takeWhile, htake]
  rfl

theorem dropWhile_of_head {p : Char → Bool} (h : ∀ x ∈ c.rest.head?, p x = false) :
    c.dropWhile p = c := congrArg Prod.snd (takeWhile_of_head h)

theorem takeWhile_of_rest {p : Char → Bool} {x : Char} (h : c.rest = x :: rest)
    (hx : p x = false) : c.takeWhile p = ([], c) := by
  refine takeWhile_of_head fun y hy => ?_
  rw [h] at hy
  cases hy
  exact hx

theorem takeBreak_of_head (h : ∀ x ∈ c.rest.head?, isBreak x = false) : c.takeBreak = ([], c) := by
  unfold takeBreak peek
  cases hrest : c.rest with
  | nil => rfl
  | cons x rest =>
    have hx : isBreak x = false := h x (by rw [hrest]; rfl)
    simp [hx]

theorem takeBreak_of_lineFeed (h : c.rest = '\n' :: rest) : c.takeBreak = (['\n'], c.next) := by
  unfold takeBreak
  rw [peek_of_rest h]
  have hbreak : isBreak '\n' = true := by decide
  have hfeed : '\n' ≠ nextLine := by decide
  simp [hbreak, hfeed]

theorem column_next_of_lineFeed (h : c.rest = '\n' :: rest) : c.next.column = 0 := by
  unfold next
  rw [h]
  rfl

/-- A document is marked by characters that begin no other line. -/
theorem isAtMark_of_head {x : Char} {mark : List Char} (h : ∀ y ∈ c.rest.head?, y ≠ x) :
    c.isAtMark (x :: mark) = false := by
  have htake : c.rest.take 3 ≠ x :: mark := by
    intro htake
    cases hrest : c.rest with
    | nil => rw [hrest] at htake; cases htake
    | cons y rest =>
      rw [hrest] at htake
      cases htake
      exact h x (by rw [hrest]; rfl) rfl
  simp [isAtMark, htake]

theorem isAtMark_of_rest {x y : Char} {mark : List Char} (h : c.rest = y :: rest) (hne : y ≠ x) :
    c.isAtMark (x :: mark) = false := by
  refine isAtMark_of_head fun z hz => ?_
  rw [h] at hz
  cases hz
  exact hne

/-- The line goes on behind characters that do not end it. -/
theorem line_skip (h : c.rest = run ++ rest) (hrun : ∀ x ∈ run, isBreak x = false) :
    (c.skip run.length).line = c.line ∧ (c.skip run.length).index = c.index + run.length := by
  induction run generalizing c with
  | nil => exact ⟨rfl, rfl⟩
  | cons x run ih =>
    have hx : isBreak x = false := hrun x List.mem_cons_self
    have hnext : c.next.line = c.line ∧ c.next.index = c.index + 1 := by
      unfold next
      rw [h]
      simp only [List.cons_append, hx, Bool.false_eq_true, if_false]
      split <;> exact ⟨rfl, rfl⟩
    obtain ⟨hline, hindex⟩ :=
      ih (rest_next_of_rest h) fun y hy => hrun y (List.mem_cons_of_mem x hy)
    rw [List.length_cons, skip, hline, hindex]
    exact ⟨hnext.1, by omega⟩

end Cursor

/-! ## Words -/

namespace Plain

variable {c : Cursor} {text rest ending : List Char}

theorem word_append (h : ∀ x ∈ text, isNameChar x = true) (hrest : word false rest = []) :
    word false (text ++ rest) = text := by
  induction text with
  | nil => exact hrest
  | cons x text ih =>
    obtain ⟨hgap, hbreak, hcolon, -⟩ := of_isNameChar (h x List.mem_cons_self)
    rw [List.cons_append, word, ih fun y hy => h y (List.mem_cons_of_mem x hy)]
    simp [hgap, hbreak, hcolon]

/-- A word is the whole scalar if the scalar does not go on behind the blanks that follow. -/
theorem readWords_single {indent fuel : Nat} {gap : List Char} {behind : Cursor} {lineEnded : Bool}
    (hword : IsWord text) (hrest : c.rest = text ++ rest) (hstop : word false rest = [])
    (hspaces : readSpaces fuel (c.skip text.length) = (gap, behind, lineEnded))
    (hover : gap.isEmpty = true ∨ behind.column < indent) :
    readWords false indent (fuel + 1) [] false c = ⟨text, behind, lineEnded⟩ := by
  have hrun : word false c.rest = text := by
    rw [hrest]
    exact word_append hword.2 hstop
  obtain ⟨x, tail, rfl, hx⟩ := hword.exists_cons
  have hnumber : c.peek ≠ some '#' := by
    rw [Cursor.peek_of_rest hrest]
    intro hpeek
    cases hpeek
    exact absurd hx (by decide)
  simp only [readWords, if_neg hnumber, hrun, hspaces, List.isEmpty_cons, Bool.false_eq_true,
    if_false, List.nil_append]
  rw [if_pos]
  rcases hover with hgap | hcolumn
  · simp [hgap]
  · simp [hcolumn]

/-- A key ends at its colon. -/
theorem read_key {indent : Nat} (hword : IsWord text)
    (hrest : c.rest = text ++ ':' :: ' ' :: rest) :
    read false indent c = ⟨text, c.skip text.length, false⟩ := by
  have hbehind : (c.skip text.length).rest = ':' :: ' ' :: rest :=
    Cursor.rest_skip_of_append hrest
  have hblank : (c.skip text.length).takeWhile (· = ' ') = ([], c.skip text.length) :=
    Cursor.takeWhile_of_rest hbehind (by decide)
  have hbreak : (c.skip text.length).takeBreak = ([], c.skip text.length) := by
    refine Cursor.takeBreak_of_head ?_
    rw [hbehind]
    rintro x ⟨⟩
    decide
  have hspaces : readSpaces c.rest.length (c.skip text.length)
      = ([], c.skip text.length, false) := by
    simp only [readSpaces, hblank, hbreak]
  exact readWords_single hword hrest rfl hspaces (.inl rfl)

/-- Behind a line end nothing is skipped at the margin. -/
theorem readSpaces_of_line {fuel : Nat} (hrest : c.rest = '\n' :: rest)
    (h : ∀ x ∈ rest.head?, x.isAlphanum = true) :
    readSpaces (fuel + 1) c = ([' '], c.next, true) := by
  have hnext := Cursor.rest_next_of_rest hrest
  have hblank : c.takeWhile (· = ' ') = ([], c) := Cursor.takeWhile_of_rest hrest (by decide)
  have hmark : c.next.isAtDocumentMark = false := by
    have hhyphen : c.next.isAtMark ['-', '-', '-'] = false := by
      refine Cursor.isAtMark_of_head fun x hx => ?_
      rintro rfl
      exact absurd (h '-' (hnext ▸ hx)) (by decide)
    have hpoint : c.next.isAtMark ['.', '.', '.'] = false := by
      refine Cursor.isAtMark_of_head fun x hx => ?_
      rintro rfl
      exact absurd (h '.' (hnext ▸ hx)) (by decide)
    rw [Cursor.isAtDocumentMark, hhyphen, hpoint]
    rfl
  have hmargin : c.next.dropWhile (· = ' ') = c.next := by
    refine Cursor.dropWhile_of_head fun x hx => ?_
    exact decide_eq_false (of_isAlphanum (h x (hnext ▸ hx))).2.2.1
  have hnone : c.next.takeBreak = ([], c.next) :=
    Cursor.takeBreak_of_head fun x hx =>
      (of_isNameChar (isNameChar_of_isAlphanum (h x (hnext ▸ hx)))).2.1
  simp only [readSpaces, hblank, Cursor.takeBreak_of_lineFeed hrest, hmark, readBreaks, hmargin,
    hnone]
  rfl

/-- A word ends at the end of its line if the next line begins at the margin. -/
theorem read_word (hword : IsWord text) (hending : Ending ending rest)
    (hrest : c.rest = text ++ ending) :
    ∃ c' mayBeKey, read false 1 c = ⟨text, c', mayBeKey⟩ ∧ c'.rest = rest
      ∧ (rest ≠ [] → c'.column = 0 ∧ mayBeKey = true) := by
  have hbehind : (c.skip text.length).rest = ending := Cursor.rest_skip_of_append hrest
  cases hending with
  | last =>
    have hspaces : readSpaces c.rest.length (c.skip text.length)
        = ([], c.skip text.length, false) := by
      have hblank : (c.skip text.length).takeWhile (· = ' ') = ([], c.skip text.length) :=
        Cursor.takeWhile_of_head (by rw [hbehind]; nofun)
      have hbreak : (c.skip text.length).takeBreak = ([], c.skip text.length) :=
        Cursor.takeBreak_of_head (by rw [hbehind]; nofun)
      simp only [readSpaces, hblank, hbreak]
    exact ⟨_, _, readWords_single hword hrest rfl hspaces (.inl rfl), hbehind,
      fun h => absurd rfl h⟩
  | line h =>
    obtain ⟨fuel, hfuel⟩ : ∃ fuel, c.rest.length = fuel + 1 :=
      ⟨text.length + rest.length, by rw [hrest, List.length_append, List.length_cons]; omega⟩
    -- The line end is folded into a blank, but what comes behind it is not indented enough.
    have hspaces : readSpaces c.rest.length (c.skip text.length)
        = ([' '], (c.skip text.length).next, true) := by
      rw [hfuel]
      exact readSpaces_of_line hbehind h
    have hcolumn := Cursor.column_next_of_lineFeed hbehind
    exact ⟨_, _, readWords_single hword hrest rfl hspaces (.inr (by rw [hcolumn]; decide)),
      Cursor.rest_next_of_rest hbehind, fun _ => ⟨hcolumn, rfl⟩⟩

end Plain

/-! ## Texts between quotes -/

namespace Quoted

variable {c : Cursor} {text rest : List Char}

theorem readText_inner {fuel : Nat} (h : ∀ x ∈ text, IsInner x)
    (hrest : c.rest = text ++ single :: rest) (hend : rest.head? ≠ some single)
    (hfuel : text.length < fuel) :
    ∃ c', readText single fuel c = .ok (text, c') ∧ c'.rest = rest := by
  induction text generalizing c fuel with
  | nil =>
    obtain ⟨fuel, rfl⟩ := Nat.exists_eq_add_of_lt hfuel
    have hbehind : c.peekAt 1 = rest.head? := by
      rw [Cursor.peekAt, hrest, List.head?_eq_getElem?]
      rfl
    refine ⟨c.next, ?_, Cursor.rest_next_of_rest hrest⟩
    simp [readText, Cursor.peek_of_rest hrest, hbehind, hend]
  | cons x text ih =>
    obtain ⟨hquote, hgap, hbreak, -, -⟩ := h x List.mem_cons_self
    obtain ⟨fuel, rfl⟩ : ∃ n, fuel = n + 1 := ⟨fuel - 1, by omega⟩
    obtain ⟨c', hread, hc'⟩ := ih (fun y hy => h y (List.mem_cons_of_mem x hy))
      (Cursor.rest_next_of_rest hrest) (Nat.lt_of_succ_lt_succ hfuel)
    have hdouble : single ≠ Text.Quoted.double := by decide
    refine ⟨c', ?_, hc'⟩
    simp [readText, Cursor.peek_of_rest hrest, hquote, hgap, hbreak, hdouble, hread, Except.map]

/-- A text between quotes is read up to the second quote. -/
theorem read_inner (h : ∀ x ∈ text, IsInner x) (hrest : c.rest = single :: text ++ single :: rest)
    (hend : rest.head? ≠ some single) : ∃ c', read c = .ok (text, c') ∧ c'.rest = rest := by
  have hnext : c.next.rest = text ++ single :: rest := Cursor.rest_next_of_rest hrest
  simp only [read, Cursor.peek_of_rest hrest]
  refine readText_inner h hnext hend ?_
  rw [hrest, List.length_append, List.length_cons]
  omega

end Quoted

end BeaconHarness.Yaml
