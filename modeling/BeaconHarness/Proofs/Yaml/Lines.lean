import BeaconHarness.Proofs.Yaml.Scalars

/-!
# Documents of one entry per line

The simplest documents have an entry on each line: a word as its key, a colon and a blank, and a
scalar. All lines begin at the margin, so that the whole document is one block mapping, which the
first key opens and the end of the text closes.

Each line is divided in three steps. The key is remembered as a candidate, the colon makes it a key
and opens the block if it is the first one, and behind the value the next line begins at the margin
again.

Main statement: such a document is divided into the tokens of its lines between the beginning and
the end of a block (`Token.divide_textOf`).
-/

namespace BeaconHarness.Yaml

open Text.Quoted (single)

/-- An entry on a line of its own. -/
structure Line where
  key : List Char
  value : Inline
  isWord : IsWord key
  isShort : key.length ≤ Token.longestKey

namespace Line

def written (l : Line) : List Char := l.key ++ ':' :: ' ' :: l.value.written

def tokens (l : Line) : List Token :=
  [.key, .scalar (String.ofList l.key) true, .value, l.value.token]

end Line

/-- The text of lines. The last one may lack its line end. -/
def textOf (ended : Bool) : List Line → List Char
  | [] => []
  | l :: rest =>
    l.written ++ if rest.isEmpty && !ended then [] else '\n' :: textOf ended rest

theorem head?_textOf (ended : Bool) (lines : List Line) :
    ∀ x ∈ (textOf ended lines).head?, x.isAlphanum = true := by
  cases lines with
  | nil => exact fun x hx => by cases hx
  | cons l rest =>
    obtain ⟨x, tail, hkey, hx⟩ := l.isWord.exists_cons
    intro y hy
    rw [textOf, Line.written, hkey] at hy
    cases hy
    exact hx

theorem exists_ending (ended : Bool) (l : Line) (lines : List Line) :
    ∃ ending, textOf ended (l :: lines) = l.written ++ ending
      ∧ Ending ending (textOf ended lines) := by
  by_cases hlast : (lines.isEmpty && !ended) = true
  · have hnil : lines = [] := by
      cases lines with
      | nil => rfl
      | cons m rest => cases hlast
    subst hnil
    exact ⟨[], by rw [textOf, if_pos hlast], .last⟩
  · exact ⟨'\n' :: textOf ended lines, by rw [textOf, if_neg hlast],
      .line (head?_textOf ended lines)⟩

namespace Token

namespace State

variable {isOpen mayBeKey : Bool} {c : Cursor} {ts : List Token}
  {candidates : List (Int × Candidate)} {s : State} {key rest ending : List Char}

/-! ## Places between tokens -/

/-- Whether the next token begins at a place. -/
def AtToken (c : Cursor) : Prop :=
  ∀ x ∈ c.rest.head?, x ≠ ' ' ∧ x ≠ '#' ∧ isBreak x = false ∧ x ≠ byteOrderMark

theorem AtToken.of_rest {x : Char} (hrest : c.rest = x :: rest)
    (hx : x ≠ ' ' ∧ x ≠ '#' ∧ isBreak x = false ∧ x ≠ byteOrderMark) : AtToken c := by
  intro y hy
  rw [hrest] at hy
  cases hy
  exact hx

theorem AtToken.takeWhile_blank (h : AtToken c) : c.takeWhile (· = ' ') = ([], c) :=
  Cursor.takeWhile_of_head fun x hx => decide_eq_false (h x hx).1

theorem AtToken.skipComment (h : AtToken c) : c.skipComment = c :=
  if_neg fun hpeek => (h '#' hpeek).2.1 rfl

theorem AtToken.takeBreak (h : AtToken c) : c.takeBreak = ([], c) :=
  Cursor.takeBreak_of_head fun x hx => (h x hx).2.2.1

theorem AtToken.of_isAlphanum (h : ∀ x ∈ c.rest.head?, x.isAlphanum = true) : AtToken c := by
  intro x hx
  obtain ⟨-, -, hblank, hmark⟩ := Yaml.of_isAlphanum (h x hx)
  obtain ⟨-, hbreak, -, hnumber, -⟩ := of_isNameChar (isNameChar_of_isAlphanum (h x hx))
  exact ⟨hblank, hnumber, hbreak, hmark⟩

theorem findToken_of_atToken {fuel : Nat} (h : AtToken c) :
    findToken (fuel + 1) c = (false, c) := by
  simp only [findToken, Cursor.dropWhile, h.takeWhile_blank, h.skipComment, h.takeBreak]

/-! ## The block of the lines -/

/-- The state in the block of the lines, or in front of it. -/
def block (isOpen : Bool) (c : Cursor) (ts : List Token) (mayBeKey : Bool)
    (candidates : List (Int × Candidate)) : State where
  cursor := c
  tokens := ts
  indent := if isOpen then 0 else -1
  indents := if isOpen then [-1] else []
  mayBeKey := mayBeKey
  candidates := candidates

@[simp] theorem cursor_block : (block isOpen c ts mayBeKey candidates).cursor = c := rfl

@[simp] theorem candidates_block :
    (block isOpen c ts mayBeKey candidates).candidates = candidates := rfl

@[simp] theorem depth_block : (block isOpen c ts mayBeKey candidates).depth = 0 := rfl

@[simp] theorem inFlow_block : (block isOpen c ts mayBeKey candidates).inFlow = false := rfl

/-- No block is indented by more than a place on a line. -/
theorem unindent_block (column : Nat) :
    (block isOpen c ts mayBeKey candidates).unindent column
      = block isOpen c ts mayBeKey candidates := by
  cases isOpen with
  | false =>
    have : (-1 : Int) ≤ column := by omega
    simp [unindent, closeBlocks, block, this]
  | true => simp [unindent, closeBlocks, block]

theorem dropStale_block_nil :
    (block isOpen c ts mayBeKey []).dropStale = .ok (block isOpen c ts mayBeKey []) := rfl

theorem dropStale_block_singleton {depth : Int} {candidate : Candidate}
    (h : isStale c candidate = false) :
    (block isOpen c ts mayBeKey [(depth, candidate)]).dropStale
      = .ok (block isOpen c ts mayBeKey [(depth, candidate)]) := by
  simp [dropStale, block, h]

theorem toToken_eq {c' : Cursor} {lineEnded : Bool} (hflow : s.inFlow = false)
    (hmark : s.cursor.peek ≠ some byteOrderMark)
    (hfind : findToken (s.cursor.rest.length + 1) s.cursor = (lineEnded, c')) :
    s.toToken = { s with cursor := c', mayBeKey := s.mayBeKey || lineEnded } := by
  have hplace : (s.cursor.index = 0 && s.cursor.peek = some byteOrderMark) = false := by
    rw [decide_eq_false hmark, Bool.and_false]
  simp only [toToken, hplace, Bool.false_eq_true, if_false, hfind, hflow, Bool.not_false,
    Bool.and_true]

theorem toToken_block {c' : Cursor} {lineEnded : Bool} (hmark : c.peek ≠ some byteOrderMark)
    (hfind : findToken (c.rest.length + 1) c = (lineEnded, c')) :
    (block isOpen c ts mayBeKey candidates).toToken
      = block isOpen c' ts (mayBeKey || lineEnded) candidates := toToken_eq rfl hmark hfind

theorem toToken_of_atToken (h : AtToken c) :
    (block isOpen c ts mayBeKey candidates).toToken = block isOpen c ts mayBeKey candidates := by
  have hmark : c.peek ≠ some byteOrderMark := fun hpeek => (h byteOrderMark hpeek).2.2.2 rfl
  rw [toToken_block hmark (findToken_of_atToken h), Bool.or_false]

/-- A blank before a token is skipped. -/
theorem toToken_of_blank (hrest : c.rest = ' ' :: rest) (h : AtToken c.next) :
    (block isOpen c ts mayBeKey candidates).toToken
      = block isOpen c.next ts mayBeKey candidates := by
  have hnext := Cursor.rest_next_of_rest hrest
  have hmark : c.peek ≠ some byteOrderMark := by
    rw [Cursor.peek_of_rest hrest]
    decide
  have hblank : c.dropWhile (· = ' ') = c.next := by
    have hnone : rest.takeWhile (· = ' ') = [] := by
      rw [← hnext]
      exact congrArg Prod.fst h.takeWhile_blank
    have hone : c.rest.takeWhile (· = ' ') = [' '] := by
      rw [hrest, List.takeWhile_cons, hnone]
      rfl
    simp only [Cursor.dropWhile, Cursor.takeWhile, hone]
    rfl
  have hfind : findToken (c.rest.length + 1) c = (false, c.next) := by
    simp only [findToken, hblank, h.skipComment, h.takeBreak]
  rw [toToken_block hmark hfind, Bool.or_false]

/-- Behind a line end a key may begin. -/
theorem toToken_of_lineFeed (hrest : c.rest = '\n' :: rest) (h : AtToken c.next) :
    (block isOpen c ts mayBeKey candidates).toToken = block isOpen c.next ts true candidates := by
  have hmark : c.peek ≠ some byteOrderMark := by
    rw [Cursor.peek_of_rest hrest]
    decide
  have hblank : c.dropWhile (· = ' ') = c := by
    refine Cursor.dropWhile_of_head ?_
    rw [hrest]
    rintro x ⟨⟩
    decide
  have hcomment : c.skipComment = c := by
    refine if_neg ?_
    rw [Cursor.peek_of_rest hrest]
    decide
  have hfind : findToken (c.rest.length + 1) c = (true, c.next) := by
    have hrun : findToken (c.rest.length + 1) c = (true, (findToken c.rest.length c.next).2) := by
      simp only [findToken, hblank, hcomment, Cursor.takeBreak_of_lineFeed hrest]
    rw [hrun, hrest, List.length_cons, findToken_of_atToken h]
  rw [toToken_block hmark hfind, Bool.or_true]

/-! ## The key -/

/-- At a letter or digit a plain scalar begins. -/
theorem takeAt_of_isAlphanum {x : Char} (hrest : s.cursor.rest = x :: rest)
    (hx : x.isAlphanum = true) : s.takeAt x = s.takePlain := by
  obtain ⟨hindicator, hpoint, hblank, -⟩ := of_isAlphanum hx
  obtain ⟨hgap, hbreak, -⟩ := of_isNameChar (isNameChar_of_isAlphanum hx)
  have hhyphen : x ≠ '-' := by
    rintro rfl
    exact hindicator (by decide)
  have hhyphens : s.cursor.isAtMark ['-', '-', '-'] = false :=
    Cursor.isAtMark_of_rest hrest hhyphen
  have hpoints : s.cursor.isAtMark ['.', '.', '.'] = false :=
    Cursor.isAtMark_of_rest hrest hpoint
  have hbegins : Plain.beginsAt s.inFlow s.cursor = true := by
    rw [Plain.beginsAt, Cursor.peek_of_rest hrest]
    simp [hgap, hbreak, hindicator]
  simp only [Plain.indicators, List.mem_cons, List.not_mem_nil, or_false, not_or] at hindicator
  simp [takeAt, hhyphens, hpoints, hbegins, hindicator]

/-- What is taken is the token that begins at the next place. -/
theorem take_of_takeAt {s' : State} {x : Char}
    (hs : s.toToken = block isOpen c ts mayBeKey candidates)
    (hfresh : (block isOpen c ts mayBeKey candidates).dropStale
      = .ok (block isOpen c ts mayBeKey candidates))
    (hrest : c.rest = x :: rest)
    (hat : (block isOpen c ts mayBeKey candidates).takeAt x = .ok s') : s.take = s'.dropStale := by
  simp only [take, hs, hfresh, bind, Except.bind, cursor_block, unindent_block,
    Cursor.peek_of_rest hrest, hat]

/-- A key that is not too long can still become one behind its last character. -/
theorem isStale_of_key {number : Nat} {required : Bool} (hword : IsWord key)
    (hshort : key.length ≤ longestKey) (hrest : c.rest = key ++ rest) :
    isStale (c.skip key.length) ⟨number, required, c⟩ = false := by
  obtain ⟨hline, hindex⟩ := Cursor.line_skip hrest fun x hx => (of_isNameChar (hword.2 x hx)).2.1
  have hdistance : ¬ longestKey < (c.skip key.length).index - c.index := by omega
  simp [isStale, hline, hdistance]

/-- A key is remembered as a candidate, which is required where the block is open. -/
theorem take_key (hs : s.toToken = block isOpen c ts true []) (hword : IsWord key)
    (hshort : key.length ≤ longestKey) (hrest : c.rest = key ++ ':' :: ' ' :: rest)
    (hcolumn : c.column = 0) :
    s.take = .ok (block isOpen (c.skip key.length) (ts ++ [.scalar (String.ofList key) true]) false
      [(0, ⟨ts.length, isOpen, c⟩)]) := by
  obtain ⟨x, tail, hkey, hx⟩ := hword.exists_cons
  have hhead : c.rest = x :: (tail ++ ':' :: ' ' :: rest) := by rw [hrest, hkey, List.cons_append]
  have hsave : (block isOpen c ts true []).saveCandidate
      = .ok (block isOpen c ts true [(0, ⟨ts.length, isOpen, c⟩)]) := by
    have hrequired :
        (!false && decide ((block isOpen c ts true []).indent = c.column)) = isOpen := by
      rw [hcolumn]
      cases isOpen <;> rfl
    show Except.ok (block isOpen c ts true
      [(0, ⟨ts.length, !false && decide ((block isOpen c ts true []).indent = c.column), c⟩)]) = _
    rw [hrequired]
  have hplain : (block isOpen c ts true []).takePlain
      = .ok (block isOpen (c.skip key.length) (ts ++ [.scalar (String.ofList key) true]) false
        [(0, ⟨ts.length, isOpen, c⟩)]) := by
    simp only [takePlain, hsave, bind, Except.bind, inFlow_block, cursor_block,
      Plain.read_key hword hrest]
    rfl
  have htakeAt : (block isOpen c ts true []).takeAt x = (block isOpen c ts true []).takePlain :=
    takeAt_of_isAlphanum hhead hx
  rw [take_of_takeAt hs dropStale_block_nil hhead (htakeAt.trans hplain)]
  exact dropStale_block_singleton (isStale_of_key hword hshort hrest)

/-! ## The colon -/

/-- The beginning of the block, if it has not begun. -/
def opening (isOpen : Bool) : List Token := if isOpen then [] else [.blockMappingStart]

theorem takeAt_colon (hrest : s.cursor.rest = ':' :: ' ' :: rest) :
    s.takeAt ':' = s.takeColon := by
  have hhyphens : s.cursor.isAtMark ['-', '-', '-'] = false :=
    Cursor.isAtMark_of_rest hrest (by decide)
  have hpoints : s.cursor.isAtMark ['.', '.', '.'] = false :=
    Cursor.isAtMark_of_rest hrest (by decide)
  have hblank : endsMark (s.cursor.peekAt 1) = true := by
    rw [Cursor.peekAt, hrest]
    rfl
  simp [takeAt, hhyphens, hpoints, hblank]

theorem makeKey_block {candidate : Candidate} {t : Token} (hnumber : candidate.number = ts.length)
    (hcolumn : candidate.place.column = 0) :
    (block isOpen c (ts ++ [t]) mayBeKey [(0, candidate)]).makeKey candidate
      = block true c (ts ++ opening isOpen ++ [.key, t]) mayBeKey [] := by
  cases isOpen with
  | true => simp [makeKey, block, insertAt, indentTo, inFlow, opening, hnumber, hcolumn]
  | false => simp [makeKey, block, insertAt, indentTo, inFlow, opening, hnumber, hcolumn]

/-- The colon makes the candidate in front of it a key, and opens the block if it is not open. -/
theorem take_colon {place : Cursor} {t : Token} {required : Bool}
    (hrest : c.rest = ':' :: ' ' :: rest) (hcolumn : place.column = 0)
    (hfresh : isStale c ⟨ts.length, required, place⟩ = false) :
    (block isOpen c (ts ++ [t]) false [(0, ⟨ts.length, required, place⟩)]).take
      = .ok (block true c.next (ts ++ opening isOpen ++ [.key, t, .value]) false []) := by
  have htoken : AtToken c := .of_rest hrest (by decide)
  have hcolon : (block isOpen c (ts ++ [t]) false [(0, ⟨ts.length, required, place⟩)]).takeAt ':'
      = .ok (block true c.next (ts ++ opening isOpen ++ [.key, t, .value]) false []) := by
    rw [takeAt_colon hrest]
    have hmade : (block isOpen c (ts ++ [t]) false [(0, ⟨ts.length, required, place⟩)]).makeKey
        ⟨ts.length, required, place⟩ = block true c (ts ++ opening isOpen ++ [.key, t]) false [] :=
      makeKey_block rfl hcolumn
    have hlookup : [((0 : Int), (⟨ts.length, required, place⟩ : Candidate))].lookup 0
        = some ⟨ts.length, required, place⟩ := rfl
    simp only [takeColon, candidates_block, depth_block, hlookup, hmade]
    simp [push, block]
  rw [take_of_takeAt (toToken_of_atToken htoken) (dropStale_block_singleton hfresh) hrest hcolon]
  exact dropStale_block_nil

/-! ## The value -/

/-- Whether the next line begins at the margin, or the text ends. -/
def Ready (isOpen : Bool) (ts : List Token) (rest : List Char) (s : State) : Prop :=
  ∃ c mayBeKey, s.toToken = block isOpen c ts mayBeKey [] ∧ c.rest = rest
    ∧ (rest ≠ [] → c.column = 0 ∧ mayBeKey = true)

theorem takeAt_single (hrest : s.cursor.rest = single :: rest) :
    s.takeAt single = s.takeNode fun c =>
      as (fun text => .scalar (String.ofList text) false) (Quoted.read c) := by
  have hhyphens : s.cursor.isAtMark ['-', '-', '-'] = false :=
    Cursor.isAtMark_of_rest hrest (by decide)
  have hpoints : s.cursor.isAtMark ['.', '.', '.'] = false :=
    Cursor.isAtMark_of_rest hrest (by decide)
  simp [takeAt, single, hhyphens, hpoints]

theorem ready_of_ending (hending : Ending ending rest) (hrest : c.rest = ending) :
    Ready true ts rest (block true c ts false []) := by
  cases hending with
  | last =>
    have htoken : AtToken c := by
      unfold AtToken
      rw [hrest]
      nofun
    exact ⟨c, false, toToken_of_atToken htoken, hrest, fun h => absurd rfl h⟩
  | line h =>
    have hnext := Cursor.rest_next_of_rest hrest
    have htoken : AtToken c.next := .of_isAlphanum (hnext ▸ h)
    exact ⟨c.next, true, toToken_of_lineFeed hrest htoken, hnext,
      fun _ => ⟨Cursor.column_next_of_lineFeed hrest, rfl⟩⟩

theorem take_word {text : List Char} (hword : IsWord text)
    (hrest : c.rest = ' ' :: (text ++ ending)) (hending : Ending ending rest) :
    ∃ s', (block true c ts false []).take = .ok s' ∧ s'.isOver = false
      ∧ Ready true (ts ++ [.scalar (String.ofList text) true]) rest s' := by
  have hnext := Cursor.rest_next_of_rest hrest
  obtain ⟨x, tail, htext, hx⟩ := hword.exists_cons
  have hhead : c.next.rest = x :: (tail ++ ending) := by rw [hnext, htext, List.cons_append]
  have hbegin : AtToken c.next := by
    refine .of_isAlphanum ?_
    rw [hhead]
    rintro y ⟨⟩
    exact hx
  obtain ⟨c', mayBeKey, hread, hc', hmargin⟩ := Plain.read_word hword hending hnext
  have hplain : (block true c.next ts false []).takePlain
      = .ok (block true c' (ts ++ [.scalar (String.ofList text) true]) mayBeKey []) := by
    -- In the block a word would go on only in a line that is indented by a place at least.
    have hindent : ((block true c.next ts false []).indent + 1).toNat = 1 := rfl
    have hsave : (block true c.next ts false []).saveCandidate
        = .ok (block true c.next ts false []) := rfl
    simp only [takePlain, hsave, bind, Except.bind, inFlow_block, cursor_block, hindent, hread]
    rfl
  have htakeAt : (block true c.next ts false []).takeAt x
      = (block true c.next ts false []).takePlain := takeAt_of_isAlphanum hhead hx
  have hend : AtToken c' := .of_isAlphanum (hc' ▸ hending.head)
  have htake := take_of_takeAt (toToken_of_blank hrest hbegin) dropStale_block_nil hhead
    (htakeAt.trans hplain)
  exact ⟨_, htake.trans dropStale_block_nil, rfl, c', mayBeKey, toToken_of_atToken hend, hc',
    hmargin⟩

theorem take_quoted {text : List Char} (hinner : ∀ x ∈ text, IsInner x)
    (hrest : c.rest = ' ' :: (single :: text ++ [single] ++ ending))
    (hending : Ending ending rest) :
    ∃ s', (block true c ts false []).take = .ok s' ∧ s'.isOver = false
      ∧ Ready true (ts ++ [.scalar (String.ofList text) false]) rest s' := by
  have hnext : c.next.rest = single :: text ++ single :: ending := by
    rw [Cursor.rest_next_of_rest hrest, List.append_assoc]
    rfl
  have hbegin : AtToken c.next := .of_rest hnext (by decide)
  obtain ⟨c', hread, hc'⟩ := Quoted.read_inner hinner hnext hending.ne_single
  have hquoted : (block true c.next ts false []).takeAt single
      = .ok (block true c' (ts ++ [.scalar (String.ofList text) false]) false []) := by
    have hsave : (block true c.next ts false []).saveCandidate
        = .ok (block true c.next ts false []) := rfl
    rw [takeAt_single hnext]
    simp only [takeNode, hsave, bind, Except.bind, cursor_block, as, hread, Except.map]
    rfl
  have htake := take_of_takeAt (toToken_of_blank hrest hbegin) dropStale_block_nil hnext hquoted
  exact ⟨_, htake.trans dropStale_block_nil, rfl, ready_of_ending hending hc'⟩

/-- Behind its value a line is over. -/
theorem take_value (ts : List Token) (x : Inline) (hrest : c.rest = ' ' :: (x.written ++ ending))
    (hending : Ending ending rest) :
    ∃ s', (block true c ts false []).take = .ok s' ∧ s'.isOver = false
      ∧ Ready true (ts ++ [x.token]) rest s' := by
  cases x with
  | word text h => exact take_word h hrest hending
  | quoted text h => exact take_quoted h hrest hending

/-! ## The end -/

/-- The end of the text closes the block. -/
theorem take_end (h : Ready true ts [] s) :
    ∃ s', s.take = .ok s' ∧ s'.isOver = true ∧ s'.tokens = ts ++ [.blockEnd, .streamEnd] := by
  obtain ⟨c, mayBeKey, hs, hrest, -⟩ := h
  have hpeek : c.peek = none := by rw [Cursor.peek, hrest, List.head?_nil]
  have hend : (block true c ts mayBeKey []).takeEnd
      = .ok { block false c (ts ++ [.blockEnd, .streamEnd]) false [] with isOver := true } := by
    simp [takeEnd, unindent, closeBlocks, block, inFlow, push, dropCandidate, bind, Except.bind,
      pure, Except.pure]
  refine ⟨{ block false c (ts ++ [.blockEnd, .streamEnd]) false [] with isOver := true }, ?_, rfl,
    rfl⟩
  simp only [take, hs, dropStale_block_nil, bind, Except.bind, cursor_block, unindent_block, hpeek,
    hend]
  rfl

end State

/-! ## Lines and documents -/

section Division

open State

variable {isOpen ended : Bool} {ts : List Token} {s s' : State} {rest ending : List Char}

theorem divideFrom_of_take (htake : s.take = .ok s') (hover : s'.isOver = false) (fuel : Nat) :
    divideFrom (fuel + 1) s = divideFrom fuel s' := by
  simp [divideFrom, htake, hover]

/-- A line is divided in three steps. -/
theorem divideFrom_line (l : Line) (h : Ready isOpen ts (l.written ++ ending) s)
    (hending : Ending ending rest) :
    ∃ s', Ready true (ts ++ opening isOpen ++ l.tokens) rest s'
      ∧ ∀ fuel, divideFrom (fuel + 3) s = divideFrom fuel s' := by
  obtain ⟨c, mayBeKey, hs, hrest, hmargin⟩ := h
  have hwritten : c.rest = l.key ++ ':' :: ' ' :: (l.value.written ++ ending) := by
    rw [hrest, Line.written, List.append_assoc]
    rfl
  have hne : l.written ++ ending ≠ [] := by
    rw [← hrest, hwritten]
    exact List.append_ne_nil_of_right_ne_nil _ (List.cons_ne_nil _ _)
  -- A line is not empty, so that its key begins at the margin and may be one.
  obtain ⟨hcolumn, rfl⟩ := hmargin hne
  have hcolon : (c.skip l.key.length).rest = ':' :: ' ' :: (l.value.written ++ ending) :=
    Cursor.rest_skip_of_append hwritten
  have hblank := Cursor.rest_next_of_rest hcolon
  obtain ⟨s', hvalue, hover, hready⟩ := take_value
    (ts ++ opening isOpen ++ [.key, .scalar (String.ofList l.key) true, .value]) l.value hblank
    hending
  refine ⟨s', ?_, fun fuel => ?_⟩
  · rwa [List.append_assoc] at hready
  · rw [divideFrom_of_take (take_key hs l.isWord l.isShort hwritten hcolumn) rfl,
      divideFrom_of_take
        (take_colon hcolon hcolumn (isStale_of_key l.isWord l.isShort hwritten)) rfl,
      divideFrom_of_take hvalue hover]

/-- The lines behind the first one are divided one after the other. -/
theorem divideFrom_textOf (lines : List Line) (h : Ready true ts (textOf ended lines) s)
    (fuel : Nat) :
    divideFrom (fuel + 3 * lines.length + 1) s
      = ⟨ts ++ lines.flatMap Line.tokens ++ [.blockEnd, .streamEnd], Quoted.unexpected⟩ := by
  induction lines generalizing ts s with
  | nil =>
    obtain ⟨s', htake, hover, htokens⟩ := take_end h
    simp [divideFrom, htake, hover, htokens]
  | cons l lines ih =>
    obtain ⟨ending, htext, hending⟩ := exists_ending ended l lines
    rw [htext] at h
    obtain ⟨s', hready, hline⟩ := divideFrom_line l h hending
    -- Three steps are for this line, the last one is for the end of the text.
    have hfuel : fuel + 3 * (l :: lines).length + 1 = (fuel + 3 * lines.length + 1) + 3 := by
      rw [List.length_cons]
      omega
    rw [hfuel, hline, ih hready, opening, if_pos rfl, List.flatMap_cons]
    simp only [List.append_nil, List.append_assoc]

theorem length_textOf (ended : Bool) (lines : List Line) :
    3 * lines.length ≤ (textOf ended lines).length := by
  induction lines with
  | nil => exact Nat.zero_le _
  | cons l lines ih =>
    obtain ⟨x, tail, hkey, -⟩ := l.isWord.exists_cons
    obtain ⟨ending, htext, hending⟩ := exists_ending ended l lines
    have hlength := hending.length_le
    rw [htext, Line.written, hkey]
    simp only [List.length_append, List.length_cons]
    omega

/-- A document of lines is one block with the tokens of its lines. -/
theorem divide_textOf (ended : Bool) {lines : List Line} (hne : lines ≠ []) :
    divide (textOf ended lines)
      = ⟨.blockMappingStart :: lines.flatMap Line.tokens ++ [.blockEnd, .streamEnd],
        Quoted.unexpected⟩ := by
  obtain ⟨l, lines, rfl⟩ := List.exists_cons_of_ne_nil hne
  obtain ⟨ending, htext, hending⟩ := exists_ending ended l lines
  have hbegin : AtToken ⟨textOf ended (l :: lines), 0, 0, 0⟩ :=
    .of_isAlphanum (head?_textOf ended (l :: lines))
  have hready : Ready false [] (l.written ++ ending)
      (block false ⟨textOf ended (l :: lines), 0, 0, 0⟩ [] true []) :=
    ⟨_, true, toToken_of_atToken hbegin, htext, fun _ => ⟨rfl, rfl⟩⟩
  obtain ⟨s', hready, hline⟩ := divideFrom_line l hready hending
  obtain ⟨fuel, hfuel⟩ : ∃ fuel, (textOf ended (l :: lines)).length + 1
      = (fuel + 3 * lines.length + 1) + 3 := by
    have hlength := length_textOf ended (l :: lines)
    rw [List.length_cons] at hlength
    exact ⟨(textOf ended (l :: lines)).length - 3 * lines.length - 3, by omega⟩
  have hstart : divide (textOf ended (l :: lines))
      = divideFrom ((textOf ended (l :: lines)).length + 1)
        (block false ⟨textOf ended (l :: lines), 0, 0, 0⟩ [] true []) := rfl
  rw [hstart, hfuel, hline, divideFrom_textOf lines hready]
  rfl

end Division

end Token

end BeaconHarness.Yaml
