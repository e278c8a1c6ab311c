import BeaconHarness.Failure

/-!
# Places in a document

A document is read from front to back. A cursor is a place in it: the text that is still to come,
and how many characters, lines and characters of the line lie before it. Lines end at a line feed, a
next-line character, or one of the two separators that Unicode has for lines and paragraphs.

Main statement: what is taken from a cursor and what remains make up its text
(`takeWhile_append_rest`).
-/

namespace BeaconHarness.Yaml

/-! ## Characters -/

/-- The next-line character. -/
def nextLine : Char := Char.ofNat 0x85

/-- The separator of lines. -/
def lineSeparator : Char := Char.ofNat 0x2028

/-- The separator of paragraphs. -/
def paragraphSeparator : Char := Char.ofNat 0x2029

/-- The mark that may stand at the very beginning of a text and takes no place on its line. -/
def byteOrderMark : Char := Char.ofNat 0xfeff

/-- Whether a line ends at a character. -/
def isBreak (c : Char) : Bool :=
  c = '\n' || c = nextLine || c = lineSeparator || c = paragraphSeparator

/-- Whether a character is a space or a tab. -/
def isGap (c : Char) : Bool := c = ' ' || c = '\t'

/-- Whether a line or the text ends at what comes next. -/
def endsLine : Option Char → Bool
  | none => true
  | some c => isBreak c

/-- Whether a space comes next, or a line or the text ends. -/
def endsWord : Option Char → Bool
  | none => true
  | some c => c = ' ' || isBreak c

/-- Whether a space or a tab comes next, or a line or the text ends. -/
def endsMark : Option Char → Bool
  | none => true
  | some c => isGap c || isBreak c

/-- Whether a character may stand in the name of an anchor or a directive. -/
def isNameChar (c : Char) : Bool := c.isAlphanum || c = '-' || c = '_'

/-! ## Cursors -/

/-- A place in a document. -/
structure Cursor where
  rest : List Char
  index : Nat := 0
  line : Nat := 0
  column : Nat := 0
  deriving Inhabited

namespace Cursor

/-- The next character. -/
def peek (c : Cursor) : Option Char := c.rest.head?

/-- The character behind `n` others. -/
def peekAt (c : Cursor) (n : Nat) : Option Char := c.rest[n]?

/-- The place behind the next character. -/
def next (c : Cursor) : Cursor :=
  match c.rest with
  | [] => c
  | x :: rest =>
    if isBreak x then ⟨rest, c.index + 1, c.line + 1, 0⟩
    else if x = byteOrderMark then ⟨rest, c.index + 1, c.line, c.column⟩
    else ⟨rest, c.index + 1, c.line, c.column + 1⟩

/-- The place behind the next `n` characters. -/
def skip : (n : Nat) → Cursor → Cursor
  | 0, c => c
  | n + 1, c => skip n c.next

/-- The characters from here on that satisfy a condition, and the place behind them. -/
def takeWhile (c : Cursor) (p : Char → Bool) : List Char × Cursor :=
  let text := c.rest.takeWhile p
  (text, c.skip text.length)

/-- The place behind all characters from here on that satisfy a condition. -/
def dropWhile (c : Cursor) (p : Char → Bool) : Cursor := (c.takeWhile p).2

/-- Takes a line's end, if the line ends here. A next-line character counts as a line feed. -/
def takeBreak (c : Cursor) : List Char × Cursor :=
  match c.peek with
  | none => ([], c)
  | some x =>
    if !isBreak x then ([], c)
    else if x = nextLine then (['\n'], c.next)
    else ([x], c.next)

/-- The place behind a comment, if one stands here. -/
def skipComment (c : Cursor) : Cursor :=
  if c.peek = some '#' then c.dropWhile (!isBreak ·) else c

/-- Whether a mark of three characters that separates documents stands here. -/
def isAtMark (c : Cursor) (mark : List Char) : Bool :=
  c.rest.take 3 = mark && endsMark (c.peekAt 3)

/-- Whether a document begins or ends here. -/
def isAtDocumentMark (c : Cursor) : Bool :=
  c.isAtMark ['-', '-', '-'] || c.isAtMark ['.', '.', '.']

/-! ## Laws -/

theorem rest_next (c : Cursor) : c.next.rest = c.rest.tail := by
  unfold next
  split
  · simp [*]
  · split
    · simp [*]
    · split <;> simp [*]

theorem rest_skip (n : Nat) (c : Cursor) : (c.skip n).rest = c.rest.drop n := by
  induction n generalizing c with
  | zero => rfl
  | succ n ih => simp [skip, ih, rest_next]

theorem takeWhile_append_rest (c : Cursor) (p : Char → Bool) :
    (c.takeWhile p).1 ++ (c.takeWhile p).2.rest = c.rest := by
  simp only [takeWhile, rest_skip]
  induction c.rest with
  | nil => rfl
  | cons x rest ih =>
    by_cases h : p x
    · simp [h, ih]
    · simp [h]

end Cursor

/-! ## Documents -/

/-- The text of a document with its line ends made line feeds, as a text file is read. -/
def normalize : List Char → List Char
  | '\r' :: '\n' :: rest => '\n' :: normalize rest
  | c :: rest => (if c = '\r' then '\n' else c) :: normalize rest
  | [] => []

/-- Whether a document may contain a character: no controls but tabs and line ends. -/
def isAllowed (c : Char) : Bool :=
  let n := c.toNat
  n = 9 || n = 10 || n = 13 || (32 ≤ n && n ≤ 126) || n = 0x85 || (0xa0 ≤ n && n ≤ 0xfffd)
    || 0x10000 ≤ n

end BeaconHarness.Yaml
