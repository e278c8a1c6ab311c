import BeaconHarness.Text.Hex
import BeaconHarness.Text.Quoted
import BeaconHarness.Yaml.Cursor

/-!
# Quoted scalars

A text between quotes may go over several lines: a line end becomes a space, the blanks around it
are dropped, and of several line ends all but the first are kept. Between single quotes only the
quote itself is written twice; between double quotes a backslash begins an escape, which may also
hide a line end.
-/

namespace BeaconHarness.Yaml.Quoted

open Text.Quoted (single double)

/-- The failure of a text that cannot be divided into tokens. -/
def unexpected : Failure := .ofKind .documentToken

/-! ## Escapes -/

/-- What a single letter behind a backslash stands for. -/
def escapes : List (Char × Nat) := [
  ('0', 0), ('a', 7), ('b', 8), ('t', 9), ('\t', 9), ('n', 10), ('v', 11), ('f', 12), ('r', 13),
  ('e', 27), (' ', 32), (double, 34), ('\\', 92), ('/', 47), ('N', 0x85), ('_', 0xa0),
  ('L', 0x2028), ('P', 0x2029)]

/-- How many hexadecimal digits follow a letter that introduces a code point. -/
def codeLetters : List (Char × Nat) := [('x', 2), ('u', 4), ('U', 8)]

/-- The number that hexadecimal digits denote. -/
def hexNumber? (digits : List Char) : Option Nat :=
  (digits.mapM Text.Hex.value?).map fun ds => ds.foldl (fun n d => 16 * n + d) 0

/-- The character of a code point. -/
def codePoint (n : Nat) : Except Failure Char :=
  if n < 0x110000 then .ok (Char.ofNat n)
  else if n < 0x80000000 then .error (.unreadable .other)
  else .error .outOfRange

/-- The character of an escaped code point of `width` digits. -/
def readCode (width : Nat) (c : Cursor) : Except Failure (Char × Cursor) :=
  let digits := c.rest.take width
  match hexNumber? digits with
  | some n =>
    if digits.length = width then (codePoint n).map fun x => (x, c.skip width)
    else .error unexpected
  | none => .error unexpected

/-! ## Lines -/

/-- The line ends from here on, with the blanks around them left out. Documents must not begin or
end inside a scalar. -/
def readBreaks : (fuel : Nat) → Cursor → Except Failure (List Char × Cursor)
  | 0, _ => .error unexpected
  | fuel + 1, c =>
    if c.isAtDocumentMark then .error unexpected
    else
      match (c.dropWhile isGap).takeBreak with
      | ([], c) => .ok ([], c)
      | (ends, c) => (readBreaks fuel c).map fun (more, c) => (ends ++ more, c)

/-- Line ends as they count in folded text: the first is a space if it is the only one, and is
dropped otherwise; a separator of lines or paragraphs is kept. -/
def fold (first rest : List Char) : List Char :=
  if first ≠ ['\n'] then first ++ rest
  else if rest.isEmpty then [' ']
  else rest

/-- The blanks and line ends from here on. -/
def readBlanks (fuel : Nat) (c : Cursor) : Except Failure (List Char × Cursor) :=
  let (blanks, c) := c.takeWhile isGap
  match c.peek with
  | none => .error unexpected
  | some _ =>
    match c.takeBreak with
    | ([], c) => .ok (blanks, c)
    | (first, c) => (readBreaks fuel c).map fun (rest, c) => (fold first rest, c)

/-! ## Texts -/

/-- The escape behind a backslash. -/
def readEscape (fuel : Nat) (c : Cursor) : Except Failure (List Char × Cursor) :=
  match c.peek with
  | none => .error unexpected
  | some x =>
    match escapes.lookup x, codeLetters.lookup x with
    | some n, _ => .ok ([Char.ofNat n], c.next)
    | none, some width => (readCode width c.next).map fun (x, c) => ([x], c)
    | none, none =>
      match c.takeBreak with
      | ([], _) => .error unexpected
      | (_, c) => readBreaks fuel c

/-- Reads a text up to the quote that closes it. -/
def readText (quote : Char) : (fuel : Nat) → Cursor → Except Failure (List Char × Cursor)
  | 0, _ => .error unexpected
  | fuel + 1, c =>
    let go := fun (text : List Char) (c : Cursor) =>
      (readText quote fuel c).map fun (more, c) => (text ++ more, c)
    match c.peek with
    | none => .error unexpected
    | some x =>
      if x = quote then
        if quote = single && c.peekAt 1 = some single then go [single] (c.skip 2)
        else .ok ([], c.next)
      else if quote = double && x = '\\' then
        match readEscape fuel c.next with
        | .error e => .error e
        | .ok (text, c) => go text c
      else if isGap x || isBreak x then
        match readBlanks fuel c with
        | .error e => .error e
        | .ok (text, c) => go text c
      else go [x] c.next

/-- The text of a quoted scalar, from the quote that opens it on. -/
def read (c : Cursor) : Except Failure (List Char × Cursor) :=
  match c.peek with
  | some quote => readText quote (c.rest.length + 1) c.next
  | none => .error unexpected

end BeaconHarness.Yaml.Quoted
