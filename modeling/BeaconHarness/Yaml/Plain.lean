import BeaconHarness.Yaml.Quoted

/-!
# Plain scalars

A scalar without quotes ends at a colon or number sign that cannot be part of it, at the end of its
line unless it goes on further to the right on a later one, and inside brackets also at a comma or a
bracket. Line ends are folded as in quoted text.
-/

namespace BeaconHarness.Yaml.Plain

/-! ## Beginnings -/

/-- The characters that a plain scalar does not begin with. -/
def indicators : List Char :=
  ['-', '?', ':', ',', '[', ']', '{', '}', '#', '&', '*', '!', '|', '>', Text.Quoted.single,
    Text.Quoted.double, '%', '@', Char.ofNat 96]

/-- Whether a plain scalar begins here. Three of the characters begin one if more follows; inside
brackets that is only the hyphen. -/
def beginsAt (inFlow : Bool) (c : Cursor) : Bool :=
  match c.peek with
  | none => false
  | some x =>
    (!isGap x && !isBreak x && !indicators.contains x)
      || (!endsMark (c.peekAt 1) && (x = '-' || (!inFlow && (x = '?' || x = ':'))))

/-! ## Words -/

/-- The characters that end a scalar inside brackets. -/
def flowStops : List Char := [',', '?', '[', ']', '{', '}']

/-- Whether a colon with the given character behind it is the end of a key. -/
def closesKey (inFlow : Bool) (behind : Option Char) : Bool :=
  endsMark behind || (inFlow && match behind with
    | some x => [',', '[', ']', '{', '}'].contains x
    | none => false)

/-- The run of characters up to the next blank or end of the scalar. -/
def word (inFlow : Bool) : List Char → List Char
  | [] => []
  | x :: rest =>
    if isGap x || isBreak x || (x = ':' && closesKey inFlow rest.head?)
        || (inFlow && flowStops.contains x) then []
    else x :: word inFlow rest

/-! ## Line ends -/

/-- The line ends from here on, with the spaces around them left out; nothing if a document begins
or ends behind one of them. -/
def readBreaks : (fuel : Nat) → Cursor → Option (List Char) × Cursor
  | 0, c => (none, c)
  | fuel + 1, c =>
    match (c.dropWhile (· = ' ')).takeBreak with
    | ([], c) => (some [], c)
    | (ends, c) =>
      if c.isAtDocumentMark then (none, c)
      else
        let (more, c) := readBreaks fuel c
        (more.map (ends ++ ·), c)

/-- The spaces and line ends between two words, and whether a line ended. Nothing between them
means that the scalar is over. -/
def readSpaces (fuel : Nat) (c : Cursor) : List Char × Cursor × Bool :=
  let (spaces, c) := c.takeWhile (· = ' ')
  match c.takeBreak with
  | ([], c) => (spaces, c, false)
  | (first, c) =>
    if c.isAtDocumentMark then ([], c, true)
    else
      let (rest, c) := readBreaks fuel c
      ((rest.map (Quoted.fold first)).getD [], c, true)

/-! ## Scalars -/

/-- What has been read of a scalar: the text, the place behind it, and whether a key may begin
there, which it may behind the end of a line. -/
structure Reading where
  text : List Char
  cursor : Cursor
  mayBeKey : Bool

/-- Reads words from here on, each with the spaces that come before it. -/
def readWords (inFlow : Bool) (indent : Nat) : (fuel : Nat) → (spaces : List Char) →
    (mayBeKey : Bool) → Cursor → Reading
  | 0, _, mayBeKey, c => ⟨[], c, mayBeKey⟩
  | fuel + 1, spaces, mayBeKey, c =>
    let run := if c.peek = some '#' then [] else word inFlow c.rest
    if run.isEmpty then ⟨[], c, mayBeKey⟩
    else
      let (gap, behind, lineEnded) := readSpaces fuel (c.skip run.length)
      let text := spaces ++ run
      if gap.isEmpty || behind.peek = some '#' || (!inFlow && behind.column < indent) then
        ⟨text, behind, lineEnded⟩
      else
        let r := readWords inFlow indent fuel gap lineEnded behind
        { r with text := text ++ r.text }

/-- The plain scalar here, in a block whose lines are indented by `indent` at least. -/
def read (inFlow : Bool) (indent : Nat) (c : Cursor) : Reading :=
  readWords inFlow indent (c.rest.length + 1) [] false c

end BeaconHarness.Yaml.Plain
