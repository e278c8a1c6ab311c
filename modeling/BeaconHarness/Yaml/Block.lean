import BeaconHarness.Yaml.Quoted

/-!
# Block scalars

A block scalar is a run of indented lines behind a header. In a literal one every line end counts;
in a folded one a single line end between two lines that begin with text is a space. The header may
say how far the lines are indented and what becomes of the line ends behind the last line: by
default one of them is kept.
-/

namespace BeaconHarness.Yaml.Block

open Quoted (unexpected)

/-! ## Headers -/

/-- What becomes of the line ends behind the last line. -/
inductive Chomping where
  | strip
  | clip
  | keep
  deriving DecidableEq, Repr

/-- The header of a block scalar. -/
structure Header where
  chomping : Chomping := .clip
  increment : Option Nat := none

/-- The chomping that a character asks for. -/
def chompingOf (c : Option Char) : Option Chomping :=
  if c = some '+' then some .keep
  else if c = some '-' then some .strip
  else none

/-- The indentation that a character asks for; zero is none. -/
def incrementOf (c : Option Char) : Except Failure (Option Nat) :=
  match c with
  | some x =>
    if !x.isDigit then .ok none
    else if x = '0' then .error unexpected
    else .ok (some (x.toNat - 48))
  | none => .ok none

/-- Reads a header: chomping and indentation in either order. -/
def readHeader (c : Cursor) : Except Failure (Header × Cursor) := do
  let (header, c) ← match chompingOf c.peek with
    | some chomping => do
      let increment ← incrementOf (c.peekAt 1)
      pure ((⟨chomping, increment⟩ : Header), c.skip (if increment.isSome then 2 else 1))
    | none => do
      match ← incrementOf c.peek with
      | none => pure ({}, c)
      | some n =>
        match chompingOf (c.peekAt 1) with
        | some chomping => pure (⟨chomping, some n⟩, c.skip 2)
        | none => pure ({ increment := some n }, c.next)
  if endsWord c.peek then return (header, c) else .error unexpected

/-- The place behind the rest of a line, on which there is nothing but a comment. -/
def endLine (c : Cursor) : Except Failure Cursor :=
  let c := (c.dropWhile (· = ' ')).skipComment
  if endsLine c.peek then .ok c.takeBreak.2 else .error unexpected

/-! ## Lines -/

/-- The line ends before the first line, and how far the spaces among them reach. -/
def findIndent : (fuel reach : Nat) → Cursor → List Char × Nat × Cursor
  | 0, reach, c => ([], reach, c)
  | fuel + 1, reach, c =>
    let c := c.dropWhile (· = ' ')
    let reach := max reach c.column
    match c.takeBreak with
    | ([], c) => ([], reach, c)
    | (ends, c) =>
      let (more, reach, c) := findIndent fuel reach c
      (ends ++ more, reach, c)

/-- The place behind the spaces that indent a line, `indent` of them at most. -/
def skipIndent (indent : Nat) (c : Cursor) : Cursor :=
  c.skip (min (indent - c.column) (c.rest.takeWhile (· = ' ')).length)

/-- The line ends from here on, up to a line with more than its indentation. -/
def readBreaks (indent : Nat) : (fuel : Nat) → Cursor → List Char × Cursor
  | 0, c => ([], c)
  | fuel + 1, c =>
    match (skipIndent indent c).takeBreak with
    | ([], c) => ([], c)
    | (ends, c) =>
      let (more, c) := readBreaks indent fuel c
      (ends ++ more, c)

/-- What stands between two lines of a scalar: the first line end as it counts. -/
def joint (folded : Bool) (lineEnd breaks : List Char) (plainLines : Bool) : List Char :=
  if folded && lineEnd = ['\n'] && plainLines then
    if breaks.isEmpty then [' '] else []
  else lineEnd

/-- Reads lines with the given indentation; `before` stands in front of the first. Gives the text,
the end of the last line, and the line ends behind it. -/
def readLines (folded : Bool) (indent : Nat) : (fuel : Nat) → (before : List Char) → Cursor →
    List Char × List Char × List Char × Cursor
  | 0, before, c => ([], [], before, c)
  | fuel + 1, before, c =>
    let beginsPlain := !(c.peek.map isGap).getD false
    let (line, c) := c.takeWhile (!isBreak ·)
    let (lineEnd, c) := c.takeBreak
    let (breaks, c) := readBreaks indent (c.rest.length + 1) c
    if c.column = indent && c.peek.isSome then
      let plainLines := beginsPlain && !(c.peek.map isGap).getD false
      let (text, last, tail, c) := readLines folded indent fuel breaks c
      (before ++ line ++ joint folded lineEnd breaks plainLines ++ text, last, tail, c)
    else (before ++ line, lineEnd, breaks, c)

/-- The line ends that a scalar keeps behind its last line. -/
def chomp (chomping : Chomping) (last tail : List Char) : List Char :=
  match chomping with
  | .strip => []
  | .clip => last
  | .keep => last ++ tail

/-- Reads a block scalar from its indicator on, in a block that is indented by `parent`. -/
def read (folded : Bool) (parent : Int) (c : Cursor) : Except Failure (List Char × Cursor) := do
  let (header, c) ← readHeader c.next
  let c ← endLine c
  let least := (max (parent + 1) 1).toNat
  let fuel := c.rest.length + 1
  let (breaks, indent, c) := match header.increment with
    | some n =>
      let indent := least + n - 1
      let (breaks, c) := readBreaks indent fuel c
      (breaks, indent, c)
    | none =>
      let (breaks, reach, c) := findIndent fuel 0 c
      (breaks, max least reach, c)
  if c.column = indent && c.peek.isSome then
    let (text, last, tail, c) := readLines folded indent fuel breaks c
    return (text ++ chomp header.chomping last tail, c)
  else return (chomp header.chomping [] breaks, c)

end BeaconHarness.Yaml.Block
