import BeaconHarness.Text.Hex
import BeaconHarness.Yaml.Quoted

/-!
# Tags, anchors and directives

What stands in front of a node says what it is: a tag names its kind, an anchor gives it a name. A
tag is written in full between angle brackets, or short behind a handle, for which a directive at
the head of the document may name what it stands for.
-/

namespace BeaconHarness.Yaml

open Quoted (unexpected)

/-! ## Names -/

/-- Reads a name that is not empty. -/
def readName (c : Cursor) : Except Failure (String × Cursor) :=
  match c.takeWhile isNameChar with
  | ([], _) => .error unexpected
  | (name, c) => .ok (String.ofList name, c)

/-- Whether the name of an anchor ends at what comes next. -/
def endsAnchor (c : Option Char) : Bool :=
  endsMark c || match c with
    | some x => ['?', ':', ',', ']', '}', '%', '@', Char.ofNat 96].contains x
    | none => true

/-- Reads the name of an anchor or an alias, from its indicator on. -/
def readAnchor (c : Cursor) : Except Failure (String × Cursor) := do
  let (name, c) ← readName c.next
  if endsAnchor c.peek then return (name, c) else .error unexpected

/-! ## Tags -/

/-- A tag as it is written: a handle, if it has one, and what follows it. -/
structure WrittenTag where
  handle : Option String
  suffix : String
  deriving DecidableEq, Repr, Inhabited

/-- Whether a character may stand in a tag. -/
def isTagChar (c : Char) : Bool :=
  c.isAlphanum || [
    '-', ';', '/', '?', ':', '@', '&', '=', '+', '$', ',', '_', '.', '!', '~', '*', '(', ')', '[',
    ']', '%', Text.Quoted.single].contains c

/-- The bytes of a run of escapes, a percent sign and two hexadecimal digits each, and what follows
the run. -/
def escapedBytes : List Char → Except Failure (Bytes × List Char)
  | '%' :: a :: b :: rest =>
    match Text.Hex.value? a, Text.Hex.value? b with
    | some x, some y => (escapedBytes rest).map fun (more, rest) =>
      (UInt8.ofNat (16 * x + y) :: more, rest)
    | _, _ => .error unexpected
  | '%' :: _ => .error unexpected
  | rest => .ok ([], rest)

/-- Replaces the escapes in a text by the characters whose bytes they are. -/
def unescape : (fuel : Nat) → List Char → Except Failure (List Char)
  | 0, _ => .error unexpected
  | _, [] => .ok []
  | fuel + 1, c :: rest =>
    if c ≠ '%' then (unescape fuel rest).map (c :: ·)
    else do
      let (b, behind) ← escapedBytes (c :: rest)
      match String.fromUTF8? ⟨b.toArray⟩ with
      | some s => return s.toList ++ (← unescape fuel behind)
      | none => .error unexpected

/-- Reads the characters of a tag, of which there has to be one. -/
def readTagText (c : Cursor) : Except Failure (String × Cursor) :=
  match c.takeWhile isTagChar with
  | ([], _) => .error unexpected
  | (text, c) => (unescape (text.length + 1) text).map fun text => (String.ofList text, c)

/-- Reads a handle: a name between two exclamation marks, or the mark alone before a space. -/
def readHandle (c : Cursor) : Except Failure (String × Cursor) :=
  if c.peek ≠ some '!' then .error unexpected
  else if c.peekAt 1 = some ' ' then .ok ("!", c.next)
  else
    let (name, c) := c.next.takeWhile isNameChar
    if c.peek = some '!' then .ok (String.ofList ('!' :: name ++ ['!']), c.next)
    else .error unexpected

/-- Reads a tag from its exclamation mark on. -/
def readTag (c : Cursor) : Except Failure (WrittenTag × Cursor) := do
  let (tag, c) ← match c.peekAt 1 with
    | some '<' => do
      let (suffix, c) ← readTagText (c.skip 2)
      if c.peek = some '>' then pure ((⟨none, suffix⟩ : WrittenTag), c.next) else .error unexpected
    | x =>
      if endsMark x then pure (⟨none, "!"⟩, c.next)
      else do
        -- A second exclamation mark in the word closes a handle.
        let isLong := (c.next.rest.takeWhile fun x => !endsWord (some x)).contains '!'
        let (handle, c) ← if isLong then readHandle c else pure ("!", c.next)
        let (suffix, c) ← readTagText c
        pure (⟨some handle, suffix⟩, c)
  if endsWord c.peek then return (tag, c) else .error unexpected

/-! ## Directives -/

/-- A directive at the head of a document. -/
inductive Directive where
  /-- The version of the language. -/
  | version (major minor : Nat)
  /-- What a handle stands for. -/
  | handle (name stem : String)
  /-- Any other directive; it has no effect. -/
  | other (name : String)
  deriving DecidableEq, Repr

/-- Reads a decimal number. -/
def readDecimal (c : Cursor) : Except Failure (Nat × Cursor) :=
  match c.takeWhile Char.isDigit with
  | ([], _) => .error unexpected
  | (digits, c) => .ok (digits.foldl (fun n d => 10 * n + (d.toNat - 48)) 0, c)

/-- Reads the version in a directive. -/
def readVersion (c : Cursor) : Except Failure (Directive × Cursor) := do
  let (major, c) ← readDecimal (c.dropWhile (· = ' '))
  if c.peek ≠ some '.' then .error unexpected
  else
    let (minor, c) ← readDecimal c.next
    if endsWord c.peek then return (.version major minor, c) else .error unexpected

/-- Reads a handle and what it stands for in a directive. -/
def readHandleDirective (c : Cursor) : Except Failure (Directive × Cursor) := do
  let (name, c) ← readHandle (c.dropWhile (· = ' '))
  if c.peek ≠ some ' ' then .error unexpected
  else
    let (stem, c) ← readTagText (c.dropWhile (· = ' '))
    if endsWord c.peek then return (.handle name stem, c) else .error unexpected

/-- Reads a directive from its percent sign on. -/
def readDirective (c : Cursor) : Except Failure (Directive × Cursor) := do
  let (name, c) ← readName c.next
  if !endsWord c.peek then .error unexpected
  else
    let (directive, c) ← match name with
      | "YAML" => readVersion c
      | "TAG" => readHandleDirective c
      | name => pure (.other name, c.dropWhile (!isBreak ·))
    let c := (c.dropWhile (· = ' ')).skipComment
    if endsLine c.peek then return (directive, c.takeBreak.2) else .error unexpected

end BeaconHarness.Yaml
