import BeaconHarness.Yaml.Block
import BeaconHarness.Yaml.Plain
import BeaconHarness.Yaml.Tag

/-!
# Tokens

A document is divided into tokens: scalars, the marks before them, brackets, and the beginnings and
ends of blocks, which show only in the indentation. A key before a colon carries no mark of its own;
whatever may turn out to be one is remembered, and when the colon comes on the same line, the
missing tokens are put in front of it.

Tokens are handed over only as far as none of them can still become a key, so that a fault shows
after everything that came before it.
-/

namespace BeaconHarness.Yaml

open Quoted (unexpected)

/-- A token of a document. -/
inductive Token where
  | streamEnd
  | directive (d : Directive)
  | documentStart
  | documentEnd
  | blockSequenceStart
  | blockMappingStart
  | blockEnd
  | flowSequenceStart
  | flowSequenceEnd
  | flowMappingStart
  | flowMappingEnd
  | key
  | value
  | blockEntry
  | flowEntry
  | alias (name : String)
  | anchor (name : String)
  | tag (t : WrittenTag)
  | scalar (text : String) (isPlain : Bool)
  deriving DecidableEq, Repr, Inhabited

namespace Token

/-! ## States -/

/-- A token that may turn out to be a key, by its number and place. A required one has to. -/
structure Candidate where
  number : Nat
  required : Bool
  place : Cursor

/-- The most characters between the beginning of a key and its colon. -/
def longestKey : Nat := 1024

/-- How far a document has been divided. -/
structure State where
  cursor : Cursor
  tokens : List Token := []
  /-- How many brackets are open. -/
  depth : Int := 0
  /-- The indentation of the innermost block, and those of the blocks around it. -/
  indent : Int := -1
  indents : List Int := []
  /-- Whether a key may begin here. -/
  mayBeKey : Bool := true
  /-- The candidates by the brackets open at their place. -/
  candidates : List (Int × Candidate) := []
  isOver : Bool := false

namespace State

/-- Whether brackets are open. -/
def inFlow (s : State) : Bool := s.depth ≠ 0

/-- The state with a token more. -/
def push (s : State) (t : Token) : State := { s with tokens := s.tokens ++ [t] }

/-- The state with a token put in front of the one with a given number. -/
def insertAt (s : State) (number : Nat) (t : Token) : State :=
  { s with tokens := s.tokens.take number ++ t :: s.tokens.drop number }

/-- Whether a candidate can no longer become a key. -/
def isStale (c : Cursor) (candidate : Candidate) : Bool :=
  candidate.place.line ≠ c.line || longestKey < c.index - candidate.place.index

/-- Drops the candidates that can no longer become keys. -/
def dropStale (s : State) : Except Failure State :=
  let stale := s.candidates.filter fun e => isStale s.cursor e.2
  if stale.any fun e => e.2.required then .error unexpected
  else .ok { s with candidates := s.candidates.filter fun e => !isStale s.cursor e.2 }

/-- Drops the candidate between the present brackets. -/
def dropCandidate (s : State) : Except Failure State :=
  match s.candidates.lookup s.depth with
  | none => .ok s
  | some candidate =>
    if candidate.required then .error unexpected
    else .ok { s with candidates := s.candidates.filter fun e => e.1 ≠ s.depth }

/-- Remembers that the next token may turn out to be a key. At the indentation of a block it has
to. -/
def saveCandidate (s : State) : Except Failure State :=
  if !s.mayBeKey then .ok s
  else do
    let s ← s.dropCandidate
    let required := !s.inFlow && s.indent = s.cursor.column
    return { s with
      candidates := (s.depth, ⟨s.tokens.length, required, s.cursor⟩) :: s.candidates }

/-- Closes the given number of blocks at most, as long as they are indented by more than a
column. -/
def closeBlocks (column : Int) : (blocks : Nat) → State → State
  | 0, s => s
  | blocks + 1, s =>
    if s.inFlow || s.indent ≤ column then s
    else closeBlocks column blocks
      { s.push .blockEnd with indent := s.indents.headD (-1), indents := s.indents.drop 1 }

/-- Closes the blocks that are indented by more than a column. -/
def unindent (s : State) (column : Int) : State := closeBlocks column (s.indents.length + 1) s

/-- Opens a block at a column, unless one is open that far to the right already. -/
def indentTo (s : State) (column : Nat) : Option State :=
  if s.indent < column then
    some { s with indents := s.indent :: s.indents, indent := column }
  else none

/-! ## Between tokens -/

/-- The place of the next token, behind spaces, comments and line ends, and whether a line ended. -/
def findToken : (fuel : Nat) → Cursor → Bool × Cursor
  | 0, c => (false, c)
  | fuel + 1, c =>
    match ((c.dropWhile (· = ' ')).skipComment).takeBreak with
    | ([], c) => (false, c)
    | (_, c) => (true, (findToken fuel c).2)

/-- Goes to the next token. Behind the end of a line a key may begin. -/
def toToken (s : State) : State :=
  let c := if s.cursor.index = 0 && s.cursor.peek = some byteOrderMark then s.cursor.next
    else s.cursor
  let (lineEnded, c) := findToken (c.rest.length + 1) c
  { s with cursor := c, mayBeKey := s.mayBeKey || (lineEnded && !s.inFlow) }

/-! ## Single tokens -/

/-- The end of the document's text. -/
def takeEnd (s : State) : Except Failure State := do
  let s ← (s.unindent (-1)).dropCandidate
  return { s.push .streamEnd with mayBeKey := false, candidates := [], isOver := true }

/-- A directive, or the mark of a document. -/
def takeHead (s : State) (read : Cursor → Except Failure (Token × Cursor)) :
    Except Failure State := do
  let s ← (s.unindent (-1)).dropCandidate
  let (t, c) ← read s.cursor
  return { s.push t with mayBeKey := false, cursor := c }

/-- A bracket that opens. -/
def takeOpening (s : State) (t : Token) : Except Failure State := do
  let s ← s.saveCandidate
  return { s.push t with depth := s.depth + 1, mayBeKey := true, cursor := s.cursor.next }

/-- A bracket that closes. -/
def takeClosing (s : State) (t : Token) : Except Failure State := do
  let s ← s.dropCandidate
  return { s.push t with depth := s.depth - 1, mayBeKey := false, cursor := s.cursor.next }

/-- A comma between brackets. -/
def takeComma (s : State) : Except Failure State := do
  let s ← s.dropCandidate
  return { s.push .flowEntry with mayBeKey := true, cursor := s.cursor.next }

/-- Opens a block at a place where one may begin. -/
def openBlock (s : State) (t : Token) : Except Failure State :=
  if s.inFlow then .ok s
  else if !s.mayBeKey then .error unexpected
  else .ok (((s.indentTo s.cursor.column).map (push · t)).getD s)

/-- The hyphen before an item. -/
def takeHyphen (s : State) : Except Failure State := do
  let s ← (← s.openBlock .blockSequenceStart).dropCandidate
  return { s.push .blockEntry with mayBeKey := true, cursor := s.cursor.next }

/-- The question mark before a key. -/
def takeQuestion (s : State) : Except Failure State := do
  let s ← (← s.openBlock .blockMappingStart).dropCandidate
  return { s.push .key with mayBeKey := !s.inFlow, cursor := s.cursor.next }

/-- Makes a candidate a key. -/
def makeKey (s : State) (candidate : Candidate) : State :=
  let s := { s with candidates := s.candidates.filter fun e => e.1 ≠ s.depth }
  let s := s.insertAt candidate.number .key
  if s.inFlow then s
  else
    match s.indentTo candidate.place.column with
    | some s => s.insertAt candidate.number .blockMappingStart
    | none => s

/-- The colon before a value. -/
def takeColon (s : State) : Except Failure State :=
  match s.candidates.lookup s.depth with
  | some candidate =>
    let s := s.makeKey candidate
    .ok { s.push .value with mayBeKey := false, cursor := s.cursor.next }
  | none => do
    let s ← (← s.openBlock .blockMappingStart).dropCandidate
    return { s.push .value with mayBeKey := !s.inFlow, cursor := s.cursor.next }

/-- A token that may be the beginning of a key. -/
def takeNode (s : State) (read : Cursor → Except Failure (Token × Cursor)) :
    Except Failure State := do
  let s ← s.saveCandidate
  let (t, c) ← read s.cursor
  return { s.push t with mayBeKey := false, cursor := c }

/-- A block scalar. -/
def takeBlock (s : State) (folded : Bool) : Except Failure State := do
  let s ← s.dropCandidate
  let (text, c) ← Block.read folded s.indent s.cursor
  return { s.push (.scalar (String.ofList text) false) with mayBeKey := true, cursor := c }

/-- A plain scalar. -/
def takePlain (s : State) : Except Failure State := do
  let s ← s.saveCandidate
  let r := Plain.read s.inFlow (s.indent + 1).toNat s.cursor
  return { s.push (.scalar (String.ofList r.text) true) with
    mayBeKey := r.mayBeKey, cursor := r.cursor }

/-! ## All tokens -/

/-- Gives what was read the form of a token. -/
def as {α : Type} (f : α → Token) (r : Except Failure (α × Cursor)) :
    Except Failure (Token × Cursor) :=
  r.map fun (a, c) => (f a, c)

/-- Takes the token that begins with a character. -/
def takeAt (s : State) (x : Char) : Except Failure State :=
  let c := s.cursor
  let isMark := s.inFlow || endsMark (c.peekAt 1)
  if x = '%' && c.column = 0 then s.takeHead fun c => as .directive (readDirective c)
  else if c.column = 0 && c.isAtMark ['-', '-', '-'] then
    s.takeHead fun c => .ok (.documentStart, c.skip 3)
  else if c.column = 0 && c.isAtMark ['.', '.', '.'] then
    s.takeHead fun c => .ok (.documentEnd, c.skip 3)
  else if x = '[' then s.takeOpening .flowSequenceStart
  else if x = '{' then s.takeOpening .flowMappingStart
  else if x = ']' then s.takeClosing .flowSequenceEnd
  else if x = '}' then s.takeClosing .flowMappingEnd
  else if x = ',' then s.takeComma
  else if x = '-' && endsMark (c.peekAt 1) then s.takeHyphen
  else if x = '?' && isMark then s.takeQuestion
  else if x = ':' && isMark then s.takeColon
  else if x = '*' then s.takeNode fun c => as .alias (readAnchor c)
  else if x = '&' then s.takeNode fun c => as .anchor (readAnchor c)
  else if x = '!' then s.takeNode fun c => as .tag (readTag c)
  else if x = '|' && !s.inFlow then s.takeBlock false
  else if x = '>' && !s.inFlow then s.takeBlock true
  else if x = Text.Quoted.single || x = Text.Quoted.double then
    s.takeNode fun c => as (fun text => .scalar (String.ofList text) false) (Quoted.read c)
  else if Plain.beginsAt s.inFlow c then s.takePlain
  else .error unexpected

/-- Takes the next token, and the ends of blocks before it. Behind it no candidate is left that can
no longer become a key. -/
def take (s : State) : Except Failure State := do
  let s ← s.toToken.dropStale
  let s := s.unindent s.cursor.column
  let s ← match s.cursor.peek with
    | none => s.takeEnd
    | some x => s.takeAt x
  s.dropStale

/-- How many tokens cannot become keys any more. -/
def settled (s : State) : Nat :=
  s.candidates.foldl (fun n e => min n e.2.number) s.tokens.length

end State

/-- The tokens of a document. If it cannot be divided to its end, the tokens before the fault, and
the fault. -/
structure Division where
  tokens : List Token
  fault : Failure

/-- Takes one token after the other. -/
def divideFrom : (fuel : Nat) → State → Division
  | 0, s => ⟨s.tokens, unexpected⟩
  | fuel + 1, s =>
    match s.take with
    | .error e => ⟨s.tokens.take s.settled, e⟩
    | .ok s => if s.isOver then ⟨s.tokens, unexpected⟩ else divideFrom fuel s

/-- The tokens of a document's text. -/
def divide (text : List Char) : Division :=
  divideFrom (text.length + 1) { cursor := ⟨text, 0, 0, 0⟩ }

end Token

end BeaconHarness.Yaml
