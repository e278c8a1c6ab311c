import BeaconHarness.Text.Blank
import BeaconHarness.Text.Digit
import BeaconHarness.Text.Hex

/-!
# Integers in text

An integer is written as an optional sign and a run of digits, in base ten or, behind a mark of
zero and a letter, in base two, eight or sixteen. Blanks may stand at both ends and single
underscores between digits. A decimal text of more than 4300 digits is refused.

Reading is total: it gives an integer or one of two refusals.
-/

namespace BeaconHarness.Text.Integer

/-- The base of the digits. -/
inductive Base where
  | binary
  | octal
  | decimal
  | hexadecimal
  deriving DecidableEq, Repr

/-- The base as a number. -/
def Base.size : Base → Nat
  | .binary => 2
  | .octal => 8
  | .decimal => 10
  | .hexadecimal => 16

/-- The letters of the mark; decimal digits have none. -/
def Base.letters : Base → List Char
  | .binary => ['b', 'B']
  | .octal => ['o', 'O']
  | .decimal => []
  | .hexadecimal => ['x', 'X']

/-- Why a text is not read as an integer. -/
inductive Refusal where
  /-- The text does not have the form of an integer in the base. -/
  | malformed
  /-- The text has more decimal digits than are converted. -/
  | tooLong (digits : Nat)
  deriving DecidableEq, Repr

/-- The most decimal digits that are converted. -/
def digitLimit : Nat := 4300

/-! ## Digits -/

/-- The value of an ASCII digit of the base. -/
def digitValue? (base : Base) (c : Char) : Option Nat :=
  match Hex.value? c with
  | some v => if v < base.size then some v else none
  | none => none

/-- Splits off the longest run of digits with single underscores between them. `none` if an
underscore begins or ends the run or follows another one: it may stand only after a digit. -/
def digitRun (base : Base) :
    (afterDigit : Bool) → List Nat → List Char → Option (List Nat × List Char)
  | afterDigit, read, [] => if afterDigit || read.isEmpty then some (read.reverse, []) else none
  | afterDigit, read, c :: rest =>
    if c = '_' then
      if afterDigit then digitRun base false read rest else none
    else match digitValue? base c with
      | some d => digitRun base true (d :: read) rest
      | none => if afterDigit || read.isEmpty then some (read.reverse, c :: rest) else none

/-- The number that digits denote, most significant digit first. -/
def ofDigits (base : Base) (digits : List Nat) : Nat :=
  digits.foldl (fun n d => base.size * n + d) 0

/-! ## Reading -/

/-- A text in which digits and blanks of any script are replaced by the ASCII ones; a text of
ASCII alone is left as it is. Any other character beyond ASCII is replaced by one that no integer
contains. -/
def toAscii (text : List Char) : List Char :=
  if text.all (fun c => c.toNat < 128) then text
  else text.map fun c =>
    if c.toNat < 127 then c
    else if isBlank c then ' '
    else match decimalValue? c with
      | some d => Char.ofNat (48 + d)
      | none => '?'

/-- Takes a sign off a text: whether it is a minus, and the rest. -/
def splitSign : List Char → Bool × List Char
  | '-' :: rest => (true, rest)
  | '+' :: rest => (false, rest)
  | text => (false, text)

/-- Takes the mark of a base off a text, and one underscore behind it. -/
def dropMark (base : Base) (text : List Char) : List Char :=
  match text with
  | '0' :: c :: rest =>
    if base.letters.contains c then
      match rest with
      | '_' :: rest => rest
      | rest => rest
    else text
  | text => text

/-- Reads the digits of a number and whatever blanks follow them. -/
def readDigits (base : Base) (text : List Char) : Except Refusal Nat :=
  match digitRun base false [] text with
  | none => .error .malformed
  | some (digits, rest) =>
    if base = .decimal && digitLimit < digits.length then .error (.tooLong digits.length)
    else if digits.isEmpty || !(rest.all isAsciiBlank) then .error .malformed
    else .ok (ofDigits base digits)

/-- Reads an integer from a text. -/
def read (base : Base) (text : List Char) : Except Refusal Int :=
  let (negative, body) := splitSign ((toAscii text).dropWhile isAsciiBlank)
  match readDigits base (dropMark base body) with
  | .ok n => .ok (if negative then -(n : Int) else n)
  | .error r => .error r

/-! ## Writing -/

/-- The decimal text of an integer. -/
def decimal (n : Int) : String := toString n

/-- Whether an integer has more decimal digits than are converted. -/
def isTooLong (n : Int) : Bool :=
  -- Few numbers are long enough to be compared with the bound itself.
  digitLimit ≤ Nat.log2 n.natAbs && Nat.pow 10 digitLimit ≤ n.natAbs

/-- The hexadecimal text of an integer: lower-case digits behind `0x`, no leading zeros, and a
minus in front of the mark. -/
def hexadecimal (n : Int) : String :=
  let digits := String.ofList (Nat.toDigits 16 n.natAbs)
  if n < 0 then "-0x" ++ digits else "0x" ++ digits

end BeaconHarness.Text.Integer
