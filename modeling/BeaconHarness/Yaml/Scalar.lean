import BeaconHarness.Datum.Arithmetic
import BeaconHarness.Text.Base64
import BeaconHarness.Text.Case
import BeaconHarness.Yaml.Kind
import BeaconHarness.Yaml.Timestamp

/-!
# Scalars

A scalar is a text and a kind. The kind of a plain text is seen from its form; a tag may also ask
for a kind that the text does not have the form of, and then there may be no value.

Main statement: a text without a form of its own denotes itself (`read_str`).
-/

namespace BeaconHarness.Yaml.Scalar

open Decimal (Binary64)

/-! ## Forms -/

/-- A text without the line end at its end, which no form takes notice of. -/
def dropLineEnd (text : List Char) : List Char :=
  if text.getLast? = some '\n' then text.dropLast else text

/-- The kind of a plain text. -/
def kindOf (text : List Char) : Kind :=
  let body := dropLineEnd text
  let word := String.ofList body
  if Kind.boolWords.contains word then .bool
  else if Kind.isFloat body then .float
  else if Kind.isInteger (Text.Integer.splitSign body).2 then .int
  else if word = "<<" then .merge
  else if Kind.nullWords.contains word && text ≠ ['\n'] then .null
  else if Timestamp.isTimestamp body then .timestamp
  else if word = "=" then .value
  else if ["!", "&", "*"].contains word then .unknown
  else .str

/-! ## Values -/

/-- The failure of a part of a document that has no value. -/
def noValue : Failure := .ofKind .documentValue

/-- The failure of a text that is no number. -/
def notNumber : Failure := .unreadable .other

/-- The truth value that a word denotes, in any letter case. -/
def readBool (text : String) : Except Failure Datum :=
  let word := Text.lower text
  if ["yes", "true", "on"].contains word then .ok (.bool true)
  else if ["no", "false", "off"].contains word then .ok (.bool false)
  else .error (.missingKey word)

/-- Reads digits of a base. -/
def readDigits (base : Text.Integer.Base) (digits : List Char) : Except Failure Int :=
  match Text.Integer.read base digits with
  | .ok n => .ok n
  | .error _ => .error notNumber

/-- The integer in a text without a sign. A zero in front means base eight. -/
def readMagnitude (text : List Char) : Except Failure Int :=
  match text with
  | [] => .error .noElement
  | '0' :: 'b' :: digits => readDigits .binary digits
  | '0' :: 'x' :: digits => readDigits .hexadecimal digits
  | '0' :: _ => if text = ['0'] then .ok 0 else readDigits .octal text
  | text =>
    if text.contains ':' then
      ((Kind.colonParts text).mapM (readDigits .decimal)).map fun parts =>
        parts.foldl (fun n part => 60 * n + part) 0
    else readDigits .decimal text

/-- A sign in front of a text without underscores; there has to be a text. -/
def splitSign (text : List Char) : Except Failure (Bool × List Char) :=
  match text.filter (· ≠ '_') with
  | [] => .error .noElement
  | text => .ok (Text.Integer.splitSign text)

/-- The integer in a text. -/
def readInt (text : List Char) : Except Failure Int := do
  let (negative, body) ← splitSign text
  let n ← readMagnitude body
  return if negative then -n else n

/-- Reads a decimal. -/
def readDecimal (text : List Char) : Except Failure Binary64 :=
  match Binary64.read text with
  | some x => .ok x
  | none => .error notNumber

/-- The sum of the parts of a number in base sixty, each with its weight, last part first. -/
def addSixtieths (weight : Int) : List Binary64 → Binary64 → Except Failure Binary64
  | [], sum => .ok sum
  | part :: rest, sum => do
    let w ← Datum.toFloat weight
    addSixtieths (60 * weight) rest (sum.add (part.mul w))

/-- The floating-point number in a text. -/
def readFloat (text : String) : Except Failure Binary64 := do
  let (negative, body) ← splitSign (Text.lower text).toList
  let word := String.ofList body
  if word = ".nan" then return .nan
  else
    let x ← if word = ".inf" then pure (.infinite false)
      else if body.contains ':' then do
        let parts ← (Kind.colonParts body).mapM readDecimal
        addSixtieths 1 parts.reverse (Binary64.zero false)
      else readDecimal body
    return if negative then x.neg else x

/-- The bytes that a text in base 64 stands for. -/
def readBinary (text : List Char) : Except Failure Datum :=
  if !text.all fun c => c.toNat < 128 then .error noValue
  else match Text.Base64.decode text with
    | some b => .ok (.bytes b)
    | none => .error noValue

/-- The date or moment in a text. -/
def readTimestamp (text : List Char) : Except Failure Datum :=
  match Timestamp.read (dropLineEnd text) with
  | none => .error .noProperty
  | some (.date d) => if d.isValid then .ok (.date d) else .error notNumber
  | some (.moment m) => if m.isValid then .ok (.moment m) else .error notNumber

/-- The value of a text of a given kind. -/
def read (kind : Kind) (text : String) : Except Failure Datum :=
  match kind with
  | .null => .ok .null
  | .bool => readBool text
  | .int => (readInt text.toList).map .int
  | .float => (readFloat text).map .float
  | .binary => readBinary text.toList
  | .timestamp => readTimestamp text.toList
  | .str => .ok (.str text)
  | .merge | .value | .seq | .map | .set | .omap | .pairs | .unknown => .error noValue

@[simp] theorem read_str (text : String) : read .str text = .ok (.str text) := rfl

end BeaconHarness.Yaml.Scalar
