import BeaconHarness.Text.Hex
import BeaconHarness.Text.Integer

/-!
# Kinds of nodes

The kind of a node says what value it denotes. A tag names it. A plain scalar without a tag has the
kind that its form says: null, a truth value, an integer in one of five notations, a decimal with a
point, a date or moment, and text otherwise. Underscores may stand anywhere among the digits of a
number and mean nothing.
-/

namespace BeaconHarness.Yaml

/-- What a node denotes. -/
inductive Kind where
  | null
  | bool
  | int
  | float
  | binary
  | timestamp
  | str
  /-- The key under which a mapping takes over the entries of others. -/
  | merge
  /-- The key under which a mapping holds the scalar that it stands for. -/
  | value
  | seq
  | map
  | set
  | omap
  | pairs
  /-- A kind that denotes nothing here. -/
  | unknown
  deriving DecidableEq, Repr, Inhabited

namespace Kind

/-! ## Tags -/

/-- What the tags of the language's own kinds begin with. -/
def stem : String := "tag:yaml.org,2002:"

/-- The kinds by the ends of their tags. -/
def names : List (String × Kind) := [
  ("null", null), ("bool", bool), ("int", int), ("float", float), ("binary", binary),
  ("timestamp", timestamp), ("str", str), ("merge", merge), ("value", value), ("seq", seq),
  ("map", map), ("set", set), ("omap", omap), ("pairs", pairs)]

/-- The kind that a tag names. -/
def ofTag (tag : String) : Kind :=
  ((names.find? fun e => stem ++ e.1 = tag).map fun e => e.2).getD unknown

/-- Whether nodes of the kind denote collections. -/
def isCollection : Kind → Bool
  | seq | map | set | omap | pairs => true
  | _ => false

/-! ## Words -/

/-- The spellings of null. -/
def nullWords : List String := ["", "~", "null", "Null", "NULL"]

/-- The spellings of the truth values. -/
def boolWords : List String := [
  "yes", "Yes", "YES", "no", "No", "NO", "true", "True", "TRUE", "false", "False", "FALSE", "on",
  "On", "ON", "off", "Off", "OFF"]

/-- The spellings of infinity, which may have a sign. -/
def infinityWords : List String := [".inf", ".Inf", ".INF"]

/-- The spellings of not-a-number. -/
def nanWords : List String := [".nan", ".NaN", ".NAN"]

/-! ## Numbers -/

/-- Whether a character is a digit of a base or an underscore. -/
def isDigitOf (base : Text.Integer.Base) (c : Char) : Bool :=
  c = '_' || (Text.Integer.digitValue? base c).isSome

/-- Whether a text is a nonempty run of digits of a base and underscores. -/
def isRun (base : Text.Integer.Base) (text : List Char) : Bool :=
  !text.isEmpty && text.all (isDigitOf base)

/-- Whether a text is a run of decimal digits and underscores that begins with a digit. -/
def isNumeral (text : List Char) : Bool := isRun .decimal text && text.head? ≠ some '_'

/-- The parts of a text between colons. -/
def colonParts (text : List Char) : List (List Char) :=
  text.foldr (fun c parts =>
    match parts with
    | part :: rest => if c = ':' then [] :: part :: rest else (c :: part) :: rest
    | [] => [[c]]) [[]]

/-- Whether a text is one digit, or two that denote less than sixty. -/
def isSixtieth (text : List Char) : Bool :=
  text.all Char.isDigit && match text with
    | [_] => true
    | [a, _] => a ≤ '5'
    | _ => false

/-- Whether a text is a numeral with sixtieths behind it, each behind a colon. -/
def isSexagesimal (text : List Char) : Bool :=
  match colonParts text with
  | whole :: parts => isNumeral whole && !parts.isEmpty && parts.all isSixtieth
  | [] => false

/-- Whether a text is an integer without a sign: in base two, eight, ten, sixteen or sixty. -/
def isInteger (text : List Char) : Bool :=
  match text with
  | ['0'] => true
  | '0' :: 'b' :: digits => isRun .binary digits
  | '0' :: 'x' :: digits => isRun .hexadecimal digits
  | '0' :: digits => isRun .octal digits
  | text => isNumeral text || isSexagesimal text

/-- Whether a text is nothing, or an exponent: the letter, a sign and digits. -/
def isExponent (text : List Char) : Bool :=
  match text with
  | [] => true
  | e :: sign :: digits =>
    (e = 'e' || e = 'E') && (sign = '+' || sign = '-') && !digits.isEmpty
      && digits.all Char.isDigit
  | [_] => false

/-- Whether a text is a decimal with a point. One that begins with its point has no sign. -/
def isDecimal (text : List Char) : Bool :=
  let (_, body) := Text.Integer.splitSign text
  let whole := body.takeWhile (· ≠ '.')
  match body.dropWhile (· ≠ '.') with
  | '.' :: rest =>
    let places := rest.takeWhile (isDigitOf .decimal)
    let behind := rest.dropWhile (isDigitOf .decimal)
    if whole.isEmpty then body = text && isNumeral places && isExponent behind
    else if isNumeral whole then isExponent behind
    else isSexagesimal whole && behind.isEmpty
  | _ => false

/-- Whether a text is a floating-point number. -/
def isFloat (text : List Char) : Bool :=
  isDecimal text || infinityWords.contains (String.ofList (Text.Integer.splitSign text).2)
    || nanWords.contains (String.ofList text)

end Kind

end BeaconHarness.Yaml
