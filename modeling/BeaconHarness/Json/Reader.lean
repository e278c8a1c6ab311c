import BeaconHarness.Datum

/-!
# JSON input

A JSON text as a datum. A number with neither fraction nor exponent is an integer of any size, any
other number a binary one; the words `NaN` and `Infinity` are accepted. Of two entries with the
same key the later value counts, in the place of the earlier.

The reader goes through nested values with a budget that the length of the text sets, so it always
ends; every step of it takes at least one character.
-/

namespace BeaconHarness.Json

/-- What is left of a text behind a value that was read from it. -/
abbrev Parsed (α : Type) := Option (α × List Char)

/-- The blanks between tokens. -/
def isBlank (c : Char) : Bool := c = ' ' || c = '\t' || c = '\n' || c = '\r'

/-- A text behind its leading blanks. -/
def skip (cs : List Char) : List Char := cs.dropWhile isBlank

/-- A text behind a given word. -/
def expect : (word : List Char) → List Char → Option (List Char)
  | [], cs => some cs
  | w :: word, c :: cs => if w = c then expect word cs else none
  | _ :: _, [] => none

/-! ## Strings -/

/-- The number in four hexadecimal digits. -/
def readUnit : List Char → Parsed Nat
  | a :: b :: c :: d :: rest =>
    match Text.Hex.value? a, Text.Hex.value? b, Text.Hex.value? c, Text.Hex.value? d with
    | some a, some b, some c, some d => some (((a * 16 + b) * 16 + c) * 16 + d, rest)
    | _, _, _, _ => none
  | _ => none

/-- Joins two units to the character beyond the basic plane that they stand for. -/
def joinUnits (high low : Nat) : Char :=
  Char.ofNat (0x10000 + (high - 0xD800) * 0x400 + (low - 0xDC00))

/-- A character with a short escape. -/
def shortEscape : Char → Option Char
  | 'n' => some '\n'
  | 't' => some '\t'
  | 'r' => some '\r'
  | 'b' => some (Char.ofNat 8)
  | 'f' => some (Char.ofNat 12)
  | '/' => some '/'
  | '\\' => some '\\'
  | c => if c.toNat = 34 then some c else none

/-- Reads a string up to its closing quote; `high` is a first unit that waits for its second. -/
def readString : (fuel : Nat) → (high : Option Nat) → List Char → List Char → Parsed String
  | 0, _, _, _ => none
  | fuel + 1, high, read, cs =>
    let settled := match high with
      | some _ => Char.ofNat 0xFFFD :: read
      | none => read
    match cs with
    | [] => none
    | '\\' :: 'u' :: rest =>
      match readUnit rest with
      | none => none
      | some (n, rest) =>
        match high with
        | some h =>
          if 0xDC00 ≤ n && n < 0xE000 then readString fuel none (joinUnits h n :: read) rest
          else if 0xD800 ≤ n && n < 0xDC00 then readString fuel (some n) settled rest
          else readString fuel none (Char.ofNat n :: settled) rest
        | none =>
          if 0xD800 ≤ n && n < 0xDC00 then readString fuel (some n) read rest
          else if 0xDC00 ≤ n && n < 0xE000 then
            readString fuel none (Char.ofNat 0xFFFD :: read) rest
          else readString fuel none (Char.ofNat n :: read) rest
    | '\\' :: c :: rest =>
      match shortEscape c with
      | some c => readString fuel none (c :: settled) rest
      | none => none
    | c :: rest =>
      if c.toNat = 34 then some (String.ofList settled.reverse, rest)
      else if c.toNat < 32 then none
      else readString fuel none (c :: settled) rest

/-! ## Numbers -/

/-- The characters that a number may hold. -/
def isNumberChar (c : Char) : Bool :=
  c.isDigit || c = '-' || c = '+' || c = '.' || c = 'e' || c = 'E'

/-- Reads a number. -/
def readNumber (cs : List Char) : Parsed Datum :=
  let text := cs.takeWhile isNumberChar
  let rest := cs.dropWhile isNumberChar
  if text.isEmpty then none
  else if text.all fun c => c.isDigit || c = '-' then
    match Text.Integer.read .decimal text with
    | .ok n => some (.int n, rest)
    | .error _ => none
  else (Decimal.Binary64.read text).map fun x => (.float x, rest)

/-! ## Values -/

/-- The words of JSON and what they stand for. -/
def words : List (List Char × Datum) := [
  ("null".toList, .null), ("true".toList, .bool true), ("false".toList, .bool false),
  ("NaN".toList, .float .nan), ("Infinity".toList, .float (.infinite false)),
  ("-Infinity".toList, .float (.infinite true))]

/-- Reads one of the words, or else a number. -/
def readScalar (cs : List Char) : Parsed Datum :=
  match words.findSome? fun w => (expect w.1 cs).map fun rest => (w.2, rest) with
  | some parsed => some parsed
  | none => readNumber cs

mutual
/-- Reads a value. -/
def readValue : (fuel : Nat) → List Char → Parsed Datum
  | 0, _ => none
  | fuel + 1, cs =>
    match skip cs with
    | [] => none
    | '[' :: rest =>
      match skip rest with
      | ']' :: rest => some (.list [], rest)
      | rest => readItems fuel [] rest
    | '\x7b' :: rest =>
      match skip rest with
      | '\x7d' :: rest => some (.dict [], rest)
      | rest => readEntries fuel [] rest
    | c :: rest =>
      if c.toNat = 34 then (readString (rest.length + 1) none [] rest).map fun (s, r) => (.str s, r)
      else readScalar (c :: rest)

/-- Reads the items of a list up to its end. -/
def readItems : (fuel : Nat) → List Datum → List Char → Parsed Datum
  | 0, _, _ => none
  | fuel + 1, read, cs =>
    match readValue fuel cs with
    | none => none
    | some (v, rest) =>
      match skip rest with
      | ',' :: rest => readItems fuel (v :: read) rest
      | ']' :: rest => some (.list (v :: read).reverse, rest)
      | _ => none

/-- Reads the entries of a mapping up to its end. -/
def readEntries : (fuel : Nat) → List (Datum × Datum) → List Char → Parsed Datum
  | 0, _, _ => none
  | fuel + 1, read, cs =>
    match readValue fuel cs with
    | some (.str key, rest) =>
      match skip rest with
      | ':' :: rest =>
        match readValue fuel rest with
        | none => none
        | some (v, rest) =>
          let read := Datum.insert key v read
          match skip rest with
          | ',' :: rest => readEntries fuel read rest
          | '\x7d' :: rest => some (.dict read, rest)
          | _ => none
      | _ => none
    | _ => none
end

/-- The datum in a JSON text, if it is one. -/
def read? (text : String) : Option Datum :=
  let cs := text.toList
  match readValue (cs.length + 1) cs with
  | some (v, rest) => if (skip rest).isEmpty then some v else none
  | none => none

end BeaconHarness.Json
