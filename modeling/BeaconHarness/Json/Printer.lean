import BeaconHarness.Datum

/-!
# JSON output

A datum as one line of JSON: no blanks, the entries of a mapping in ascending order of their keys,
and every character beyond printable ASCII escaped, those beyond the basic plane as two units.
-/

namespace BeaconHarness.Json

/-- The escape of a sixteen-bit unit. -/
def unitEscape (n : Nat) : List Char := '\\' :: 'u' :: Text.Quoted.hexDigits 4 n

/-- What stands for a character between double quotes. -/
def escape (c : Char) : List Char :=
  let n := c.toNat
  if n = 34 then ['\\', c]
  else if c = '\\' then ['\\', '\\']
  else if c = '\n' then ['\\', 'n']
  else if c = '\r' then ['\\', 'r']
  else if c = '\t' then ['\\', 't']
  else if n = 8 then ['\\', 'b']
  else if n = 12 then ['\\', 'f']
  else if 32 ≤ n && n < 127 then [c]
  else if n < 0x10000 then unitEscape n
  else
    let m := n - 0x10000
    unitEscape (0xD800 + m / 0x400) ++ unitEscape (0xDC00 + m % 0x400)

/-- A text between double quotes. -/
def quote (s : String) : String :=
  let mark := Text.Quoted.double
  String.ofList (mark :: (s.toList.flatMap escape ++ [mark]))

mutual
/-- The JSON text of a datum. What JSON does not know is written by its display. -/
def print : Datum → String
  | .null => "null"
  | .bool b => if b then "true" else "false"
  | .int n => Text.Integer.decimal n
  | .float x => x.text
  | .str s => quote s
  | .list xs | .tuple xs => "[" ++ String.intercalate "," (printAll xs) ++ "]"
  | .dict entries =>
    let sorted := (printEntries entries).mergeSort fun a b => a.1 ≤ b.1
    "\x7b" ++ String.intercalate "," (sorted.map fun e => quote e.1 ++ ":" ++ e.2) ++ "\x7d"
  | d => quote d.display

/-- The JSON texts of data. -/
def printAll : List Datum → List String
  | [] => []
  | d :: rest => print d :: printAll rest

/-- The keys of entries with the JSON texts of their values. -/
def printEntries : List (Datum × Datum) → List (String × String)
  | [] => []
  | (k, v) :: rest => (k.display, print v) :: printEntries rest
end

end BeaconHarness.Json
