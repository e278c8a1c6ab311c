import BeaconHarness.Text.Hex
import BeaconHarness.Text.Printable

/-!
# Quoted text

How a text or a byte string is shown inside an error message: between single quotes, or between
double quotes when it holds a single quote and no double one. The quote in use, the backslash and
the three common controls are escaped by a backslash, everything that is not printable by its
code point in two, four or eight hexadecimal digits.
-/

namespace BeaconHarness.Text.Quoted

/-- The single quote. -/
def single : Char := Char.ofNat 39

/-- The double quote. -/
def double : Char := Char.ofNat 34

/-- The last `width` hexadecimal digits of a number. -/
def hexDigits (width n : Nat) : List Char :=
  (List.range width).reverse.map fun i => Hex.digit (n >>> (4 * i) % 16)

/-- The escape of a code point: `\x`, `\u` or `\U` with as many digits as it needs. -/
def codePoint (n : Nat) : List Char :=
  if n < 0x100 then '\\' :: 'x' :: hexDigits 2 n
  else if n < 0x10000 then '\\' :: 'u' :: hexDigits 4 n
  else '\\' :: 'U' :: hexDigits 8 n

/-- The quote that encloses a text. -/
def quoteFor (text : List Char) : Char :=
  if text.contains single && !text.contains double then double else single

/-- What stands for one character between two quotes `quote`. -/
def escape (isShown : Char → Bool) (quote c : Char) : List Char :=
  if c = quote || c = '\\' then ['\\', c]
  else if c = '\t' then ['\\', 't']
  else if c = '\n' then ['\\', 'n']
  else if c = '\r' then ['\\', 'r']
  else if isShown c then [c]
  else codePoint c.toNat

/-- A text between quotes. -/
def ofChars (text : List Char) : List Char :=
  let quote := quoteFor text
  quote :: (text.flatMap (escape isPrintable quote) ++ [quote])

/-- A text between quotes. -/
def ofString (text : String) : String := String.ofList (ofChars text.toList)

/-- A byte string between quotes, each byte shown as the ASCII character it is, if printable. -/
def ofBytes (bytes : Bytes) : String :=
  let text := bytes.map fun b => Char.ofNat b.toNat
  let quote := quoteFor text
  let shown := fun c : Char => 32 ≤ c.toNat && c.toNat < 127
  String.ofList ('b' :: quote :: (text.flatMap (escape shown quote) ++ [quote]))

end BeaconHarness.Text.Quoted
