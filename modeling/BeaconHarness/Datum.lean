import BeaconHarness.Calendar
import BeaconHarness.Decimal.Arithmetic
import BeaconHarness.Decimal.Shortest
import BeaconHarness.Fork
import BeaconHarness.Ssz.Value
import BeaconHarness.Text.Quoted

/-!
# Data

A datum is what a configuration file, a node's answer or a caller hands over before it is known to
have the right form: the values of JSON and YAML, byte strings, and values under a schema. A
mapping keeps its entries in the order in which they were given.

Every datum has two texts. The *display* is what stands for it in a path or a message; the *quoted*
text shows it so that a text can be told from a number, and is what an error message repeats.
-/

namespace BeaconHarness

/-- A value of a form not yet checked. -/
inductive Datum where
  | null
  | bool (b : Bool)
  | int (n : Int)
  | float (x : Decimal.Binary64)
  | str (s : String)
  | bytes (b : Bytes)
  | list (items : List Datum)
  | tuple (items : List Datum)
  | dict (entries : List (Datum × Datum))
  | set (items : List Datum)
  /-- A list or mapping in the place where it lies inside itself. -/
  | enclosing (isMapping : Bool)
  | date (d : Calendar.Date)
  | moment (m : Calendar.Moment)
  | ssz (x : Ssz.Object)
  | fork (f : Fork)
  deriving Inhabited

namespace Datum

/-- A mapping from texts. -/
def record (fields : List (String × Datum)) : Datum := dict (fields.map fun f => (str f.1, f.2))

/-- What is there, or null. -/
def orNull {α : Type} (f : α → Datum) : Option α → Datum
  | some a => f a
  | none => null

/-! ## Texts -/

/-- The name of the kind of a datum. -/
def kind : Datum → String
  | null => "NoneType"
  | bool _ => "bool"
  | int _ => "int"
  | float _ => "float"
  | str _ => "str"
  | bytes _ => "bytes"
  | list _ => "list"
  | tuple _ => "tuple"
  | dict _ => "dict"
  | set _ => "set"
  | enclosing isMapping => if isMapping then "dict" else "list"
  | date _ => "date"
  | moment _ => "datetime"
  | ssz x => x.schema.typeName
  | fork _ => "Fork"

/-- The text of a value under a schema: a number in decimal, anything else by its bytes or kind. -/
def objectText (x : Ssz.Object) : String :=
  match x.value with
  | .uint n => toString n
  | .boolean b => if b then "1" else "0"
  | .bytes b => Text.Hex.marked b
  | _ => x.schema.typeName

/-- Texts between brackets, with a comma and a blank between two of them. -/
def enclose (left right : String) (items : List String) : String :=
  left ++ String.intercalate ", " items ++ right

mutual
/-- The text that shows a datum in an error message. -/
def quoted : Datum → String
  | null => "None"
  | bool b => if b then "True" else "False"
  | int n => Text.Integer.decimal n
  | float x => x.text
  | str s => Text.Quoted.ofString s
  | bytes b => Text.Quoted.ofBytes b
  | list items => enclose "[" "]" (quotedAll items)
  | tuple [item] => "(" ++ quoted item ++ ",)"
  | tuple items => enclose "(" ")" (quotedAll items)
  | dict entries => enclose "\x7b" "\x7d" (quotedEntries entries)
  | set [] => "set()"
  | set items => enclose "\x7b" "\x7d" (quotedAll items)
  | enclosing isMapping => if isMapping then "\x7b...\x7d" else "[...]"
  | date d => d.quoted
  | moment m => m.quoted
  | ssz x => objectText x
  | fork f => "<Fork." ++ f.name.toUpper ++ ": " ++ Text.Quoted.ofString f.name ++ ">"

/-- The quoted texts of a list of data. -/
def quotedAll : List Datum → List String
  | [] => []
  | d :: rest => quoted d :: quotedAll rest

/-- The quoted texts of entries. -/
def quotedEntries : List (Datum × Datum) → List String
  | [] => []
  | (k, v) :: rest => (quoted k ++ ": " ++ quoted v) :: quotedEntries rest
end

/-- The text of a datum in a path or a message. -/
def display : Datum → String
  | str s => s
  | fork f => "Fork." ++ f.name.toUpper
  | date d => d.text
  | moment m => m.text
  | d => d.quoted

/-! ## Numbers -/

/-- A number as a datum. -/
def ofNumber : Decimal.Number → Datum
  | .int n => int n
  | .float x => float x

/-- The integer that a datum is: a number without a fraction, or a truth value as one or zero. -/
def exactInteger? : Datum → Option Int
  | int n => some n
  | bool b => some (if b then 1 else 0)
  | ssz ⟨_, .uint n⟩ => some n
  | ssz ⟨_, .boolean b⟩ => some (if b then 1 else 0)
  | _ => none

/-- The number that a datum is. -/
def number? : Datum → Option Decimal.Number
  | float x => some (.float x)
  | d => d.exactInteger?.map .int

/-! ## Truth -/

/-- Whether a datum counts as true: it is not null, false, zero or empty. -/
def truthy : Datum → Bool
  | null => false
  | bool b => b
  | int n => n ≠ 0
  | float x => !x.isZero
  | str s => !s.isEmpty
  | bytes b => !b.isEmpty
  | list items | tuple items | set items => !items.isEmpty
  | dict entries => !entries.isEmpty
  | ssz x =>
    match x.value with
    | .uint n => n ≠ 0
    | .boolean b => b
    | .bytes b => !b.isEmpty
    | .bits bs => !bs.isEmpty
    | .seq vs => !vs.isEmpty
  | fork _ | date _ | moment _ | enclosing _ => true

/-! ## Mappings -/

/-- The value under a text among entries. -/
def lookup (key : String) : List (Datum × Datum) → Option Datum
  | [] => none
  | (str k, v) :: rest => if k = key then some v else lookup key rest
  | _ :: rest => lookup key rest

/-- Puts an entry under a text: in the place of an earlier one, or behind all others. -/
def insert (key : String) (value : Datum) : List (Datum × Datum) → List (Datum × Datum)
  | [] => [(str key, value)]
  | (str k, v) :: rest =>
    if k = key then (str k, value) :: rest else (str k, v) :: insert key value rest
  | entry :: rest => entry :: insert key value rest

end Datum

end BeaconHarness
