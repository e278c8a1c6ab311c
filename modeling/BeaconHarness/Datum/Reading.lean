import BeaconHarness.Failure

/-!
# Reading data

What a datum means as a number, as a byte string, as a mapping or as a list, and which failure
tells that it has no such meaning. A node may answer a number as a decimal text, as a hexadecimal
text behind `0x` or as a number; a byte string is always hexadecimal text.
-/

namespace BeaconHarness

/-- The longest piece of a text that a message repeats. -/
def shownLimit : Nat := 200

/-- The first characters of a quoted text, as many as a message repeats. -/
def shownText (quoted : String) : String := String.ofList (quoted.toList.take shownLimit)

namespace Datum

/-! ## Integers -/

/-- Reads an integer from a text in a base; `shown` is what a message repeats of it. -/
def readInteger (base : Text.Integer.Base) (text : List Char) (shown : String) :
    Except Failure Int :=
  match Text.Integer.read base text with
  | .ok n => .ok n
  | .error .malformed => .error (.unreadable (.literal base.size (shownText shown)))
  | .error (.tooLong digits) => .error (.unreadable (.tooLong digits))

/-- Reads an integer from the ASCII text in a byte string. -/
def readIntegerBytes (b : Bytes) : Except Failure Int :=
  if b.all (· < 128) then
    readInteger .decimal (b.map fun c => Char.ofNat c.toNat) (Text.Quoted.ofBytes b)
  else .error (.unreadable (.literal 10 (shownText (Text.Quoted.ofBytes b))))

/-- The integer that a datum stands for: a number without its fraction, or a decimal text. -/
def plainInteger : Datum → Except Failure Int
  | bool b => .ok (if b then 1 else 0)
  | int n => .ok n
  | float x =>
    match x, x.truncate? with
    | _, some n => .ok n
    | .infinite _, none => .error .outOfRange
    | _, none => .error (.unreadable .other)
  | str s => readInteger .decimal s.toList (Text.Quoted.ofString s)
  | bytes b => readIntegerBytes b
  | ssz x =>
    match x.value with
    | .uint n => .ok n
    | .boolean b => .ok (if b then 1 else 0)
    | .bytes b => readIntegerBytes b
    | _ => .error .wrongKind
  | fork f => .error (.unreadable (.literal 10 (Text.Quoted.ofString f.name)))
  | _ => .error .wrongKind

/-- Whether a text begins with the mark of hexadecimal numbers. -/
def isMarked (text : List Char) : Bool :=
  match text with
  | '0' :: 'x' :: _ => true
  | _ => false

/-- The integer that a datum stands for, with texts behind `0x` read as hexadecimal. -/
def integer : Datum → Except Failure Int
  | str s =>
    if isMarked s.toList then readInteger .hexadecimal s.toList (Text.Quoted.ofString s)
    else plainInteger (str s)
  | d => d.plainInteger

/-! ## Byte strings -/

/-- The bytes of a hexadecimal text. -/
def readHex (text : String) : Except Failure Bytes :=
  match Text.Hex.decode text with
  | .ok b => .ok b
  | .error position => .error (.unreadable (.notHex position))

/-- The failure of asking a datum for a property that it does not have. A container takes the
property for a field. -/
def lack : Datum → Failure
  | ssz ⟨.container _ _, _⟩ => .malformed
  | _ => .noProperty

/-- The bytes of a hexadecimal text with or without its mark. -/
def hexBytes : Datum → Except Failure Bytes
  | str s => readHex (Text.Hex.unmark s)
  | fork f => readHex (Text.Hex.unmark f.name)
  | bytes _ => .error .wrongKind
  | ssz ⟨_, .bytes _⟩ => .error .wrongKind
  | d => .error d.lack

/-- The bytes of a hexadecimal text behind its first two characters, whatever these are. -/
def hexBytesPastMark : Datum → Except Failure Bytes
  | str s => readHex (String.ofList (s.toList.drop 2))
  | _ => .error .wrongKind

/-! ## Mappings and lists -/

/-- The value of an entry that has to be there. A list under a schema refuses a text as a
position. -/
def entry (d : Datum) (key : String) : Except Failure Datum :=
  match d with
  | dict entries =>
    match lookup key entries with
    | some v => .ok v
    | none => .error (.missingKey key)
  | ssz ⟨.container _ _, _⟩ | ssz ⟨_, .bytes _⟩ => .error .wrongKind
  | ssz ⟨_, .seq _⟩ | ssz ⟨_, .bits _⟩ => .error .malformed
  | _ => .error .wrongKind

/-- The value of an entry, or another one if it is not there. Values of several parts under a schema
know entries by position alone. -/
def entryOr (d : Datum) (key : String) (otherwise : Datum) : Except Failure Datum :=
  match d with
  | dict entries => .ok ((lookup key entries).getD otherwise)
  | ssz ⟨_, .seq _⟩ | ssz ⟨_, .bits _⟩ => .error .wrongKind
  | _ => .error .noProperty

/-- The characters of a text, each a text of its own. -/
def characters (s : String) : List Datum := s.toList.map fun c => str (String.ofList [c])

/-- The items of a datum: those of a list or set, the characters of a text, the keys of a mapping,
the numbers of a byte string, the fields of a container. -/
def items : Datum → Except Failure (List Datum)
  | list xs | tuple xs | set xs => .ok xs
  | str s => .ok (characters s)
  | fork f => .ok (characters f.name)
  | dict entries => .ok (entries.map Prod.fst)
  | bytes b => .ok (b.map fun c => int c.toNat)
  | ssz x =>
    match x.value with
    | .bytes b => .ok (b.map fun c => int c.toNat)
    | .seq _ => .ok (x.elements.map ssz)
    | .bits bs => .ok (bs.map bool)
    | _ => .error .wrongKind
  | _ => .error .wrongKind

/-! ## Texts -/

/-- The decimal text of an integer, unless it has too many digits. -/
def decimalText (n : Int) : Except Failure String :=
  if Text.Integer.isTooLong n then .error (.unreadable .other) else .ok (Text.Integer.decimal n)

mutual
/-- Whether a datum holds an integer that has too many digits to be shown. -/
def isTooLong : Datum → Bool
  | int n => Text.Integer.isTooLong n
  | list items | tuple items | set items => anyTooLong items
  | dict entries => anyEntryTooLong entries
  | _ => false

/-- Whether one of some data holds such an integer. -/
def anyTooLong : List Datum → Bool
  | [] => false
  | d :: rest => isTooLong d || anyTooLong rest

/-- Whether one of some entries holds such an integer. -/
def anyEntryTooLong : List (Datum × Datum) → Bool
  | [] => false
  | (k, v) :: rest => isTooLong k || isTooLong v || anyEntryTooLong rest
end

/-- The display of a datum, if it can be shown. -/
def displayed (d : Datum) : Except Failure String :=
  if d.isTooLong then .error (.unreadable .other) else .ok d.display

/-- A datum that can be shown. -/
def shown (d : Datum) : Except Failure Datum :=
  if d.isTooLong then .error (.unreadable .other) else .ok d

/-- The display of a datum, if it can be shown; none for null. -/
def displayedOrNull : Datum → Except Failure (Option String)
  | null => .ok none
  | d => some <$> d.displayed

/-- The hexadecimal text of a byte string or a number, and the display of anything else. -/
def toHex : Datum → String
  | bytes b => Text.Hex.marked b
  | bool b => if b then "0x1" else "0x0"
  | int n => Text.Integer.hexadecimal n
  | ssz ⟨_, .bytes b⟩ => Text.Hex.marked b
  | ssz ⟨_, .uint n⟩ => Text.Integer.hexadecimal n
  | ssz ⟨_, .boolean b⟩ => if b then "0x1" else "0x0"
  | d => d.display

/-- The text of a block, state or validator id in a path. -/
def pathText : Datum → String
  | bytes b => Text.Hex.marked b
  | ssz ⟨_, .bytes b⟩ => Text.Hex.marked b
  | d => d.display

/-- The texts of ids with commas between them; none for null. -/
def joinIds : Datum → Except Failure (Option String)
  | null => .ok none
  | d => do
    let ids ← (← d.items).mapM shown
    return some (String.intercalate "," (ids.map pathText))

end Datum

/-! ## Abbreviation -/

/-- Texts of at most this many characters are shown whole. -/
def wholeLimit : Nat := 12

/-- The first six and the last four items of a list that is too long to be shown whole. -/
def abbreviate {α : Type} (items : List α) : Option (List α × List α) :=
  if items.length ≤ wholeLimit then none else some (items.take 6, items.drop (items.length - 4))

/-- A text abbreviated to its first six and last four characters. -/
def shortenText (s : String) : String :=
  match abbreviate s.toList with
  | none => s
  | some (first, last) => String.ofList first ++ ".." ++ String.ofList last

/-- The abbreviated hexadecimal text of a byte string, as it stands in log lines. -/
def shortenBytes (b : Bytes) : String := shortenText (Text.Hex.marked b)

/-- A text, the text of a byte string, or a list, abbreviated when it is too long. A list under a
schema has no abbreviation. -/
def Datum.shorten : Datum → Except Failure Datum
  | .bytes b => .ok (.str (shortenBytes b))
  | .ssz x =>
    match x.schema, x.value with
    | _, .bytes b => .ok (.str (shortenBytes b))
    | _, .bits bs => if bs.length ≤ wholeLimit then .ok (.ssz x) else .error .malformed
    | .container _ _, .seq _ => .error .wrongKind
    | _, .seq vs => if vs.length ≤ wholeLimit then .ok (.ssz x) else .error .malformed
    | _, _ => .error .wrongKind
  | .str s => .ok (.str (shortenText s))
  | .fork f => .ok (.fork f)
  | .list xs =>
    match abbreviate xs with
    | none => .ok (.list xs)
    | some (first, last) =>
      .ok (.str ((Datum.list first).display ++ ".." ++ (Datum.list last).display))
  | .tuple xs =>
    match abbreviate xs with
    | none => .ok (.tuple xs)
    | some (first, last) =>
      .ok (.str ((Datum.tuple first).display ++ ".." ++ (Datum.tuple last).display))
  | .dict entries => if entries.length ≤ wholeLimit then .ok (.dict entries) else .error .wrongKind
  | _ => .error .wrongKind

end BeaconHarness
