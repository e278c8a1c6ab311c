import BeaconHarness.Calendar

/-!
# Timestamps

A timestamp is a date, or a date and a time of day with hyphens and colons between the numbers. The
two are parted by the letter T or by blanks; a fraction of the second and a zone may follow. A date
alone is taken for a timestamp only if all its digits are written.
-/

namespace BeaconHarness.Yaml.Timestamp

open Calendar (Date Moment)

/-! ## Parts -/

/-- Reads a number of at least `least` and at most `most` digits. -/
def readNumber (least most : Nat) (text : List Char) : Option (Nat × List Char) :=
  let digits := (text.take most).takeWhile Char.isDigit
  if digits.length < least then none
  else some (digits.foldl (fun n c => 10 * n + (c.toNat - 48)) 0, text.drop digits.length)

/-- Reads a number behind a mark. -/
def readMarked (mark : Char) (least most : Nat) (text : List Char) : Option (Nat × List Char) :=
  match text with
  | c :: rest => if c = mark then readNumber least most rest else none
  | [] => none

/-- Reads a date. -/
def readDate (text : List Char) : Option (Date × List Char) := do
  let (year, rest) ← readNumber 4 4 text
  let (month, rest) ← readMarked '-' 1 2 rest
  let (day, rest) ← readMarked '-' 1 2 rest
  return (⟨year, month, day⟩, rest)

/-- The place behind the letter or the blanks in front of a time of day. -/
def dropParting (text : List Char) : Option (List Char) :=
  match text with
  | c :: rest =>
    if c = 'T' || c = 't' then some rest
    else if c = ' ' || c = '\t' then some (rest.dropWhile fun c => c = ' ' || c = '\t')
    else none
  | [] => none

/-- Reads a fraction of a second, in microseconds. Further digits are passed over. -/
def readFraction (text : List Char) : Nat × List Char :=
  match text with
  | '.' :: rest =>
    let digits := rest.takeWhile Char.isDigit
    let places := (digits ++ List.replicate 6 '0').take 6
    (places.foldl (fun n c => 10 * n + (c.toNat - 48)) 0, rest.drop digits.length)
  | text => (0, text)

/-- Reads a zone to the end of the text, in seconds ahead of universal time; none if nothing is
left. -/
def readZone (text : List Char) : Option (Option Int) :=
  match text, text.dropWhile (fun c => c = ' ' || c = '\t') with
  | [], _ => some none
  | _, ['Z'] => some (some 0)
  | _, c :: rest =>
    if c ≠ '+' && c ≠ '-' then none
    else do
      let (hours, rest) ← readNumber 1 2 rest
      let (minutes, rest) ← if rest.isEmpty then some (0, []) else readMarked ':' 2 2 rest
      let ahead : Int := 3600 * hours + 60 * minutes
      if rest.isEmpty then return some (if c = '-' then -ahead else ahead) else none
  | _, [] => none

/-! ## Timestamps -/

/-- A timestamp as it is written, whether or not its numbers are those of the calendar. -/
inductive Written where
  | date (d : Date)
  | moment (m : Moment)
  deriving DecidableEq, Repr

/-- Reads a timestamp. -/
def read (text : List Char) : Option Written := do
  let (date, rest) ← readDate text
  if rest.isEmpty then return .date date
  else
    let rest ← dropParting rest
    let (hour, rest) ← readNumber 1 2 rest
    let (minute, rest) ← readMarked ':' 2 2 rest
    let (second, rest) ← readMarked ':' 2 2 rest
    let (microsecond, rest) := readFraction rest
    let ahead ← readZone rest
    return .moment ⟨date, hour, minute, second, microsecond, ahead⟩

/-- The length of a date with all its digits. -/
def dateLength : Nat := 10

/-- Whether a plain text is a timestamp. -/
def isTimestamp (text : List Char) : Bool :=
  match read text with
  | some (.date _) => text.length = dateLength
  | some (.moment _) => true
  | none => false

end BeaconHarness.Yaml.Timestamp
