/-!
# Dates and times of day

A date of the Gregorian calendar from the year 1 to the year 9999, and a moment: a date with a time
of day in microseconds and, if it is known, the distance of its zone from universal time.

Both have a plain text, as a person writes them, and a quoted text, which spells out the parts.
-/

namespace BeaconHarness.Calendar

/-- A number in decimal, with zeros in front up to a width. -/
def padded (width n : Nat) : String :=
  let digits := toString n
  String.ofList (List.replicate (width - digits.length) '0') ++ digits

/-! ## Dates -/

/-- A date. -/
structure Date where
  year : Nat
  month : Nat
  day : Nat
  deriving DecidableEq, Repr, Inhabited

/-- Whether a year has a leap day. -/
def isLeap (year : Nat) : Bool := year % 4 = 0 && (year % 100 ≠ 0 || year % 400 = 0)

/-- The number of days of a month. -/
def daysIn (year month : Nat) : Nat :=
  if month = 2 then (if isLeap year then 29 else 28)
  else if [4, 6, 9, 11].contains month then 30
  else 31

/-- Whether a date is one of the calendar. -/
def Date.isValid (d : Date) : Bool :=
  1 ≤ d.year && d.year ≤ 9999 && 1 ≤ d.month && d.month ≤ 12 && 1 ≤ d.day
    && d.day ≤ daysIn d.year d.month

/-- The text of a date. -/
def Date.text (d : Date) : String :=
  padded 4 d.year ++ "-" ++ padded 2 d.month ++ "-" ++ padded 2 d.day

/-- The parts of a date, largest first. -/
def Date.parts (d : Date) : List Nat := [d.year, d.month, d.day]

/-- Numbers with a comma and a blank between two of them. -/
def commaSeparated (parts : List Nat) : String := String.intercalate ", " (parts.map toString)

/-- The quoted text of a date. -/
def Date.quoted (d : Date) : String := "datetime.date(" ++ commaSeparated d.parts ++ ")"

/-! ## Moments -/

/-- A date and a time of day, with the seconds by which its zone is ahead of universal time. -/
structure Moment where
  date : Date
  hour : Nat
  minute : Nat
  second : Nat
  microsecond : Nat := 0
  ahead : Option Int := none
  deriving DecidableEq, Repr, Inhabited

/-- The seconds of a day. -/
def secondsPerDay : Nat := 86400

namespace Moment

/-- Whether date and time of day are valid, and the zone is less than a day ahead or behind. -/
def isValid (m : Moment) : Bool :=
  m.date.isValid && m.hour < 24 && m.minute < 60 && m.second < 60 && m.microsecond < 1000000
    && match m.ahead with
      | none => true
      | some n => n.natAbs < secondsPerDay

/-- The text of a zone: a sign, hours and minutes, and seconds if there are any. -/
def zoneText (ahead : Int) : String :=
  let n := ahead.natAbs
  (if ahead < 0 then "-" else "+") ++ padded 2 (n / 3600) ++ ":" ++ padded 2 (n / 60 % 60)
    ++ (if n % 60 = 0 then "" else ":" ++ padded 2 (n % 60))

/-- The text of a moment, with a fraction of the second only if there is one. -/
def text (m : Moment) : String :=
  m.date.text ++ " " ++ padded 2 m.hour ++ ":" ++ padded 2 m.minute ++ ":" ++ padded 2 m.second
    ++ (if m.microsecond = 0 then "" else "." ++ padded 6 m.microsecond)
    ++ ((m.ahead.map zoneText).getD "")

/-- The quoted text of a zone: a number of days, rounded down, and the seconds beyond them. -/
def zoneQuoted (ahead : Int) : String :=
  if ahead = 0 then "datetime.timezone.utc"
  else
    let seconds := (ahead.fmod secondsPerDay).toNat
    let parts := (if ahead < 0 then ["days=-1"] else [])
      ++ (if seconds = 0 then [] else ["seconds=" ++ toString seconds])
    "datetime.timezone(datetime.timedelta(" ++ String.intercalate ", " parts ++ "))"

/-- The quoted text of a moment, without seconds and microseconds if both are zero. -/
def quoted (m : Moment) : String :=
  let fine := if m.microsecond ≠ 0 then [m.second, m.microsecond]
    else if m.second ≠ 0 then [m.second] else []
  "datetime.datetime(" ++ commaSeparated (m.date.parts ++ [m.hour, m.minute] ++ fine)
    ++ ((m.ahead.map fun n => ", tzinfo=" ++ zoneQuoted n).getD "") ++ ")"

end Moment

end BeaconHarness.Calendar
