import BeaconHarness.Decimal.Binary64
import BeaconHarness.Text.Blank
import BeaconHarness.Text.Integer

/-!
# Shortest decimals

A finite binary number is shown by the fewest decimal digits that read back as the same number,
and among those by the digits nearest to it. The reals that round to a number form an interval
around it, closed exactly when the significand is even; on the grid of decimals with a given
count of digits only the two neighbours of the number need to be tried.

The layout writes the digits positionally when the point falls from three places before the first
digit to sixteen places behind it, and otherwise with an exponent of at least two digits.
-/

namespace BeaconHarness.Decimal

/-- A positive decimal: its digits `0.d₁d₂…` times ten to the power `point`. -/
structure Digits where
  digits : List Nat
  point : Int
  deriving DecidableEq, Repr

namespace Shortest

/-- A magnitude on the common grid: four times the number and the ends of its rounding
interval, over one denominator. -/
structure Interval where
  low : Nat
  value : Nat
  high : Nat
  den : Nat
  closed : Bool

/-- The interval of the reals that round to `significand * 2 ^ exponent`. Below a power of two
the neighbours are closer by half. -/
def interval (significand : Nat) (exponent : Int) : Interval :=
  -- Below the least normal significand numbers lie twice as close, except at the least exponent.
  let narrow := significand = Nat.pow 2 52 && Binary64.leastExponent < exponent
  let low := if narrow then 4 * significand - 1 else 4 * significand - 2
  let closed := significand % 2 = 0
  if 0 ≤ exponent then
    let p := Nat.pow 2 exponent.toNat
    ⟨low * p, 4 * significand * p, (4 * significand + 2) * p, 4, closed⟩
  else ⟨low, 4 * significand, 4 * significand + 2, 4 * Nat.pow 2 (-exponent).toNat, closed⟩

/-- Whether the interval contains `n / d`. -/
def Interval.contains (i : Interval) (n d : Nat) : Bool :=
  let x := n * i.den
  if i.closed then i.low * d ≤ x && x ≤ i.high * d else i.low * d < x && x < i.high * d

/-- A decimal grid: the multiples of ten to the power `step`. -/
def gridPoint (n : Nat) (step : Int) : Nat × Nat :=
  if 0 ≤ step then (n * Nat.pow 10 step.toNat, 1) else (n, Nat.pow 10 (-step).toNat)

/-- The last multiple of ten to the power `step` at or below the value. -/
def below (i : Interval) (step : Int) : Nat :=
  if 0 ≤ step then i.value / (i.den * Nat.pow 10 step.toNat)
  else i.value * Nat.pow 10 (-step).toNat / i.den

/-- The neighbour on a grid that lies in the interval; of two the nearer, of two equally near the
even one. -/
def onGrid (i : Interval) (step : Int) : Option Nat :=
  let n := below i step
  let (ln, ld) := gridPoint n step
  let (hn, hd) := gridPoint (n + 1) step
  let lowIn := 0 < n && i.contains ln ld
  let highIn := i.contains hn hd
  if lowIn && highIn then
    -- Both distances are over the same denominator, since the grid is the same.
    let down := i.value * ld - ln * i.den
    let up := hn * i.den - i.value * hd
    if down < up || (down = up && n % 2 = 0) then some n else some (n + 1)
  else if lowIn then some n
  else if highIn then some (n + 1)
  else none

/-- Where the decimal point stands behind the first digit of a value. -/
def pointOf (i : Interval) : Int :=
  let rec settle : Nat → Int → Int
    | 0, p => p
    | fuel + 1, p =>
      let (n, d) := gridPoint 1 p
      if n * i.den ≤ i.value * d then settle fuel (p + 1)
      else
        let (n', d') := gridPoint 1 (p - 1)
        if i.value * d' < n' * i.den then settle fuel (p - 1) else p
  -- The binary logarithms give the point nearly; 30103 / 100000 is about log 2.
  settle 8 (((Nat.log2 i.value : Int) - (Nat.log2 i.den : Int)) * 30103 / 100000)

/-- The digits of the first grid, from `count` digits on, that has a point in the interval. -/
def search (i : Interval) (point : Int) : (fuel count : Nat) → Nat × Int
  | 0, count => (below i (point - count), point - count)
  | fuel + 1, count =>
    match onGrid i (point - count) with
    | some n => (n, point - count)
    | none => search i point fuel (count + 1)

/-- The shortest digits of a positive finite number. -/
def digits (significand : Nat) (exponent : Int) : Digits :=
  let i := interval significand exponent
  let (n, step) := search i (pointOf i) 17 1
  let all := (toString n).toList.map fun c => c.toNat - 48
  let kept := (all.reverse.dropWhile (· = 0)).reverse
  ⟨kept, all.length + step⟩

end Shortest

/-! ## Layout -/

/-- The text of a decimal digit. -/
def digitText (d : Nat) : Char := Char.ofNat (48 + d)

/-- The text of a positive decimal: positional with at least one place when the point stands from
three places before the first digit to sixteen behind it, with an exponent otherwise. -/
def Digits.text (x : Digits) : String :=
  let ds := x.digits.map digitText
  if -3 ≤ x.point ∧ x.point ≤ 16 then
    if x.point ≤ 0 then String.ofList ('0' :: '.' :: (List.replicate (-x.point).toNat '0' ++ ds))
    else if ds.length ≤ x.point.toNat then
      String.ofList (ds ++ List.replicate (x.point.toNat - ds.length) '0' ++ ['.', '0'])
    else String.ofList (ds.take x.point.toNat ++ '.' :: ds.drop x.point.toNat)
  else
    let e := x.point - 1
    let size := toString e.natAbs
    let mark := if e < 0 then "e-" else "e+"
    let exponent := mark ++ (if size.length < 2 then "0" ++ size else size)
    match ds with
    | [] => exponent
    | [d] => String.ofList [d] ++ exponent
    | d :: rest => String.ofList (d :: '.' :: rest) ++ exponent

/-- The text of a number: its shortest decimal, or the words `inf` and `nan`. -/
def Binary64.text : Binary64 → String
  | .nan => "nan"
  | .infinite negative => if negative then "-inf" else "inf"
  | .finite negative m e =>
    let magnitude := if m = 0 then "0.0" else (Shortest.digits m e).text
    if negative then "-" ++ magnitude else magnitude

/-! ## Reading -/

/-- Splits a text into its leading decimal digits, with single underscores allowed between them,
and the rest. `none` if an underscore stands elsewhere in the run. -/
def digitRun (text : List Char) : Option (List Nat × List Char) :=
  Text.Integer.digitRun .decimal false [] text

/-- The exponent part of a decimal text: the letter, an optional sign and digits to its end. -/
def readExponent : List Char → Option Int
  | [] => some 0
  | c :: rest =>
    if c = 'e' || c = 'E' then
      let (negative, body) := Text.Integer.splitSign rest
      match digitRun body with
      | some (ds, []) =>
        if ds.isEmpty then none
        else
          let n : Int := Text.Integer.ofDigits .decimal ds
          some (if negative then -n else n)
      | _ => none
    else none

/-- Reads an unsigned decimal: digits, an optional fraction and an optional exponent. -/
def readMagnitude (negative : Bool) (text : List Char) : Option Binary64 :=
  match digitRun text with
  | none => none
  | some (whole, rest) =>
    let fraction := match rest with
      | '.' :: tail => digitRun tail
      | _ => some ([], rest)
    match fraction with
    | none => none
    | some (places, rest) =>
      if whole.isEmpty && places.isEmpty then none
      else (readExponent rest).map fun e =>
        Binary64.ofDecimal negative (Text.Integer.ofDigits .decimal (whole ++ places))
          (e - places.length)

/-- Reads a number from a text: a decimal, or one of the words for infinity and not-a-number, in
any letter case, with an optional sign and blanks at both ends. -/
def Binary64.read (text : List Char) : Option Binary64 :=
  let body := (Text.Integer.toAscii text).dropWhile Text.isAsciiBlank
  let body := (body.reverse.dropWhile Text.isAsciiBlank).reverse
  let (negative, body) := Text.Integer.splitSign body
  let word := String.ofList (body.map Char.toLower)
  if word = "inf" || word = "infinity" then some (.infinite negative)
  else if word = "nan" then some .nan
  else readMagnitude negative body

end BeaconHarness.Decimal
