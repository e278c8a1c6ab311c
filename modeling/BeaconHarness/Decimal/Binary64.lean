/-!
# Binary floating-point numbers of sixty-four bits

A number is kept as its sign, its significand and its exponent, so that everything said about it
is said in integers. A finite number is `significand * 2 ^ exponent` with a significand below
`2 ^ 53` and an exponent from -1074 to 971; it is normal when the significand has all fifty-three
bits, and otherwise has the least exponent.

The main operation rounds a quotient of two natural numbers to the nearest such number, a tie
going to the even significand.
-/

namespace BeaconHarness.Decimal

/-- A binary floating-point number of sixty-four bits. -/
inductive Binary64 where
  | nan
  | infinite (negative : Bool)
  /-- The number `significand * 2 ^ exponent`, negated if `negative`. -/
  | finite (negative : Bool) (significand : Nat) (exponent : Int)
  deriving DecidableEq, Repr, Inhabited

namespace Binary64

/-- The least exponent. -/
def leastExponent : Int := -1074

/-- The greatest exponent. -/
def greatestExponent : Int := 971

/-- `num / den * 2 ^ (- e)` as a quotient of natural numbers. -/
def scaled (num den : Nat) (e : Int) : Nat × Nat :=
  if 0 ≤ e then (num, den * Nat.pow 2 e.toNat) else (num * Nat.pow 2 (-e).toNat, den)

/-- The quotient rounded to the nearest integer, a tie going to the even one. -/
def roundDiv (num den : Nat) : Nat :=
  let q := num / den
  let twice := 2 * (num % den)
  if twice > den || (twice = den && q % 2 = 1) then q + 1 else q

/-- The exponent at which a quotient has a significand of fifty-three bits, but at least the
least exponent. -/
def exponentFor (num den : Nat) : Int :=
  let guess := max leastExponent ((Nat.log2 num : Int) - (Nat.log2 den : Int) - 53)
  let (n, d) := scaled num den guess
  if Nat.pow 2 53 ≤ n / d then guess + 1 else guess

/-- The number nearest to a quotient. -/
def ofRatio (negative : Bool) (num den : Nat) : Binary64 :=
  if num = 0 then .finite negative 0 leastExponent
  else
    let e := exponentFor num den
    let (n, d) := scaled num den e
    let m := roundDiv n d
    let (m, e) := if m = Nat.pow 2 53 then (Nat.pow 2 52, e + 1) else (m, e)
    if greatestExponent < e then .infinite negative else .finite negative m e

/-- The number nearest to `digits * 10 ^ exponent`. A magnitude far outside the range is decided
by its decimal length alone. -/
def ofDecimal (negative : Bool) (digits : Nat) (exponent : Int) : Binary64 :=
  if digits = 0 then .finite negative 0 leastExponent
  else
    let length : Int := (Nat.log2 digits : Int) / 4 + exponent
    if 400 < length then .infinite negative
    else if (Nat.log2 digits : Int) + 1 + exponent < -400 then .finite negative 0 leastExponent
    else if 0 ≤ exponent then ofRatio negative (digits * Nat.pow 10 exponent.toNat) 1
    else ofRatio negative digits (Nat.pow 10 (-exponent).toNat)

/-- The number nearest to an integer. -/
def ofInt (n : Int) : Binary64 := ofRatio (n < 0) n.natAbs 1

/-- The integer part, toward zero; `none` of what is not finite. -/
def truncate? : Binary64 → Option Int
  | finite negative m e =>
    let magnitude := if 0 ≤ e then m * Nat.pow 2 e.toNat else m / Nat.pow 2 (-e).toNat
    some (if negative then -(magnitude : Int) else magnitude)
  | _ => none

/-- Whether the number is a zero of either sign. -/
def isZero : Binary64 → Bool
  | finite _ 0 _ => true
  | _ => false

end Binary64

end BeaconHarness.Decimal
