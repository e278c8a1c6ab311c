import BeaconHarness.Decimal.Binary64

/-!
# Arithmetic on binary floating-point numbers

Each operation computes on the exact quotients behind its arguments and rounds once, to the nearest
number, so that no intermediate value is lost. Zeros keep their signs. The floor of a quotient is
the exception: it is reached through the rounded remainder and the rounded quotient, each of which
can be off in its last place.

A *magnitude* compares numbers of both sorts, integers and floating-point ones, without rounding
either. Main statement: integers compare as integers (`compare_int`).
-/

namespace BeaconHarness.Decimal

namespace Binary64

/-! ## Exact values -/

/-- The sign bit. -/
def isNegative : Binary64 → Bool
  | nan => false
  | infinite negative | finite negative _ _ => negative

/-- The zero of a sign. -/
def zero (negative : Bool) : Binary64 := finite negative 0 leastExponent

/-- A finite number as an integer over a positive natural number. -/
def quotient? : Binary64 → Option (Int × Nat)
  | finite negative m e =>
    let (n, d) := scaled m 1 (-e)
    some (if negative then -(n : Int) else n, d)
  | _ => none

/-- The number nearest to a quotient; zero has the given sign. -/
def ofQuotient (negativeZero : Bool) (n : Int) (d : Nat) : Binary64 :=
  if n = 0 then zero negativeZero else ofRatio (n < 0) n.natAbs d

/-! ## Sums, products and quotients -/

/-- The number with the other sign. -/
def neg : Binary64 → Binary64
  | nan => nan
  | infinite negative => infinite !negative
  | finite negative m e => finite (!negative) m e

/-- The sum. -/
def add (x y : Binary64) : Binary64 :=
  match x, y with
  | nan, _ | _, nan => nan
  | infinite s, infinite t => if s = t then infinite s else nan
  | infinite s, finite _ _ _ | finite _ _ _, infinite s => infinite s
  | finite _ _ _, finite _ _ _ =>
    match x.quotient?, y.quotient? with
    | some (n, d), some (k, e) =>
      ofQuotient (x.isNegative && y.isNegative) (n * e + k * d) (d * e)
    | _, _ => nan

/-- The difference. -/
def sub (x y : Binary64) : Binary64 := add x y.neg

/-- The product. -/
def mul (x y : Binary64) : Binary64 :=
  let negative := x.isNegative != y.isNegative
  match x, y with
  | nan, _ | _, nan => nan
  | infinite _, z | z, infinite _ => if z.isZero then nan else infinite negative
  | finite _ _ _, finite _ _ _ =>
    match x.quotient?, y.quotient? with
    | some (n, d), some (k, e) => ofQuotient negative (n * k) (d * e)
    | _, _ => nan

/-- The quotient by a number other than zero. -/
def div (x y : Binary64) : Binary64 :=
  let negative := x.isNegative != y.isNegative
  match x, y with
  | nan, _ | _, nan => nan
  | infinite _, infinite _ => nan
  | infinite _, finite _ _ _ => infinite negative
  | finite _ _ _, infinite _ => zero negative
  | finite _ _ _, finite _ _ _ =>
    match x.quotient?, y.quotient? with
    | some (n, d), some (k, e) =>
      ofQuotient negative (if k < 0 then -(n * e) else n * e) (d * k.natAbs)
    | _, _ => nan

/-- What is left of a number behind the whole multiples of another one, with the sign of the first;
the second is not zero. -/
def remainder (x y : Binary64) : Binary64 :=
  match x, y with
  | nan, _ | _, nan | infinite _, _ => nan
  | finite _ _ _, infinite _ => x
  | finite _ _ _, finite _ _ _ =>
    match x.quotient?, y.quotient? with
    | some (n, d), some (k, e) => ofQuotient x.isNegative ((n * e).tmod (k * d)) (d * e)
    | _, _ => nan

/-- The greatest whole number that is not above. -/
def floor (x : Binary64) : Binary64 :=
  match x.quotient? with
  | some (n, d) => ofQuotient x.isNegative (n.fdiv d) 1
  | none => x

/-- The least integer that is not below; `none` of what is not finite. -/
def ceiling? (x : Binary64) : Option Int := x.quotient?.map fun (n, d) => -((-n).fdiv d)

/-- Whether the first number is greater than the second. Nothing is greater than not-a-number. -/
def exceeds (x y : Binary64) : Bool :=
  match sub x y with
  | finite negative m _ => !negative && m ≠ 0
  | infinite negative => !negative
  | nan => false

/-- The quotient rounded down to a whole number; the second number is not zero. -/
def floorDiv (x y : Binary64) : Binary64 :=
  let r := remainder x y
  let q := div (sub x r) y
  -- A remainder of the other sign belongs to the multiple below.
  let q := if !r.isZero && r.isNegative != y.isNegative then sub q (ofInt 1) else q
  if q.isZero then zero (div x y).isNegative
  else
    -- The quotient is nearly whole; what it lacks to the next whole number is rounding.
    let f := floor q
    if exceeds (sub q f) (ofRatio false 1 2) then add f (ofInt 1) else f

end Binary64

/-! ## Magnitudes -/

/-- An integer or a floating-point number. -/
inductive Number where
  | int (n : Int)
  | float (x : Binary64)
  deriving DecidableEq, Repr, Inhabited

namespace Number

/-- The place of a number on the line: at an end, or at an exact quotient. -/
inductive Magnitude where
  | least
  | quotient (n : Int) (d : Nat)
  | greatest
  deriving DecidableEq, Repr

/-- The order of two places. -/
def Magnitude.compare : Magnitude → Magnitude → Ordering
  | least, least | greatest, greatest => .eq
  | least, _ | _, greatest => .lt
  | greatest, _ | _, least => .gt
  | quotient n d, quotient k e => Ord.compare (n * e) (k * d)

/-- The place of a number; not-a-number has none. -/
def magnitude? : Number → Option Magnitude
  | int n => some (.quotient n 1)
  | float .nan => none
  | float (.infinite negative) => some (if negative then .least else .greatest)
  | float x => x.quotient?.map fun (n, d) => .quotient n d

/-- The order of two numbers; `none` if one is not-a-number. -/
def compare (a b : Number) : Option Ordering :=
  match a.magnitude?, b.magnitude? with
  | some p, some q => some (p.compare q)
  | _, _ => none

@[simp] theorem compare_int (n k : Int) : compare (int n) (int k) = some (Ord.compare n k) := by
  simp [compare, magnitude?, Magnitude.compare]

/-- How many of the natural numbers below `room` are less than a number. -/
def countBelow (room : Nat) : Number → Nat
  | int n => min room n.toNat
  | float (.infinite negative) => if negative then 0 else room
  | float x => min room ((x.ceiling?.getD 0).toNat)

end Number

end BeaconHarness.Decimal
