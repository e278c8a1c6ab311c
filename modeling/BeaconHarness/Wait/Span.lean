import BeaconHarness.Datum.Arithmetic
import BeaconHarness.Wait.Work

/-!
# Lengths of time

Callers give lengths of time in seconds, as numbers of any sort. A clock counts ticks, of which a
second has so many that every floating-point number of seconds is a whole number of them. A sleep
ends at an instant that such a number shows, the one nearest to its beginning and length together.
What is shown of an instant is rounded once more, to milliseconds; a message shows a length as the
caller gave it.

Sums of lengths that are equal on paper can differ in their last place. A deadline therefore has the
resolution of the clock as its leeway: a sleep that ends together with it is not survived, whichever
of the two comes out a little earlier.

Whether a length is a number is noticed only where the time is to pass.
-/

namespace BeaconHarness

open Decimal (Binary64)

/-! ## Ticks -/

/-- How many ticks a second has: the least floating-point number of seconds is one tick. -/
def ticksPerSecond : Nat := Nat.pow 2 1074

/-- The ticks in a number of seconds. An infinite length is longer than any other one. -/
def Decimal.Binary64.ticks? : Binary64 → Option Int
  | .nan => none
  | .infinite negative =>
    let ticks : Int := Nat.pow 2 2098
    some (if negative then -ticks else ticks)
  | .finite negative m e =>
    let ticks : Int := m * Nat.pow 2 (e - Binary64.leastExponent).toNat
    some (if negative then -ticks else ticks)

/-- The floating-point number of seconds nearest to a number of ticks. -/
def secondsOfTicks (ticks : Int) : Binary64 := Binary64.ofQuotient false ticks ticksPerSecond

/-- An instant in milliseconds, as it is shown. -/
def millisecondsOfTicks (ticks : Nat) : Nat :=
  match ((secondsOfTicks ticks).mul (Binary64.ofInt 1000)).quotient? with
  | some (n, d) => Binary64.roundDiv n.natAbs d
  | none => 0

/-- The instant nearest to a number of ticks that a floating-point number of seconds shows. -/
def nearestInstant (ticks : Nat) : Nat := ((secondsOfTicks ticks).ticks?.getD 0).toNat

/-- The most ticks by which two instants may differ that the clock takes for one: less than a
billionth of a second. -/
def clockLeeway : Nat := ((Binary64.ofDecimal false 1 (-9)).ticks?.getD 0).toNat - 1

namespace Datum

/-- A number of seconds in ticks. -/
def ticks (d : Datum) : Except Failure Int :=
  match d.number? with
  | none => .error .wrongKind
  | some x => do
    let seconds ← match x with
      | .int n => toFloat n
      | .float x => pure x
    match seconds.ticks? with
    | some n => return n
    | none => .error (.unreadable .other)

/-- A length of time in ticks; a length below zero counts as none. -/
def span (d : Datum) : Except Failure Nat := d.ticks.map Int.toNat

/-- A deadline in seconds; null sets none. -/
def limit : Datum → Except Failure (Option Work.Limit)
  | null => .ok none
  | d => d.span.map fun n => some ⟨n, d.display, clockLeeway⟩

end Datum

namespace Work

variable {σ ν : Type}

/-- Sleeps for a number of seconds, up to the instant nearest to its end. -/
def sleepFor (d : Datum) : Work σ ν Unit :=
  match d.span with
  | .ok 0 => sleep 0
  | .ok length => do
    let now ← clock
    sleep (nearestInstant (now + length) - now)
  | .error e => fail e

/-- Sleeps for a number of seconds, unless there is none. -/
def pause (d : Datum) : Work σ ν Unit := if d.truthy then sleepFor d else done ()

end Work

end BeaconHarness
