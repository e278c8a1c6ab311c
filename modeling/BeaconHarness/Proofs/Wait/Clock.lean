import BeaconHarness.Wait.Span
import Mathlib.Algebra.Order.Ring.Nat

/-!
# What the clock can tell apart

The end of a sleep is an instant that a floating-point number of seconds shows. Rounding to such a
number keeps fifty-three binary digits, so that a sleep is lost in it only if it starts later than
so many of its own lengths after the beginning of time, or beyond the greatest number of seconds.

Main statement: a sleep moves the clock at every instant up to `2 ^ 52` times its length
(`movesBefore_of_le`).
-/

namespace BeaconHarness

namespace Decimal.Binary64

/-! ## Rounded quotients -/

theorem roundDiv_mul_right (n d : Nat) {c : Nat} (hc : 0 < c) :
    roundDiv (n * c) (d * c) = roundDiv n d := by
  have hquotient : n * c / (d * c) = n / d := Nat.mul_div_mul_right n d hc
  have hremainder : 2 * (n * c % (d * c)) = 2 * (n % d) * c := by
    rw [Nat.mul_mod_mul_right, Nat.mul_assoc]
  have hgreater : 2 * (n % d) * c > d * c ↔ 2 * (n % d) > d := Nat.mul_lt_mul_right hc
  have hequal : 2 * (n % d) * c = d * c ↔ 2 * (n % d) = d := Nat.mul_left_inj (by omega)
  simp only [roundDiv, hquotient, hremainder, hgreater, hequal]

/-- A rounded quotient falls short by at most one half. -/
theorem le_roundDiv (n : Nat) {d : Nat} (hd : 0 < d) : 2 * n ≤ 2 * (roundDiv n d * d) + d := by
  have hsum : d * (n / d) + n % d = n := Nat.div_add_mod n d
  have hcomm : n / d * d = d * (n / d) := Nat.mul_comm _ _
  have hlt := Nat.mod_lt n hd
  rw [roundDiv]
  split
  · have hsucc : (n / d + 1) * d = n / d * d + d := Nat.succ_mul _ _
    omega
  next hnear =>
    simp only [Bool.or_eq_true, decide_eq_true_eq, not_or, Nat.not_lt] at hnear
    omega

/-! ## Numbers of seconds -/

section Ticks

variable (ticks : Nat)

/-- A quotient by a power of two, scaled to an exponent, is one by the power that is left. -/
theorem scaled_two_pow (p k : Nat) :
    ∃ c, 0 < c ∧ scaled ticks (Nat.pow 2 p) ((k : Int) - p) = (ticks * c, 2 ^ k * c) := by
  by_cases hle : p ≤ k
  · refine ⟨1, Nat.one_pos, ?_⟩
    have hexponent : ((k : Int) - p).toNat = k - p := by omega
    rw [scaled, if_pos (by omega), hexponent, Nat.mul_one, Nat.mul_one]
    show (ticks, 2 ^ p * 2 ^ (k - p)) = _
    rw [← Nat.pow_add, Nat.add_sub_cancel' hle]
  · refine ⟨2 ^ (p - k), Nat.two_pow_pos _, ?_⟩
    have hexponent : (-((k : Int) - p)).toNat = p - k := by omega
    rw [scaled, if_neg (by omega), hexponent, ← Nat.pow_add, show k + (p - k) = p by omega]
    rfl

/-- The last binary digit that is kept of a number of ticks leaves at least fifty-two before it,
unless it is that of a single tick. -/
theorem exists_exponentFor {p : Nat} (hp : leastExponent = -(p : Int)) (hticks : ticks ≠ 0) :
    ∃ k : Nat, exponentFor ticks (Nat.pow 2 p) = (k : Int) - p
      ∧ (k = 0 ∨ 2 ^ (k + 52) ≤ ticks) := by
  have hself := Nat.log2_self_le hticks
  have hlog : Nat.log2 (Nat.pow 2 p) = p := Nat.log2_two_pow
  have hguess : max leastExponent ((Nat.log2 ticks : Int) - (Nat.log2 (Nat.pow 2 p) : Int) - 53)
      = ((Nat.log2 ticks - 53 : Nat) : Int) - p := by
    rw [hlog, hp]
    omega
  obtain ⟨c, hc, hscaled⟩ := scaled_two_pow ticks p (Nat.log2 ticks - 53)
  have hexponent : exponentFor ticks (Nat.pow 2 p)
      = if Nat.pow 2 53 ≤ ticks / 2 ^ (Nat.log2 ticks - 53)
        then ((Nat.log2 ticks - 53 : Nat) : Int) - p + 1
        else ((Nat.log2 ticks - 53 : Nat) : Int) - p := by
    simp only [exponentFor, hguess, hscaled, Nat.mul_div_mul_right _ _ hc]
  rw [hexponent]
  -- The binary logarithm alone may keep one digit too many.
  split
  next hlong =>
    refine ⟨Nat.log2 ticks - 53 + 1, by omega, .inr ?_⟩
    have hprod : 2 ^ 53 * 2 ^ (Nat.log2 ticks - 53) ≤ ticks :=
      (Nat.le_div_iff_mul_le (Nat.two_pow_pos _)).mp hlong
    rwa [← Nat.pow_add, show 53 + (Nat.log2 ticks - 53) = Nat.log2 ticks - 53 + 1 + 52 by omega]
      at hprod
  next =>
    refine ⟨Nat.log2 ticks - 53, rfl, ?_⟩
    by_cases hshort : Nat.log2 ticks - 53 = 0
    · exact .inl hshort
    · refine .inr (Nat.le_trans (Nat.pow_le_pow_right (by decide) ?_) hself)
      omega

/-- A number of ticks, as seconds, is rounded to a whole number of units of its last digit, unless
it is beyond the greatest number of seconds. -/
theorem ticks?_ofRatio {p : Nat} (hp : leastExponent = -(p : Int)) (hticks : ticks ≠ 0) :
    (ofRatio false ticks (Nat.pow 2 p)).ticks? = some ((Nat.pow 2 2098 : Nat) : Int)
    ∨ ∃ k : Nat, (k = 0 ∨ 2 ^ (k + 52) ≤ ticks)
      ∧ (ofRatio false ticks (Nat.pow 2 p)).ticks?
        = some ((roundDiv ticks (2 ^ k) * 2 ^ k : Nat) : Int) := by
  obtain ⟨k, hexponent, hdigits⟩ := exists_exponentFor ticks hp hticks
  obtain ⟨c, hc, hscaled⟩ := scaled_two_pow ticks p k
  have hround : roundDiv (scaled ticks (Nat.pow 2 p) ((k : Int) - p)).1
      (scaled ticks (Nat.pow 2 p) ((k : Int) - p)).2 = roundDiv ticks (2 ^ k) := by
    rw [hscaled]
    exact roundDiv_mul_right ticks (2 ^ k) hc
  simp only [ofRatio, if_neg hticks, hexponent, hround]
  -- Digits that are rounded up to one more of them show the same number a place higher.
  by_cases hcarry : roundDiv ticks (2 ^ k) = Nat.pow 2 53
  · simp only [hcarry, if_true]
    split
    · exact .inl rfl
    · refine .inr ⟨k, hdigits, ?_⟩
      have hunits : ((k : Int) - p + 1 - leastExponent).toNat = k + 1 := by omega
      simp only [ticks?, hunits, Bool.false_eq_true, if_false]
      have hpow : Nat.pow 2 52 * Nat.pow 2 (k + 1) = Nat.pow 2 53 * 2 ^ k := by
        show 2 ^ 52 * 2 ^ (k + 1) = 2 ^ 53 * 2 ^ k
        rw [← Nat.pow_add, ← Nat.pow_add, show 52 + (k + 1) = 53 + k by omega]
      rw [hcarry, ← hpow, Int.natCast_mul]
  · simp only [if_neg hcarry]
    split
    · exact .inl rfl
    · refine .inr ⟨k, hdigits, ?_⟩
      have hunits : ((k : Int) - p - leastExponent).toNat = k := by omega
      simp only [ticks?, hunits, Bool.false_eq_true, if_false]
      rw [Int.natCast_mul]
      rfl

end Ticks

/-! ## Whole numbers -/

/-- The exponent of a whole number below a power of two. -/
theorem exponentFor_le {n k : Nat} (h : n < 2 ^ k) :
    exponentFor n 1 ≤ max leastExponent ((k : Int) - 53) + 1 := by
  have hlog : (Nat.log2 n : Int) ≤ k := by
    by_cases hzero : n = 0
    · rw [hzero]
      exact Int.natCast_nonneg k
    · have := (Nat.log2_lt hzero).mpr h
      omega
  have hone : Nat.log2 1 = 0 := by decide
  simp only [exponentFor, hone]
  split <;> omega

/-- A whole number of a thousand binary digits is within the range. -/
theorem exists_finite_ofInt {n : Int} (h : n.natAbs < Nat.pow 2 1000) :
    ∃ m e, ofInt n = .finite (n < 0) m e := by
  have hle := exponentFor_le h
  have hleast : leastExponent = -1074 := rfl
  have hgreatest : greatestExponent = 971 := rfl
  rw [hleast] at hle
  rw [ofInt, ofRatio]
  split
  · exact ⟨_, _, rfl⟩
  · simp only [hgreatest]
    split
    · split
      · omega
      · exact ⟨_, _, rfl⟩
    · split
      · omega
      · exact ⟨_, _, rfl⟩

end Decimal.Binary64

open Decimal (Binary64)

/-- Any whole number of seconds of up to a thousand binary digits is a length of time. -/
theorem Datum.exists_span_int {n : Int} (h : n.natAbs < Nat.pow 2 1000) :
    ∃ length, (Datum.int n).span = .ok length := by
  obtain ⟨m, e, hfinite⟩ := Decimal.Binary64.exists_finite_ofInt h
  have hfloat : toFloat n = .ok (.finite (n < 0) m e) := by rw [toFloat, hfinite]
  have hnumber : (Datum.int n).number? = some (.int n) := rfl
  simp only [span, ticks, hnumber, hfloat]
  exact ⟨_, rfl⟩

/-- The instant nearest to a number of ticks falls short of it by at most half of the last digit
that is kept, unless it is the greatest of all. -/
theorem nearestInstant_spec {ticks : Nat} (hticks : ticks ≠ 0) :
    nearestInstant ticks = Nat.pow 2 2098
    ∨ ∃ k : Nat, (k = 0 ∨ 2 ^ (k + 52) ≤ ticks)
      ∧ 2 * ticks ≤ 2 * nearestInstant ticks + 2 ^ k := by
  obtain ⟨p, hsecond, hp⟩ : ∃ p : Nat, ticksPerSecond = Nat.pow 2 p
      ∧ Binary64.leastExponent = -(p : Int) := ⟨1074, rfl, rfl⟩
  have hnearest : nearestInstant ticks
      = ((Binary64.ofRatio false ticks (Nat.pow 2 p)).ticks?.getD 0).toNat := by
    have hpositive : (ticks : Int) ≠ 0 := by omega
    have hsign : ¬ (ticks : Int) < 0 := by omega
    rw [nearestInstant, secondsOfTicks, Binary64.ofQuotient, if_neg hpositive, hsecond]
    simp only [hsign, decide_false, Int.natAbs_natCast]
  rcases Binary64.ticks?_ofRatio ticks hp hticks with hgreatest | ⟨k, hdigits, hrounded⟩
  · refine .inl ?_
    rw [hnearest, hgreatest, Option.getD_some, Int.toNat_natCast]
  · refine .inr ⟨k, hdigits, ?_⟩
    rw [hnearest, hrounded, Option.getD_some, Int.toNat_natCast]
    exact Binary64.le_roundDiv ticks (Nat.two_pow_pos k)

/-- A sleep moves the clock, unless it is shorter than what the clock can tell apart by then. -/
theorem lt_nearestInstant {now length : Nat} (hlength : 0 < length)
    (hnow : now ≤ Nat.pow 2 52 * length) (hrange : now < Nat.pow 2 2098) :
    now < nearestInstant (now + length) := by
  have hlater : now + length ≠ 0 := by omega
  rcases nearestInstant_spec hlater with hgreatest | ⟨k, hdigits, hle⟩
  · rwa [hgreatest]
  · rcases hdigits with rfl | hdigits
    · rw [Nat.pow_zero] at hle
      omega
    · -- Half a unit of the last digit is less than the sleep.
      have hunit : 2 ^ k * Nat.pow 2 52 ≤ now + length := by
        rw [Nat.pow_add] at hdigits
        exact hdigits
      have hpow : Nat.pow 2 52 = 4503599627370496 := rfl
      rw [hpow] at hunit hnow
      omega

/-! ## The ends of sleeps -/

namespace Work

variable {σ ν : Type}

/-- The instant at which a sleep for a length of time ends that begins at an instant. -/
def wakeAfter (length now : Nat) : Nat :=
  if length = 0 then now else now + (nearestInstant (now + length) - now)

theorem le_wakeAfter (length now : Nat) : now ≤ wakeAfter length now := by
  rw [wakeAfter]
  split
  · exact Nat.le_refl now
  · exact Nat.le_add_right now _

/-- The instant at which a length of time has passed; one that is none takes no time. -/
def elapse (d : Datum) (now : Nat) : Nat :=
  match d.span with
  | .ok length => wakeAfter length now
  | .error _ => now

theorem le_elapse (d : Datum) (now : Nat) : now ≤ elapse d now := by
  rw [elapse]
  split
  · exact le_wakeAfter _ now
  · exact Nat.le_refl now

theorem sleepFor_of_ok {d : Datum} {length : Nat} (h : d.span = .ok length) (s : Stage σ ν) :
    ∃ t, sleepFor d [] s = (.done (), t) ∧ t.now = elapse d s.now ∧ t.world = s.world := by
  refine ⟨⟨wakeAfter length s.now, s.world, .woke (wakeAfter length s.now) :: s.journal⟩,
    ?_, by rw [elapse, h], rfl⟩
  cases length with
  | zero =>
    simp only [sleepFor, h]
    exact sleep_of_lt rfl
  | succ length =>
    simp only [sleepFor, h]
    show sleep (nearestInstant (s.now + (length + 1)) - s.now) [] s = _
    rw [wakeAfter, if_neg (Nat.succ_ne_zero length)]
    exact sleep_of_lt rfl

theorem sleepFor_of_error {d : Datum} {e : Failure} (h : d.span = .error e) (s : Stage σ ν) :
    sleepFor d [] s = (.failed e, s) ∧ elapse d s.now = s.now := by
  constructor
  · simp only [sleepFor, h]
    rfl
  · rw [elapse, h]

/-- Whether a wait moves the clock wherever it begins before an instant. -/
def MovesBefore (d : Datum) (bound : Nat) : Prop := ∀ now < bound, now < elapse d now

/-- Only a length of time moves the clock. -/
theorem exists_span_of_lt_elapse {d : Datum} {now : Nat} (h : now < elapse d now) :
    ∃ length, d.span = .ok length := by
  cases hspan : d.span with
  | ok length => exact ⟨length, rfl⟩
  | error e =>
    rw [elapse, hspan] at h
    exact absurd h (Nat.lt_irrefl now)

theorem movesBefore_of_le {d : Datum} {length bound : Nat} (hspan : d.span = .ok length)
    (hlength : 0 < length) (hbound : bound ≤ Nat.pow 2 52 * length)
    (hrange : bound ≤ Nat.pow 2 2098) : MovesBefore d bound := by
  intro now hnow
  have hlater : now < nearestInstant (now + length) :=
    lt_nearestInstant hlength (Nat.le_trans (Nat.le_of_lt hnow) hbound)
      (Nat.lt_of_lt_of_le hnow hrange)
  simp only [elapse, hspan, wakeAfter, if_neg (Nat.ne_of_gt hlength)]
  omega

end Work

end BeaconHarness
