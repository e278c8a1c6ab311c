import BeaconHarness.Wait.Work

/-!
# Polls

Asking again and again, with a wait in between, until there is an answer. No answer and a failure
of one of the given kinds both mean "not yet"; any other failure ends the poll, also one that says
itself that a request timed out. A poll asks first either at once or after one wait. Kinds that
include being called off make a poll go on after an alarm that rings while it asks; one that rings
while it waits always ends it.

A poll without a deadline may go on for ever. It is given a number of rounds, and one that has used
them up is unsettled; rounds beyond those that a settled poll needs change nothing
(`pollRounds_succ`, `retryRounds_succ`).
-/

namespace BeaconHarness.Work

variable {σ ν α : Type}

/-! ## Polls -/

/-- Whether failures of the given kinds include being called off. -/
def absorbs (retryOn : List FailureKind) : Bool := Failure.cancelled.isOneOf retryOn

/-- Waits, asks, and goes on while the answer is "not yet". -/
def pollRounds (wait : Work σ ν Unit) (retryOn : List FailureKind)
    (query : Work σ ν (Option α)) : (rounds : Nat) → Work σ ν α
  | 0 => unsettled
  | rounds + 1 => do
    wait
    followed (absorbs retryOn) query fun
      | .ok (some a) => done a
      | .ok none => pollRounds wait retryOn query rounds
      | .error e =>
        if e.isOneOf retryOn then pollRounds wait retryOn query rounds else fail e

/-- Asks at the end of every wait until there is an answer or the deadline passes. -/
def pollUntil (rounds : Nat) (wait : Work σ ν Unit) (limit : Option Limit) (what : String)
    (retryOn : List FailureKind) (query : Work σ ν (Option α)) : Work σ ν α :=
  within limit what (pollRounds wait retryOn query rounds)

/-- Asks, and waits and goes on while the answer is "not yet". -/
def retryRounds (wait : Work σ ν Unit) (retryOn : List FailureKind)
    (query : Work σ ν (Option α)) : (rounds : Nat) → Work σ ν α
  | 0 => unsettled
  | rounds + 1 =>
    followed (absorbs retryOn) query fun
      | .ok (some a) => done a
      | .ok none => do wait; retryRounds wait retryOn query rounds
      | .error e =>
        if e.isOneOf retryOn then do wait; retryRounds wait retryOn query rounds else fail e

/-- Asks at once and then at the end of every wait until there is an answer. -/
def retryUntilReady (rounds : Nat) (wait : Work σ ν Unit) (retryOn : List FailureKind)
    (query : Work σ ν (Option α)) : Work σ ν α :=
  retryRounds wait retryOn query rounds

/-! ## Planned queries -/

/-- A query that goes by a plan, which has work for each time it is asked. The world counts how
often that was, and each time the query first leaves a note of the instant. -/
def planned (plan : Nat → Work Nat Nat (Option α)) : Work Nat Nat (Option α) := do
  let asked ← world
  change (· + 1)
  note (← clock)
  plan asked

/-! ## Laws -/

/-- A poll that settles within some rounds does the same when it is given one more. -/
theorem pollRounds_succ {wait : Work σ ν Unit} {retryOn : List FailureKind}
    {query : Work σ ν (Option α)} {rounds : Nat} {alarms : List Alarm} {s t : Stage σ ν}
    {o : Outcome α} (ho : o ≠ .unsettled)
    (h : pollRounds wait retryOn query rounds alarms s = (o, t)) :
    pollRounds wait retryOn query (rounds + 1) alarms s = (o, t) := by
  induction rounds generalizing alarms s with
  | zero => exact absurd (congrArg Prod.fst h).symm ho
  | succ rounds ih =>
    rw [pollRounds] at h ⊢
    refine andThen_mono (fun _ u hu => ?_) h
    refine followed_mono (fun answer left v hv => ?_) hu
    split at hv
    · exact hv
    · exact ih hv
    · by_cases hretry : Failure.isOneOf ‹Failure› retryOn
      · simp only [hretry, if_true] at hv ⊢
        exact ih hv
      · simp only [hretry, Bool.false_eq_true, if_false] at hv ⊢
        exact hv

/-- A retry that settles within some rounds does the same when it is given one more. -/
theorem retryRounds_succ {wait : Work σ ν Unit} {retryOn : List FailureKind}
    {query : Work σ ν (Option α)} {rounds : Nat} {alarms : List Alarm} {s t : Stage σ ν}
    {o : Outcome α} (ho : o ≠ .unsettled)
    (h : retryRounds wait retryOn query rounds alarms s = (o, t)) :
    retryRounds wait retryOn query (rounds + 1) alarms s = (o, t) := by
  induction rounds generalizing alarms s with
  | zero => exact absurd (congrArg Prod.fst h).symm ho
  | succ rounds ih =>
    rw [retryRounds] at h ⊢
    refine followed_mono (fun answer left u hu => ?_) h
    split at hu
    · exact hu
    · exact andThen_mono (fun _ v hv => ih hv) hu
    · by_cases hretry : Failure.isOneOf ‹Failure› retryOn
      · simp only [hretry, if_true] at hu ⊢
        exact andThen_mono (fun _ v hv => ih hv) hu
      · simp only [hretry, Bool.false_eq_true, if_false] at hu ⊢
        exact hu

end BeaconHarness.Work
