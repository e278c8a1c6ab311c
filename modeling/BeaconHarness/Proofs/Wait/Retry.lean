import BeaconHarness.Proofs.Wait.Clock
import BeaconHarness.Proofs.Wait.Plain
import BeaconHarness.Proofs.Wait.Rounds

/-!
# Retries that never end

A retry that nothing stops asks, waits and asks again. If the answers mean the same from some query
on, then a retry that has got beyond that query undecided never ends; and if its waits move the
clock, then it is still asking at any instant, given one round for each tick until then.

Main statements: `retryRounds_of_le` for retries that end, and `Recurs.reaches` for those that do
not.
-/

namespace BeaconHarness.Work

variable {σ ν α : Type}

/-! ## Retries that end -/

/-- A retry that is settled within some rounds does the same when it is given more. -/
theorem retryRounds_of_le {wait : Work σ ν Unit} {retryOn : List FailureKind}
    {query : Work σ ν (Option α)} {few many : Nat} {alarms : List Alarm} {s : Stage σ ν}
    (hle : few ≤ many) (h : (retryRounds wait retryOn query few alarms s).1 ≠ .unsettled) :
    retryRounds wait retryOn query many alarms s = retryRounds wait retryOn query few alarms s := by
  induction many, hle using Nat.le_induction with
  | base => rfl
  | succ many _ ih => exact retryRounds_succ h ih

/-! ## Retries that do not -/

theorem verdict?_ne_unsettled {retryOn : List FailureKind} {answer : Except Failure (Option α)}
    {o : Outcome α} (h : verdict? retryOn answer = some o) : o ≠ .unsettled := by
  rintro rfl
  simp only [verdict?] at h
  split at h
  · cases h
  · cases h
  · split at h
    · cases h
    · cases h

/-- A retry that asks from `u k` to `v k` and waits from there. From the `n`-th query on all answers
mean the same. -/
structure Recurs (d : Datum) (retryOn : List FailureKind) (query : Work σ ν (Option α))
    (u v : Nat → Stage σ ν) (answer : Nat → Except Failure (Option α)) (n : Nat) : Prop where
  asks : ∀ k, query [] (u k) = (ended (answer k), v k)
  later : ∀ k, (u k).now ≤ (v k).now
  waits : ∀ k, sleepFor d [] (v k) = (.done (), u (k + 1))
  elapses : ∀ k, (u (k + 1)).now = elapse d (v k).now
  verdicts : ∀ k, n ≤ k → verdict? retryOn (answer k) = verdict? retryOn (answer n)

namespace Recurs

variable {d : Datum} {retryOn : List FailureKind} {query : Work σ ν (Option α)}
  {u v : Nat → Stage σ ν} {answer : Nat → Except Failure (Option α)} {n : Nat}

theorem course (h : Recurs d retryOn query u v answer n) :
    Course (fun rounds => retryRounds (sleepFor d) retryOn query rounds []) u v
      (fun k => verdict? retryOn (answer k)) :=
  retryRounds_course h.asks h.waits

/-- A retry that has used up more rounds than it takes until all answers mean the same never
ends. -/
theorem endless (h : Recurs d retryOn query u v answer n) {rounds : Nat} (hrounds : n < rounds)
    (hopen : (retryRounds (sleepFor d) retryOn query rounds [] (u 0)).1 = .unsettled) :
    ∀ k, verdict? retryOn (answer k) = none := by
  -- The first answer that decides something would have come within these rounds.
  by_contra hsome
  rw [not_forall] at hsome
  have hfind := Nat.find_spec hsome
  have hearlier : ∀ k < Nat.find hsome, verdict? retryOn (answer k) = none := fun k hk =>
    not_not.mp (Nat.find_min hsome hk)
  generalize Nat.find hsome = m at hfind hearlier
  have hmn : m ≤ n := le_of_repeats h.verdicts hearlier hfind
  obtain ⟨o, ho⟩ := Option.ne_none_iff_exists'.mp hfind
  have hrun : retryRounds (sleepFor d) retryOn query rounds [] (u 0) = (o, v m) :=
    h.course.decided hearlier ho (by omega)
  rw [hrun] at hopen
  exact verdict?_ne_unsettled ho hopen

/-- The clock moves in every round that begins before an instant. -/
theorem lt_next (h : Recurs d retryOn query u v answer n) {bound : Nat}
    (hmoves : MovesBefore d bound) {k : Nat} (hk : (u k).now < bound) :
    (u k).now < (u (k + 1)).now := by
  have hasked := h.later k
  rw [h.elapses k]
  -- An answer that comes after the instant has moved the clock by itself.
  by_cases hbefore : (v k).now < bound
  · have := hmoves _ hbefore
    omega
  · have := le_elapse d (v k).now
    omega

/-- A retry that never ends is still asking at any instant up to which its waits move the clock. -/
theorem reaches (h : Recurs d retryOn query u v answer n)
    (hnone : ∀ k, verdict? retryOn (answer k) = none) {bound rounds : Nat}
    (hmoves : MovesBefore d bound) (hrounds : bound ≤ (u 0).now + rounds) :
    ∃ t, retryRounds (sleepFor d) retryOn query rounds [] (u 0) = (.unsettled, t)
      ∧ bound ≤ t.now := by
  refine ⟨u rounds, h.course.undecided fun k _ => hnone k, ?_⟩
  have hle : ∀ k, (u k).now ≤ (u (k + 1)).now := fun k => by
    rw [h.elapses k]
    exact Nat.le_trans (h.later k) (le_elapse d _)
  have hmoved : ∀ k, (u k).now < bound → (u k).now < (u (k + 1)).now := fun k hk =>
    h.lt_next hmoves hk
  rcases le_or_reaches hle hmoved rounds with hfar | hthere
  · omega
  · exact hthere

end Recurs

end BeaconHarness.Work
