import BeaconHarness.Proofs.Wait.Clock
import BeaconHarness.Proofs.Wait.Plain
import BeaconHarness.Proofs.Wait.Rounds

/-!
# Polls that repeat themselves

A poll that nothing stops passes through a row of stages. If its rounds repeat themselves from some
round on, then as many rounds as that, and one more for each tick up to the deadline, tell what the
poll comes to: its first decisive query, or the deadline, whichever comes first. If neither ever
comes, then the poll would go on for ever, and is unsettled.

Main statement: `pollUntil_settles`.
-/

namespace BeaconHarness.Work

variable {σ ν α : Type}

/-! ## A wait that cannot begin -/

/-- A wait for a length of time is a sleep, though of a length that depends on the instant. -/
theorem exists_sleepFor_eq_sleep {d : Datum} {length : Nat} (hspan : d.span = .ok length)
    (alarms : List Alarm) (s : Stage σ ν) :
    ∃ ticks, sleepFor d alarms s = sleep ticks alarms s := by
  cases length with
  | zero => exact ⟨0, by simp only [sleepFor, hspan]⟩
  | succ length =>
    refine ⟨nearestInstant (s.now + (length + 1)) - s.now, ?_⟩
    simp only [sleepFor, hspan]
    rfl

/-- A wait that begins when an alarm has just rung is stopped at once. -/
theorem sleepFor_of_rung {d : Datum} {length : Nat} {alarms : List Alarm} {s : Stage σ ν}
    (hspan : d.span = .ok length) (hnow : ∀ a ∈ alarms, s.now ≤ a.time)
    (hrung : ringsBy alarms s.now = true) :
    ∃ t, sleepFor d alarms s = (.interrupted, t) ∧ StopsAt alarms t.now := by
  obtain ⟨x, hx⟩ := exists_sleepFor_eq_sleep hspan alarms s
  obtain ⟨stop, hstop, hrun⟩ := sleep_of_rings hnow (ringsBy_of_le (Nat.le_add_right _ x) hrung)
  exact ⟨_, hx.trans hrun, hstop⟩

/-! ## Rounds that repeat themselves -/

/-- A poll whose rounds lead through the stages `u`, with an answer each. From the `n`-th round on
all of them come to the same, and move the clock in the same way. -/
structure Repeats (d : Datum) (retryOn : List FailureKind) (query : Work σ ν (Option α))
    (u : Nat → Stage σ ν) (answer : Nat → Except Failure (Option α)) (n : Nat) : Prop where
  plain : Plain query
  kept : absorbs retryOn = false
  span : ∃ length, d.span = .ok length
  round : ∀ k, (do sleepFor d; query) [] (u k) = (ended (answer k), u (k + 1))
  verdicts : ∀ k, n ≤ k → verdict? retryOn (answer k) = verdict? retryOn (answer n)
  moves : ∃ move : Nat → Nat, ∀ k, n ≤ k → (u (k + 1)).now = move (u k).now

section Repeats

variable {d : Datum} {retryOn : List FailureKind} {query : Work σ ν (Option α)}
  {u : Nat → Stage σ ν} {answer : Nat → Except Failure (Option α)} {n : Nat}

theorem Repeats.course (h : Repeats d retryOn query u answer n) :
    Course (fun rounds => pollRounds (sleepFor d) retryOn query rounds []) u (fun k => u (k + 1))
      (fun k => verdict? retryOn (answer k)) := by
  obtain ⟨length, hspan⟩ := h.span
  choose v hwait _ using fun k => sleepFor_of_ok hspan (u k)
  refine pollRounds_course hwait fun k => ?_
  rw [← h.round k, andThen_of_done (hwait k)]

/-- The clock moves in a round at least as far as in its wait. -/
theorem Repeats.elapse_le (h : Repeats d retryOn query u answer n) (k : Nat) :
    elapse d (u k).now ≤ (u (k + 1)).now := by
  obtain ⟨length, hspan⟩ := h.span
  obtain ⟨v, hwait, hnow, -⟩ := sleepFor_of_ok hspan (u k)
  have hround := h.round k
  rw [andThen_of_done hwait] at hround
  have hlater := h.plain.now_le [] v
  rw [hround, hnow] at hlater
  exact hlater

theorem Repeats.now_le (h : Repeats d retryOn query u answer n) (k : Nat) :
    (u k).now ≤ (u (k + 1)).now :=
  Nat.le_trans (le_elapse d _) (h.elapse_le k)

/-- Where a wait moves the clock before an instant, the rounds reach it. -/
theorem Repeats.reaches (h : Repeats d retryOn query u answer n) {bound : Nat}
    (hmoves : MovesBefore d bound) : ∃ m, bound ≤ (u (m + 1)).now := by
  have hlater : ∀ k, (u k).now < bound → (u k).now < (u (k + 1)).now := fun k hk =>
    Nat.lt_of_lt_of_le (hmoves _ hk) (h.elapse_le k)
  refine ⟨bound, ?_⟩
  rcases le_or_reaches h.now_le hlater (bound + 1) with hfar | hthere
  · omega
  · exact hthere

/-- A poll that an alarm stops before it can decide anything. -/
theorem Repeats.stopped (h : Repeats d retryOn query u answer n) {alarms : List Alarm}
    (hnow : ∀ a ∈ alarms, (u 0).now ≤ a.time) {rounds : Nat}
    (hrings : ringsBy alarms
      (pollRounds (sleepFor d) retryOn query (rounds + 1) [] (u 0)).2.now = true) :
    ∃ t, pollRounds (sleepFor d) retryOn query (rounds + 1) alarms (u 0) = (.interrupted, t)
      ∧ StopsAt alarms t.now := by
  cases hrung : ringsBy alarms (u 0).now with
  | true =>
    obtain ⟨length, hspan⟩ := h.span
    obtain ⟨t, hwait, hstop⟩ := sleepFor_of_rung hspan hnow hrung
    refine ⟨t, ?_, hstop⟩
    rw [pollRounds, andThen_of_interrupted hwait]
  | false =>
    exact (Plain.pollRounds h.kept (.sleepFor d) h.plain (rounds + 1)).stopped hrung hrings

/-- What a poll comes to when nothing stops it is not changed by a deadline and by alarms that are
still to come by then. -/
theorem Repeats.pollUntil_silent (h : Repeats d retryOn query u answer n) {limit : Option Limit}
    (what : String) {alarms : List Alarm} {rounds : Nat} {o : Outcome α} {t : Stage σ ν}
    (ho : o ≠ .interrupted) (hfree : pollRounds (sleepFor d) retryOn query rounds [] (u 0) = (o, t))
    (hsilent : ringsBy (deadlineAlarms limit (u 0).now ++ alarms) t.now = false) :
    pollUntil rounds (sleepFor d) limit what retryOn query alarms (u 0) = (o, t) := by
  refine within_of_silent ho hsilent ?_
  rw [← hfree]
  refine (Plain.pollRounds h.kept (.sleepFor d) h.plain rounds).quiet ?_
  rw [hfree]
  exact hsilent

theorem Repeats.pollUntil_quiet (h : Repeats d retryOn query u answer n) {limit : Option Limit}
    (what : String) {rounds : Nat} {o : Outcome α} {t : Stage σ ν} (ho : o ≠ .interrupted)
    (hfree : pollRounds (sleepFor d) retryOn query rounds [] (u 0) = (o, t))
    (hbefore : ∀ l ∈ limit, t.now + l.leeway < (u 0).now + l.span) :
    pollUntil rounds (sleepFor d) limit what retryOn query [] (u 0) = (o, t) := by
  refine h.pollUntil_silent what ho hfree ?_
  rw [List.append_nil]
  exact ringsBy_deadlineAlarms.mpr hbefore

/-- Where some round is not over before a deadline, the first such round is among the first ones:
the clock moves in each round before it, once the rounds repeat themselves. -/
theorem Repeats.exists_overdue_lt (h : Repeats d retryOn query u answer n) {l : Limit}
    {rounds m : Nat} (hrounds : n + l.span < rounds)
    (hoverdue : (u 0).now + l.span ≤ (u (m + 1)).now + l.leeway) :
    ∃ first ≤ m, first < rounds ∧ (u 0).now + l.span ≤ (u (first + 1)).now + l.leeway := by
  have hsome : ∃ k, (u 0).now + l.span ≤ (u (k + 1)).now + l.leeway := ⟨m, hoverdue⟩
  have hfind := Nat.find_spec hsome
  have hbefore : ∀ k < Nat.find hsome, (u (k + 1)).now + l.leeway < (u 0).now + l.span :=
    fun k hk => Nat.lt_of_not_le (Nat.find_min hsome hk)
  have hle : Nat.find hsome ≤ m := Nat.find_min' hsome hoverdue
  generalize Nat.find hsome = first at hfind hbefore hle
  refine ⟨first, hle, ?_, hfind⟩
  cases first with
  | zero => omega
  | succ first =>
    obtain ⟨move, hmove⟩ := h.moves
    have hprevious := hbefore first (Nat.lt_succ_self first)
    have hlast : (u (first + 1)).now < (u 0).now + l.span - l.leeway := by omega
    have hnext : (u 0).now + l.span - l.leeway ≤ (u (first + 1 + 1)).now := by omega
    have := lt_of_moves h.now_le hmove hlast hnext
    omega

/-- A poll that has decided nothing before a round takes at least as long as that round. -/
theorem Repeats.now_le_pollRounds (h : Repeats d retryOn query u answer n) {m rounds : Nat}
    (hnone : ∀ k < m, verdict? retryOn (answer k) = none) (hm : m < rounds) :
    (u (m + 1)).now ≤ (pollRounds (sleepFor d) retryOn query rounds [] (u 0)).2.now := by
  obtain ⟨spare, rfl⟩ : ∃ spare, rounds = m + (spare + 1) := ⟨rounds - m - 1, by omega⟩
  have hrun : pollRounds (sleepFor d) retryOn query (m + (spare + 1)) [] (u 0) = _ :=
    h.course.run_add hnone (spare + 1)
  rw [hrun, h.course.step]
  cases verdict? retryOn (answer m) with
  | some o => exact Nat.le_refl _
  | none => exact (Plain.pollRounds h.kept (.sleepFor d) h.plain spare).now_le [] _

/-- A poll that has decided nothing before a round that is not over by the deadline is stopped at
the deadline. -/
theorem Repeats.pollUntil_overdue (h : Repeats d retryOn query u answer n) {l : Limit}
    (what : String) {rounds m : Nat} (hrounds : n + l.span < rounds)
    (hnone : ∀ k < m, verdict? retryOn (answer k) = none)
    (hoverdue : (u 0).now + l.span ≤ (u (m + 1)).now + l.leeway) :
    ∃ t, pollUntil rounds (sleepFor d) (some l) what retryOn query [] (u 0)
        = (.failed (.pollTimeout what l.shown), t)
      ∧ t.now ≤ (u 0).now + l.span ∧ (u 0).now + l.span ≤ t.now + l.leeway := by
  obtain ⟨first, hle, hearly, hfirst⟩ := h.exists_overdue_lt hrounds hoverdue
  have hend := h.now_le_pollRounds (fun k hk => hnone k (by omega)) hearly
  obtain ⟨spare, rfl⟩ : ∃ spare, rounds = spare + 1 := ⟨rounds - 1, by omega⟩
  have hrings : ringsBy [l.alarm (u 0).now]
      (pollRounds (sleepFor d) retryOn query (spare + 1) [] (u 0)).2.now = true := by
    rw [ringsBy_alarm, decide_eq_true_eq]
    omega
  obtain ⟨t, hstopped, hstop⟩ := h.stopped (le_time_alarm l _) hrings
  exact ⟨t, within_of_interrupted hstopped, stopsAt_alarm_iff.mp hstop⟩

/-- A poll whose rounds repeat themselves ends with its first decisive query if that ends before the
deadline, and at the deadline if the first rounds decide nothing and one of them, or the query after
them, is not over by then. If neither comes about, it is unsettled. -/
theorem pollUntil_settles (h : Repeats d retryOn query u answer n) (limit : Option Limit)
    (what : String) {rounds : Nat} (hrounds : n + (limit.map Limit.span).getD 0 < rounds) :
    (∀ m o, (∀ k < m, verdict? retryOn (answer k) = none) →
      verdict? retryOn (answer m) = some o →
      (∀ l ∈ limit, (u (m + 1)).now + l.leeway < (u 0).now + l.span) →
      pollUntil rounds (sleepFor d) limit what retryOn query [] (u 0) = (o, u (m + 1)))
    ∧ (∀ l ∈ limit, ∀ m, (∀ k < m, verdict? retryOn (answer k) = none) →
      (u 0).now + l.span ≤ (u (m + 1)).now + l.leeway →
      ∃ t, pollUntil rounds (sleepFor d) limit what retryOn query [] (u 0)
          = (.failed (.pollTimeout what l.shown), t)
        ∧ t.now ≤ (u 0).now + l.span ∧ (u 0).now + l.span ≤ t.now + l.leeway)
    ∧ ((∀ k, verdict? retryOn (answer k) = none) →
      (∀ l ∈ limit, ∀ m, (u (m + 1)).now + l.leeway < (u 0).now + l.span) →
      (pollUntil rounds (sleepFor d) limit what retryOn query [] (u 0)).1 = .unsettled) := by
  refine ⟨?_, ?_, ?_⟩
  · intro m o hnone hm hbefore
    have hmn : m ≤ n := le_of_repeats h.verdicts hnone (by rw [hm]; exact nofun)
    exact h.pollUntil_quiet what (Script.verdict?_ne_interrupted hm)
      (h.course.decided hnone hm (by omega)) hbefore
  · intro l hl m hnone hoverdue
    obtain rfl : limit = some l := hl
    exact h.pollUntil_overdue what hrounds hnone hoverdue
  · intro hnone hbefore
    obtain ⟨spare, rfl⟩ : ∃ spare, rounds = spare + 1 := ⟨rounds - 1, by omega⟩
    have hfree : pollRounds (sleepFor d) retryOn query (spare + 1) [] (u 0)
        = (.unsettled, u (spare + 1)) := h.course.undecided fun k _ => hnone k
    rw [h.pollUntil_quiet what (by simp) hfree fun l hl => hbefore l hl spare]

/-- A poll that is done was decided by the last of its queries, with the value that it gives. -/
theorem pollUntil_done (h : Repeats d retryOn query u answer n) (limit : Option Limit)
    (what : String) {rounds : Nat} (hrounds : n + (limit.map Limit.span).getD 0 < rounds) {a : α}
    {t : Stage σ ν}
    (hdone : pollUntil rounds (sleepFor d) limit what retryOn query [] (u 0) = (.done a, t)) :
    ∃ m, (∀ k < m, verdict? retryOn (answer k) = none)
      ∧ verdict? retryOn (answer m) = some (.done a) ∧ t = u (m + 1) := by
  obtain ⟨hdecided, hoverdue, hopen⟩ := pollUntil_settles h limit what hrounds
  -- As long as nothing is decided, the deadline is still to come.
  have hintime : ∀ m, (∀ k < m, verdict? retryOn (answer k) = none) →
      ∀ l ∈ limit, (u (m + 1)).now + l.leeway < (u 0).now + l.span := by
    intro m hearlier l hl
    by_contra hlate
    obtain ⟨t', htimeout, -⟩ := hoverdue l hl m hearlier (by omega)
    rw [hdone] at htimeout
    cases htimeout
  rcases undecided_or_first fun k => verdict? retryOn (answer k) with hall | ⟨m, o, hearlier, ho⟩
  · have hunsettled := hopen hall fun l hl m => hintime m (fun k _ => hall k) l hl
    rw [hdone] at hunsettled
    cases hunsettled
  · have hrun := hdecided m o hearlier ho (hintime m hearlier)
    rw [hdone] at hrun
    cases hrun
    exact ⟨m, hearlier, ho, rfl⟩

/-! ## All ways to end -/

/-- A poll that begins when an alarm has rung is interrupted at once. -/
theorem Repeats.interrupted_of_rung (h : Repeats d retryOn query u answer n) {alarms : List Alarm}
    (hrung : ringsBy alarms (u 0).now = true) (rounds : Nat) :
    ∃ t, pollRounds (sleepFor d) retryOn query (rounds + 1) alarms (u 0) = (.interrupted, t)
      ∧ (u 0).now ≤ t.now := by
  obtain ⟨length, hspan⟩ := h.span
  obtain ⟨ticks, hwait⟩ := exists_sleepFor_eq_sleep hspan alarms (u 0)
  have hrings : ringsBy alarms ((u 0).now + ticks) = true :=
    ringsBy_of_le (Nat.le_add_right _ ticks) hrung
  simp only [sleep, hrings, if_true] at hwait
  have hpoll : pollRounds (sleepFor d) retryOn query (rounds + 1) alarms (u 0)
      = (.interrupted, _) := andThen_of_interrupted hwait
  exact ⟨_, hpoll, Nat.le_max_left _ _⟩

/-- Whatever alarms there are, a poll whose rounds repeat themselves is interrupted by one of them,
or fails at its deadline, or ends with its first decisive query, or is still undecided after all of
its rounds. -/
theorem Repeats.pollUntil_cases (h : Repeats d retryOn query u answer n) (limit : Option Limit)
    (what : String) {alarms : List Alarm} {rounds : Nat} (hrounds : 0 < rounds) {o : Outcome α}
    {t : Stage σ ν}
    (hrun : pollUntil rounds (sleepFor d) limit what retryOn query alarms (u 0) = (o, t)) :
    o = .interrupted ∧ ringsBy alarms t.now = true
    ∨ (∃ l ∈ limit, o = .failed (.pollTimeout what l.shown)
      ∧ t.now ≤ (u 0).now + l.span ∧ (u 0).now + l.span ≤ t.now + l.leeway)
    ∨ (∃ m, (∀ k < m, verdict? retryOn (answer k) = none)
      ∧ verdict? retryOn (answer m) = some o ∧ t = u (m + 1))
    ∨ o = .unsettled ∧ ∀ k < rounds, verdict? retryOn (answer k) = none := by
  obtain ⟨spare, rfl⟩ : ∃ spare, rounds = spare + 1 := ⟨rounds - 1, by omega⟩
  cases hrung : ringsBy alarms (u 0).now with
  | true =>
    have hall : ringsBy (deadlineAlarms limit (u 0).now ++ alarms) (u 0).now = true := by
      rw [ringsBy, List.any_append]
      exact Bool.or_eq_true_iff.mpr (.inr hrung)
    obtain ⟨t', hstopped, hlater⟩ := h.interrupted_of_rung hall spare
    have hrings := ringsBy_of_le hlater hrung
    cases (within_of_rung hstopped hrings).symm.trans hrun
    exact .inl ⟨rfl, hrings⟩
  | false =>
    have hstill : ∀ a ∈ deadlineAlarms limit (u 0).now ++ alarms, (u 0).now ≤ a.time := by
      intro a ha
      rcases List.mem_append.mp ha with hdeadline | hmem
      · obtain ⟨l, -, rfl⟩ := List.mem_map.mp hdeadline
        exact Nat.le_add_right _ _
      · exact le_time_of_not_ringsBy hrung a hmem
    have hplain := Plain.pollRounds h.kept (.sleepFor d) h.plain (spare + 1)
    cases hrings : ringsBy (deadlineAlarms limit (u 0).now ++ alarms)
        (pollRounds (sleepFor d) retryOn query (spare + 1) [] (u 0)).2.now with
    | true =>
      obtain ⟨t', hstopped, hstop⟩ := h.stopped hstill hrings
      rcases within_of_stopped what hstopped hstop with
        ⟨hends, houtside⟩ | ⟨l, hl, hends, hspan⟩
      · cases hends.symm.trans hrun
        exact .inl ⟨rfl, houtside⟩
      · cases hends.symm.trans hrun
        exact .inr (.inl ⟨l, hl, rfl, hspan⟩)
    | false =>
      -- No alarm has rung by the time at which the poll ends without alarms, so that it ends then.
      have hfree := (h.pollUntil_silent what (hplain.ne_interrupted (u 0)) rfl hrings).symm.trans
        hrun
      rcases undecided_or_first fun k => verdict? retryOn (answer k) with
        hnone | ⟨m, o', hearlier, hm⟩
      · rw [h.course.undecided fun k _ => hnone k] at hfree
        cases hfree
        exact .inr (.inr (.inr ⟨rfl, fun k _ => hnone k⟩))
      · rcases Nat.lt_or_ge m (spare + 1) with hlt | hge
        · rw [h.course.decided hearlier hm hlt] at hfree
          cases hfree
          exact .inr (.inr (.inl ⟨m, hearlier, hm, rfl⟩))
        · have hnone : ∀ k < spare + 1, verdict? retryOn (answer k) = none := fun k hk =>
            hearlier k (Nat.lt_of_lt_of_le hk hge)
          rw [h.course.undecided hnone] at hfree
          cases hfree
          exact .inr (.inr (.inr ⟨rfl, hnone⟩))

end Repeats

end BeaconHarness.Work
