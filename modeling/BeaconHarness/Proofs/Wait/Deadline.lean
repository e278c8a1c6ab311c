import BeaconHarness.Proofs.Wait.Plain

/-!
# Work done together under a deadline

Work that heeds its alarms can only be stopped by them: under alarms it is plain work, which may
have been given more rounds than without them, but comes to the same where it is settled anyway.
Pieces of such work that are done together under a deadline end as they would without one if each of
them is over before the deadline, and at the deadline if one of them is not.

Main statements: `resolveAll_in_time`, `resolveAll_overdue` and, for everything that is left behind
by then, `resolveAll_leaves`.
-/

namespace BeaconHarness

namespace Work

variable {σ ν α : Type} {alarms : List Alarm}

/-! ## Plain work that is stopped -/

/-- Plain work that begins when alarms have just rung does not get past them. -/
theorem Plain.stopsAt {work : Work σ ν α} (h : Plain work) {s : Stage σ ν}
    (hstart : StopsAt alarms s.now) : StopsAt alarms (work alarms s).2.now := by
  -- Only a sleep looks at the alarms, and one that begins now is cut short by them.
  induction h generalizing s with
  | sleep length =>
    obtain ⟨stop, hstop, hsleep⟩ := sleep_of_rings hstart.le
      (ringsBy_of_le (Nat.le_add_right _ length) hstart.rings)
    rw [hsleep]
    exact hstop
  | @followed α β work next _ _ ih ihnext =>
    have hwork := ih hstart
    rcases hrun : work alarms s with ⟨o, t⟩
    rw [hrun] at hwork
    cases o with
    | done a =>
      rw [followed_of_done hrun]
      exact ihnext (.ok a) hwork
    | failed e =>
      rw [followed_of_failed hrun]
      exact ihnext (.error e) hwork
    | interrupted =>
      rw [followed_of_interrupted hrun]
      exact hwork
    | unsettled =>
      rw [followed_of_unsettled hrun]
      exact hwork
  | _ => exact hstart

/-- Plain work that would not end before its alarms is stopped by them. -/
theorem Plain.stopsAt_of_rings {work : Work σ ν α} (h : Plain work) {s : Stage σ ν}
    (hnow : ∀ a ∈ alarms, s.now ≤ a.time) (hrings : ringsBy alarms (work [] s).2.now = true) :
    StopsAt alarms (work alarms s).2.now := by
  cases hstart : ringsBy alarms s.now with
  | true => exact h.stopsAt ⟨hstart, hnow⟩
  | false =>
    obtain ⟨t, hrun, hstop⟩ := h.stopped hstart hrings
    rw [hrun]
    exact hstop

/-- Plain work ends before its alarms or is stopped by them. -/
theorem Plain.le_time {work : Work σ ν α} (h : Plain work) {s : Stage σ ν}
    (hnow : ∀ a ∈ alarms, s.now ≤ a.time) : ∀ a ∈ alarms, (work alarms s).2.now ≤ a.time := by
  cases hrings : ringsBy alarms (work [] s).2.now with
  | true => exact (h.stopsAt_of_rings hnow hrings).le
  | false =>
    rw [h.quiet hrings]
    exact le_time_of_not_ringsBy hrings

/-! ## Work that heeds alarms -/

/-- Work that under alarms is plain work, and that without them does the same or is unsettled. -/
def Heeds (alarms : List Alarm) (work : Work σ ν α) (s : Stage σ ν) : Prop :=
  ∃ job : Work σ ν α, Plain job ∧ work alarms s = job alarms s
    ∧ ((work [] s).1 ≠ .unsettled → work [] s = job [] s)

namespace Heeds

variable {work : Work σ ν α} {s : Stage σ ν}

theorem later (h : Heeds alarms work s) (hsettled : (work [] s).1 ≠ .unsettled) :
    s.now ≤ (work [] s).2.now := by
  obtain ⟨job, hplain, -, hsame⟩ := h
  rw [hsame hsettled]
  exact hplain.now_le [] s

theorem ne_interrupted (h : Heeds alarms work s) : (work [] s).1 ≠ .interrupted := by
  obtain ⟨job, hplain, -, hsame⟩ := h
  intro hinterrupted
  have hsettled : (work [] s).1 ≠ .unsettled := by
    rw [hinterrupted]
    simp
  rw [hsame hsettled] at hinterrupted
  exact hplain.ne_interrupted s hinterrupted

theorem quiet (h : Heeds alarms work s) (hsettled : (work [] s).1 ≠ .unsettled)
    (hquiet : ringsBy alarms (work [] s).2.now = false) : work alarms s = work [] s := by
  obtain ⟨job, hplain, hunder, hsame⟩ := h
  rw [hsame hsettled] at hquiet ⊢
  rw [hunder, hplain.quiet hquiet]

theorem le_time (h : Heeds alarms work s) (hnow : ∀ a ∈ alarms, s.now ≤ a.time) :
    ∀ a ∈ alarms, (work alarms s).2.now ≤ a.time := by
  obtain ⟨job, hplain, hunder, -⟩ := h
  rw [hunder]
  exact hplain.le_time hnow

/-- Work that ends under alarms before they ring would have ended so without them, if alarms that
ring are all that work without an end can come to. -/
theorem eq_of_silent (h : Heeds alarms work s) (hnow : ∀ a ∈ alarms, s.now ≤ a.time)
    (hendless : (work [] s).1 = .unsettled → ringsBy alarms (work alarms s).2.now = true)
    (hsilent : ringsBy alarms (work alarms s).2.now = false) :
    (work [] s).1 ≠ .unsettled ∧ work alarms s = work [] s := by
  have hsettled : (work [] s).1 ≠ .unsettled := by
    intro hopen
    rw [hendless hopen] at hsilent
    cases hsilent
  refine ⟨hsettled, ?_⟩
  cases hrings : ringsBy alarms (work [] s).2.now with
  | false => exact h.quiet hsettled hrings
  | true =>
    -- Alarms that ring before the end would have stopped the work.
    obtain ⟨job, hplain, hunder, hsame⟩ := h
    rw [hsame hsettled] at hrings
    rw [hunder, (hplain.stopsAt_of_rings hnow hrings).rings] at hsilent
    cases hsilent

theorem dated_le (h : Heeds alarms work s) (hjournal : s.journal = []) :
    ∀ p ∈ (work alarms s).2.journal.dated s.now, p.1 ≤ (work alarms s).2.now := by
  obtain ⟨job, hplain, hunder, -⟩ := h
  obtain ⟨j, hj, hdated, -⟩ := hplain.leaves alarms s
  rw [hjournal, List.append_nil] at hj
  rw [hunder, hj]
  exact hdated

end Heeds

/-! ## Runs one after the other -/

section Runs

variable {works : List (Work σ ν α)} {start : Nat} {w : σ}

theorem runEach_cons {work : Work σ ν α} {rest : List (Work σ ν α)} {o : Outcome α} {t : Stage σ ν}
    (h : work alarms ⟨start, w, []⟩ = (o, t)) :
    runEach alarms start w (work :: rest)
      = ((o, t.now, t.journal) :: (runEach alarms start t.world rest).1,
        (runEach alarms start t.world rest).2) := by
  simp only [runEach, h]

/-- How the first of some pieces of work ends, and how those behind it do. -/
theorem map_runEach_cons (work : Work σ ν α) (rest : List (Work σ ν α)) :
    (runEach alarms start w (work :: rest)).1.map (fun run => (run.1, run.2.1))
      = ((work alarms ⟨start, w, []⟩).1, (work alarms ⟨start, w, []⟩).2.now)
        :: (runEach alarms start (work alarms ⟨start, w, []⟩).2.world rest).1.map
          (fun run => (run.1, run.2.1)) := by
  rcases hrun : work alarms ⟨start, w, []⟩ with ⟨o, t⟩
  rw [runEach_cons hrun]
  rfl

/-- Each run is one of the pieces of work, from the world that those before it have left. -/
theorem exists_of_mem_runEach {run : Outcome α × Nat × Journal ν}
    (h : run ∈ (runEach alarms start w works).1) :
    ∃ work ∈ works, ∃ v : σ, ∃ o t, work alarms ⟨start, v, []⟩ = (o, t)
      ∧ run = (o, t.now, t.journal) := by
  induction works generalizing w with
  | nil => cases h
  | cons work rest ih =>
    rcases hrun : work alarms ⟨start, w, []⟩ with ⟨o, t⟩
    rw [runEach_cons hrun] at h
    rcases List.mem_cons.mp h with rfl | hlater
    · exact ⟨work, List.mem_cons_self, w, o, t, hrun, rfl⟩
    · obtain ⟨other, hother, hexists⟩ := ih hlater
      exact ⟨other, List.mem_cons_of_mem work hother, hexists⟩

variable (hheeds : ∀ work ∈ works, ∀ v : σ, Heeds alarms work ⟨start, v, []⟩)

include hheeds

/-- Runs that are all over before the alarms are not changed by them. -/
theorem runEach_of_quiet (hquiet : ∀ run ∈ (runEach [] start w works).1,
      run.1 ≠ .unsettled ∧ ringsBy alarms run.2.1 = false) :
    runEach alarms start w works = runEach [] start w works := by
  -- Each run leaves the world in which the next one starts, so that they are compared in order.
  induction works generalizing w with
  | nil => rfl
  | cons work rest ih =>
    rcases hrun : work [] ⟨start, w, []⟩ with ⟨o, t⟩
    rw [runEach_cons hrun] at hquiet ⊢
    obtain ⟨⟨hsettled, hsilent⟩, hlater⟩ := List.forall_mem_cons.mp hquiet
    have hfirst := hheeds work List.mem_cons_self w
    have hsame : work alarms ⟨start, w, []⟩ = (o, t) := by
      rw [← hrun]
      refine hfirst.quiet ?_ ?_
      · rw [hrun]
        exact hsettled
      · rw [hrun]
        exact hsilent
    rw [runEach_cons hsame,
      ih (fun other hother => hheeds other (List.mem_cons_of_mem work hother)) hlater]

/-- If no run under the alarms has heard them, then the runs are over before them anyway. -/
theorem quiet_of_runEach_silent (hnow : ∀ a ∈ alarms, start ≤ a.time)
    (hendless : (∃ run ∈ (runEach [] start w works).1, run.1 = .unsettled) →
      ∀ work ∈ works, ∀ v : σ, (work [] ⟨start, v, []⟩).1 = .unsettled →
        ringsBy alarms (work alarms ⟨start, v, []⟩).2.now = true)
    (hsilent : ∀ run ∈ (runEach alarms start w works).1, ringsBy alarms run.2.1 = false) :
    ∀ run ∈ (runEach [] start w works).1,
      run.1 ≠ .unsettled ∧ ringsBy alarms run.2.1 = false := by
  induction works generalizing w with
  | nil =>
    intro run hrun
    cases hrun
  | cons work rest ih =>
    rcases hunder : work alarms ⟨start, w, []⟩ with ⟨o, t⟩
    rcases hfree : work [] ⟨start, w, []⟩ with ⟨o', t'⟩
    rw [runEach_cons hunder] at hsilent
    rw [runEach_cons hfree] at hendless ⊢
    obtain ⟨hfirst, hlater⟩ := List.forall_mem_cons.mp hsilent
    have hquiet : ringsBy alarms (work alarms ⟨start, w, []⟩).2.now = false := by
      rw [hunder]
      exact hfirst
    have hfirstEndless : (work [] ⟨start, w, []⟩).1 = .unsettled →
        ringsBy alarms (work alarms ⟨start, w, []⟩).2.now = true := by
      intro hopen
      refine hendless ⟨_, List.mem_cons_self, ?_⟩ work List.mem_cons_self w hopen
      rw [hfree] at hopen
      exact hopen
    -- The first run leaves the same world with and without the alarms.
    obtain ⟨hsettled, hsame⟩ := (hheeds work List.mem_cons_self w).eq_of_silent hnow
      hfirstEndless hquiet
    rw [hunder, hfree] at hsame
    cases hsame
    rw [hfree] at hsettled
    refine List.forall_mem_cons.mpr ⟨⟨hsettled, hfirst⟩, ?_⟩
    refine ih (fun other hother => hheeds other (List.mem_cons_of_mem work hother)) ?_ hlater
    rintro ⟨run, hrun, hopen⟩ other hother
    exact hendless ⟨run, List.mem_cons_of_mem _ hrun, hopen⟩ other
      (List.mem_cons_of_mem work hother)

/-- If one of the runs is not over before the alarms, then one of the runs under them has heard
them. -/
theorem exists_rings_runEach (hnow : ∀ a ∈ alarms, start ≤ a.time)
    (hendless : (∃ run ∈ (runEach [] start w works).1, run.1 = .unsettled) →
      ∀ work ∈ works, ∀ v : σ, (work [] ⟨start, v, []⟩).1 = .unsettled →
        ringsBy alarms (work alarms ⟨start, v, []⟩).2.now = true)
    (hoverdue : ∃ run ∈ (runEach [] start w works).1,
      run.1 = .unsettled ∨ ringsBy alarms run.2.1 = true) :
    ∃ run ∈ (runEach alarms start w works).1, ringsBy alarms run.2.1 = true := by
  by_contra hnone
  have hsilent : ∀ run ∈ (runEach alarms start w works).1, ringsBy alarms run.2.1 = false := by
    intro run hrun
    rw [← Bool.not_eq_true]
    intro hrings
    exact hnone ⟨run, hrun, hrings⟩
  obtain ⟨run, hrun, hlate⟩ := hoverdue
  obtain ⟨hsettled, hquiet⟩ := quiet_of_runEach_silent hheeds hnow hendless hsilent run hrun
  rcases hlate with hopen | hrings
  · exact hsettled hopen
  · rw [hquiet] at hrings
    cases hrings

end Runs

/-! ## Results -/

/-- What is neither unsettled nor interrupted has a result. -/
theorem exists_results {outcomes : List (Outcome α)}
    (h : ∀ o ∈ outcomes, o ≠ .unsettled ∧ o ≠ .interrupted) :
    ∃ results : List (Except Failure α), outcomes = results.map ended := by
  induction outcomes with
  | nil => exact ⟨[], rfl⟩
  | cons o outcomes ih =>
    obtain ⟨⟨hsettled, hkept⟩, hlater⟩ := List.forall_mem_cons.mp h
    obtain ⟨results, rfl⟩ := ih hlater
    cases o with
    | done a => exact ⟨.ok a :: results, rfl⟩
    | failed e => exact ⟨.error e :: results, rfl⟩
    | interrupted => exact absurd rfl hkept
    | unsettled => exact absurd rfl hsettled

/-- A failure behind values only is the first one. -/
theorem firstFailure_eq_error {results : List (Except Failure α)}
    {earlier later : List (Outcome α)} {e : Failure}
    (h : results.map ended = earlier ++ .failed e :: later)
    (hdone : ∀ o ∈ earlier, ∃ a, o = .done a) : firstFailure results = .error e := by
  induction earlier generalizing results with
  | nil =>
    obtain ⟨r, rest, rfl, hr, -⟩ := List.map_eq_cons_iff.mp h
    rw [ended_eq_failed_iff.mp hr]
    rfl
  | cons o earlier ih =>
    obtain ⟨r, rest, rfl, hr, hrest⟩ := List.map_eq_cons_iff.mp h
    obtain ⟨⟨a, rfl⟩, hlater⟩ := List.forall_mem_cons.mp hdone
    rw [ended_eq_done_iff.mp hr, firstFailure, ih hrest hlater]
    rfl

/-- Without a failure there are values. -/
theorem exists_firstFailure_eq_ok {results : List (Except Failure α)}
    (h : ∀ r ∈ results, ∃ a, ended r = .done a) : ∃ values, firstFailure results = .ok values := by
  induction results with
  | nil => exact ⟨[], rfl⟩
  | cons r results ih =>
    obtain ⟨⟨a, ha⟩, hlater⟩ := List.forall_mem_cons.mp h
    obtain ⟨values, hvalues⟩ := ih hlater
    refine ⟨a :: values, ?_⟩
    rw [ended_eq_done_iff.mp ha, firstFailure, hvalues]
    rfl

/-! ## Work done together -/

/-- The latest of some instants is one of them. -/
theorem latest_eq_or {β : Type} {f : β → Nat} {start : Nat} (xs : List β) :
    latest f start xs = start ∨ ∃ x ∈ xs, latest f start xs = f x := by
  induction xs generalizing start with
  | nil => exact .inl rfl
  | cons x xs ih =>
    have hcons : latest f start (x :: xs) = latest f (max start (f x)) xs := rfl
    have hrest : latest f (max start (f x)) xs = max start (f x)
        ∨ ∃ y ∈ xs, latest f (max start (f x)) xs = f y := ih
    rw [hcons]
    rcases hrest with hfirst | ⟨y, hy, heq⟩
    · rcases Nat.le_total start (f x) with hle | hle
      · exact .inr ⟨x, List.mem_cons_self, by omega⟩
      · exact .inl (by omega)
    · exact .inr ⟨y, List.mem_cons_of_mem x hy, heq⟩

/-- Work that is resolved together stands where it stood when all of it had ended. -/
theorem resolveAll_stage {works : List (Work σ ν α)} (h : works ≠ []) (l : Limit) (what : String)
    (s : Stage σ ν) :
    (resolveAll (.ok (some l)) what works [] s).2
      = (together (some l) works [l.alarm s.now] s).2 := by
  have hwithin : (within (some l) what (together (some l) works) [] s).2
      = (together (some l) works [l.alarm s.now] s).2 := by
    simp only [within]
    rcases together (some l) works [l.alarm s.now] s with ⟨o, t⟩
    split
    next heq =>
      cases heq
      rfl
    next heq =>
      cases heq
      split <;> rfl
    next => rfl
  rw [resolveAll_of_ne_nil h]
  show (andThen _ _ [] s).2 = _
  rw [← hwithin, andThen]
  rcases within (some l) what (together (some l) works) [] s with ⟨o, t⟩
  cases o with
  | done results =>
    show (ofExcept (firstFailure results) [] t).2 = t
    rw [ofExcept_eq]
  | failed e => rfl
  | interrupted => rfl
  | unsettled => rfl

section Together

variable {works : List (Work σ ν α)} {s : Stage σ ν} {runs : List (Outcome α × Nat × Journal ν)}
  {w : σ}

/-- Work that is done together without a deadline comes to what stands first among the failures, or
to all values. -/
theorem resolveAll_of_settled (hworks : works ≠ []) (what : String)
    (hruns : runEach [] s.now s.world works = (runs, w)) {results : List (Except Failure α)}
    (hresults : runs.map Prod.fst = results.map ended) :
    ∃ t, resolveAll (.ok none) what works [] s = (ended (firstFailure results), t)
      ∧ t.now = latest (fun run => run.2.1) s.now runs := by
  obtain ⟨late, htogether⟩ := together_eq none hruns
  rw [hresults, settled_map_ended] at htogether
  obtain ⟨t, hdone, hnow⟩ : ∃ t, within none what (together none works) [] s = (.done results, t)
      ∧ t.now = latest (fun run => run.2.1) s.now runs := ⟨_, htogether, rfl⟩
  refine ⟨t, ?_, hnow⟩
  rw [resolveAll_of_ne_nil hworks, andThen_of_done hdone, ofExcept_eq]

variable {l : Limit} (hheeds : ∀ work ∈ works, ∀ v : σ, Heeds [l.alarm s.now] work ⟨s.now, v, []⟩)

include hheeds

/-- Pieces of work that are all over before a deadline end together as they would without it. -/
theorem resolveAll_in_time (hworks : works ≠ []) (what : String)
    (hruns : runEach [] s.now s.world works = (runs, w))
    (hintime : ∀ run ∈ runs, run.1 ≠ .unsettled ∧ run.2.1 + l.leeway < s.now + l.span) :
    resolveAll (.ok (some l)) what works [] s = resolveAll (.ok none) what works [] s := by
  have hsame : runEach [l.alarm s.now] s.now s.world works = (runs, w) := by
    rw [← hruns]
    refine runEach_of_quiet hheeds fun run hrun => ?_
    rw [hruns] at hrun
    obtain ⟨hsettled, hbefore⟩ := hintime run hrun
    refine ⟨hsettled, ?_⟩
    rw [ringsBy_alarm, decide_eq_false_iff_not]
    omega
  -- The deadline is still to come when the last of the pieces ends.
  have hlast : latest (fun run => run.2.1) s.now runs + l.leeway < s.now + l.span := by
    have hattained : latest (fun run => run.2.1) s.now runs = s.now
        ∨ ∃ run ∈ runs, latest (fun run => run.2.1) s.now runs = run.2.1 := latest_eq_or runs
    rcases hattained with hstart | ⟨run, hrun, heq⟩
    · obtain ⟨run, hrun, hlater⟩ : ∃ run ∈ runs, s.now ≤ run.2.1 := by
        cases works with
        | nil => exact absurd rfl hworks
        | cons work rest =>
          rcases hfirst : work [] ⟨s.now, s.world, []⟩ with ⟨o, t⟩
          rw [runEach_cons hfirst] at hruns
          cases hruns
          have hsettled := (hintime _ List.mem_cons_self).1
          have hlater := (hheeds work List.mem_cons_self s.world).later
          rw [hfirst] at hlater
          exact ⟨_, List.mem_cons_self, hlater hsettled⟩
      have := (hintime run hrun).2
      omega
    · rw [heq]
      exact (hintime run hrun).2
  have hquiet : ringsBy [l.alarm s.now] (latest (fun run => run.2.1) s.now runs) = false := by
    rw [ringsBy_alarm, decide_eq_false_iff_not]
    omega
  have htogether : together (some l) works [l.alarm s.now] s = together none works [] s := by
    have hring : (l.alarm s.now).ringsBy (latest (fun run => run.2.1) s.now runs) = false :=
      (Bool.or_false _).symm.trans hquiet
    have hopen : ringsBy [] (latest (fun run => run.2.1) s.now runs) = false := rfl
    simp only [together, hsame, hruns, ← latest.eq_def, hquiet, hring, hopen, Option.any_some,
      Option.any_none, Bool.and_false]
  have hwithin : within (some l) what (together (some l) works) [] s
      = within none what (together none works) [] s := by
    obtain ⟨late, hfree⟩ := together_eq none hruns
    have hnone : within none what (together none works) [] s = together none works [] s := rfl
    rw [hnone]
    rw [hfree] at htogether ⊢
    refine within_of_quiet ?_ hquiet htogether
    split
    next hrung => cases hrung
    next => split <;> simp
  rw [resolveAll_of_ne_nil hworks, resolveAll_of_ne_nil hworks]
  show andThen _ _ [] s = andThen _ _ [] s
  simp only [andThen, hwithin]

/-- Pieces of work of which one is not over before a deadline are stopped together at it. -/
theorem resolveAll_overdue (hworks : works ≠ []) (what : String)
    (hruns : runEach [] s.now s.world works = (runs, w))
    (hendless : (∃ run ∈ runs, run.1 = .unsettled) →
      ∀ work ∈ works, ∀ v : σ, (work [] ⟨s.now, v, []⟩).1 = .unsettled →
        ringsBy [l.alarm s.now] (work [l.alarm s.now] ⟨s.now, v, []⟩).2.now = true)
    (hoverdue : ∃ run ∈ runs, run.1 = .unsettled ∨ s.now + l.span ≤ run.2.1 + l.leeway) :
    ∃ t, resolveAll (.ok (some l)) what works [] s = (.failed (.pollTimeout what l.shown), t)
      ∧ s.now + l.span ≤ t.now + l.leeway := by
  rcases hunder : runEach [l.alarm s.now] s.now s.world works with ⟨heard, v⟩
  have hrung : ∃ run ∈ heard, ringsBy [l.alarm s.now] run.2.1 = true := by
    have hexists := exists_rings_runEach hheeds (w := s.world) (le_time_alarm l s.now)
    rw [hruns, hunder] at hexists
    refine hexists hendless ?_
    obtain ⟨run, hrun, hlate⟩ := hoverdue
    refine ⟨run, hrun, hlate.imp_right fun hlate => ?_⟩
    rw [ringsBy_alarm, decide_eq_true_eq]
    exact hlate
  have hlast : ringsBy [l.alarm s.now] (latest (fun run => run.2.1) s.now heard) = true := by
    obtain ⟨run, hrun, hrings⟩ := hrung
    exact ringsBy_of_le ((latest_le_iff.mp (Nat.le_refl _)).2 run hrun) hrings
  obtain ⟨late, htogether⟩ := together_eq (some l) hunder
  obtain ⟨t, hstopped, hend⟩ : ∃ t, together (some l) works [l.alarm s.now] s = (.interrupted, t)
      ∧ t.now = latest (fun run => run.2.1) s.now heard := by
    rw [if_pos hlast] at htogether
    exact ⟨_, htogether, rfl⟩
  refine ⟨t, ?_, ?_⟩
  · rw [resolveAll_of_ne_nil hworks, andThen_of_failed (within_of_interrupted hstopped)]
  · rw [ringsBy_alarm, decide_eq_true_eq] at hlast
    rw [hend]
    exact hlast

/-- However pieces of work end together, it is not after their deadline, and nothing that they leave
behind is dated later than their end. -/
theorem resolveAll_leaves (hworks : works ≠ []) (what : String) :
    (resolveAll (.ok (some l)) what works [] s).2.now ≤ s.now + l.span
    ∧ ∃ j : Journal ν, (resolveAll (.ok (some l)) what works [] s).2.journal = j ++ s.journal
      ∧ j.present s.now = (resolveAll (.ok (some l)) what works [] s).2.now
      ∧ ∀ p ∈ j.dated s.now, p.1 ≤ (resolveAll (.ok (some l)) what works [] s).2.now := by
  rw [resolveAll_stage hworks]
  rcases hunder : runEach [l.alarm s.now] s.now s.world works with ⟨heard, v⟩
  have hheard : ∀ run ∈ heard, run.2.1 ≤ s.now + l.span
      ∧ ∀ p ∈ run.2.2.dated s.now, p.1 ≤ run.2.1 := by
    intro run hrun
    have hmem : run ∈ (runEach [l.alarm s.now] s.now s.world works).1 := by
      rw [hunder]
      exact hrun
    obtain ⟨work, hwork, u, o, t, heq, rfl⟩ := exists_of_mem_runEach hmem
    have hheed := hheeds work hwork u
    have hle := hheed.le_time (le_time_alarm l s.now) _ (List.mem_singleton_self _)
    have hdated := hheed.dated_le rfl
    rw [heq] at hle hdated
    exact ⟨hle, hdated⟩
  obtain ⟨late, htogether⟩ := together_eq (some l) hunder
  rw [htogether]
  have hlatest : ∀ run ∈ heard, run.2.1 ≤ latest (fun run => run.2.1) s.now heard :=
    (latest_le_iff.mp (Nat.le_refl _)).2
  refine ⟨latest_le_iff.mpr ⟨Nat.le_add_right _ _, fun run hrun => (hheard run hrun).1⟩,
    _, rfl, rfl, ?_⟩
  intro p hp
  obtain ⟨j, hj, hp⟩ := mem_dated_interleave hp
  obtain ⟨run, hrun, rfl⟩ := List.mem_map.mp hj
  exact Nat.le_trans ((hheard run hrun).2 p hp) (hlatest run hrun)

end Together

end Work

end BeaconHarness
