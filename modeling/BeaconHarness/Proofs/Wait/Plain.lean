import BeaconHarness.Proofs.Wait.Alarm
import BeaconHarness.Proofs.Wait.Dates
import BeaconHarness.Wait.Poll

/-!
# Plain work

Work is plain if it is put together from sleeps, notes, looks and changes without a deadline of its
own, and lets itself be called off. All that alarms can do to it is to stop it: under alarms that
have not rung by the time it would end they change nothing, and otherwise it is stopped by them. How
plain work ends under a deadline can therefore be read off the one run that nothing stops.

Main statements: `Plain.quiet`, `Plain.stopped` and, for the notes that plain work leaves,
`Plain.leaves`.
-/

namespace BeaconHarness

namespace Work

variable {σ ν α β : Type}

/-! ## Followed work -/

section Followed

variable {absorbs : Bool} {work : Work σ ν α} {next : Except Failure α → Work σ ν β}
  {alarms : List Alarm} {s t : Stage σ ν}

theorem followed_of_done {a : α} (h : work alarms s = (.done a, t)) :
    followed absorbs work next alarms s = next (.ok a) alarms t := by
  simp only [followed, h]

theorem followed_of_failed {e : Failure} (h : work alarms s = (.failed e, t)) :
    followed absorbs work next alarms s = next (.error e) alarms t := by
  simp only [followed, h]

theorem followed_of_interrupted (h : work alarms s = (.interrupted, t)) :
    followed false work next alarms s = (.interrupted, t) := by
  simp only [followed, h]
  rfl

theorem followed_of_unsettled (h : work alarms s = (.unsettled, t)) :
    followed absorbs work next alarms s = (.unsettled, t) := by
  simp only [followed, h]

end Followed

/-- Goes on with a value, and leaves a failure as it is. -/
def goOn (next : α → Work σ ν β) : Except Failure α → Work σ ν β
  | .ok a => next a
  | .error e => fail e

/-- A sequence of work is work that is followed where it has a value. -/
theorem bind_eq_followed (work : Work σ ν α) (next : α → Work σ ν β) :
    (work >>= next) = followed false work (goOn next) := by
  funext alarms s
  show andThen work next alarms s = _
  simp only [andThen, followed]
  split <;> rfl

/-! ## Plain work -/

/-- Work without deadlines that does not go on when it is called off. -/
inductive Plain {σ ν : Type} : {α : Type} → Work σ ν α → Prop
  | done {α : Type} (a : α) : Plain (done a)
  | fail {α : Type} (e : Failure) : Plain (fail e : Work σ ν α)
  | unsettled {α : Type} : Plain (unsettled : Work σ ν α)
  | clock : Plain clock
  | world : Plain world
  | change (f : σ → σ) : Plain (change f)
  | note (n : ν) : Plain (note n)
  | sleep (length : Nat) : Plain (sleep length)
  | followed {α β : Type} {work : Work σ ν α} {next : Except Failure α → Work σ ν β}
      (h : Plain work) (hnext : ∀ r, Plain (next r)) : Plain (followed false work next)

namespace Plain

/-! ## One run and another -/

/-- The clock never goes back. -/
theorem now_le {work : Work σ ν α} (h : Plain work) (alarms : List Alarm) (s : Stage σ ν) :
    s.now ≤ (work alarms s).2.now := by
  induction h generalizing s with
  | sleep length =>
    have hle : s.now ≤ max s.now (earliest alarms (s.now + length)) := Nat.le_max_left _ _
    simp only [Work.sleep]
    split <;> exact hle
  | @followed α β work next _ _ ih ihnext =>
    have hwork := ih s
    rcases hrun : work alarms s with ⟨o, t⟩
    rw [hrun] at hwork
    cases o with
    | done a =>
      rw [followed_of_done hrun]
      exact Nat.le_trans hwork (ihnext (.ok a) t)
    | failed e =>
      rw [followed_of_failed hrun]
      exact Nat.le_trans hwork (ihnext (.error e) t)
    | interrupted =>
      rw [followed_of_interrupted hrun]
      exact hwork
    | unsettled =>
      rw [followed_of_unsettled hrun]
      exact hwork
  | _ => exact Nat.le_refl _

/-- Nothing interrupts work that has no alarms. -/
theorem ne_interrupted {work : Work σ ν α} (h : Plain work) (s : Stage σ ν) :
    (work [] s).1 ≠ .interrupted := by
  induction h generalizing s with
  | sleep length => exact nofun
  | @followed α β work next _ _ ih ihnext =>
    have hwork := ih s
    rcases hrun : work [] s with ⟨o, t⟩
    rw [hrun] at hwork
    cases o with
    | done a =>
      rw [followed_of_done hrun]
      exact ihnext (.ok a) t
    | failed e =>
      rw [followed_of_failed hrun]
      exact ihnext (.error e) t
    | interrupted => exact absurd rfl hwork
    | unsettled =>
      rw [followed_of_unsettled hrun]
      exact nofun
  | _ => exact nofun

/-- Alarms that have not rung by the time work would end without them change nothing. -/
theorem quiet {work : Work σ ν α} (h : Plain work) {alarms : List Alarm} {s : Stage σ ν}
    (hquiet : ringsBy alarms (work [] s).2.now = false) : work alarms s = work [] s := by
  induction h generalizing s with
  | sleep length =>
    have hwake : (Work.sleep length : Work σ ν Unit) [] s = (.done (),
      { s with now := s.now + length, journal := .woke (s.now + length) :: s.journal }) :=
      sleep_of_lt rfl
    rw [hwake] at hquiet ⊢
    exact sleep_of_lt hquiet
  | @followed α β work next hplain hnext ih ihnext =>
    -- What comes first ends no later than the whole, so that no alarm has rung by then either.
    rcases hrun : work [] s with ⟨o, t⟩
    have hfirst : ringsBy alarms t.now = false → work alarms s = (o, t) := by
      intro ht
      have := ih (s := s)
      rw [hrun] at this
      exact this ht
    cases o with
    | done a =>
      rw [followed_of_done hrun] at hquiet ⊢
      have hearlier := not_ringsBy_of_le ((hnext (.ok a)).now_le [] t) hquiet
      rw [followed_of_done (hfirst hearlier)]
      exact ihnext (.ok a) hquiet
    | failed e =>
      rw [followed_of_failed hrun] at hquiet ⊢
      have hearlier := not_ringsBy_of_le ((hnext (.error e)).now_le [] t) hquiet
      rw [followed_of_failed (hfirst hearlier)]
      exact ihnext (.error e) hquiet
    | interrupted =>
      have := hplain.ne_interrupted s
      rw [hrun] at this
      exact absurd rfl this
    | unsettled =>
      rw [followed_of_unsettled hrun] at hquiet ⊢
      exact followed_of_unsettled (hfirst hquiet)
  | _ => rfl

/-- Alarms that are still to come when work starts and have rung by the time it would end without
them stop it. -/
theorem stopped {work : Work σ ν α} (h : Plain work) {alarms : List Alarm} {s : Stage σ ν}
    (hnow : ringsBy alarms s.now = false) (hrings : ringsBy alarms (work [] s).2.now = true) :
    ∃ t, work alarms s = (.interrupted, t) ∧ StopsAt alarms t.now := by
  induction h generalizing s with
  | sleep length =>
    have hfree : (Work.sleep length : Work σ ν Unit) [] s = (.done (),
      { s with now := s.now + length, journal := .woke (s.now + length) :: s.journal }) :=
      sleep_of_lt rfl
    rw [hfree] at hrings
    have hwake : ringsBy alarms (s.now + length) = true := hrings
    obtain ⟨stop, hstop, hsleep⟩ := sleep_of_rings (le_time_of_not_ringsBy hnow) hwake
    exact ⟨_, hsleep, hstop⟩
  | @followed α β work next hplain hnext ih ihnext =>
    rcases hrun : work [] s with ⟨o, t⟩
    cases hfirst : ringsBy alarms t.now with
    | true =>
      have hend : ringsBy alarms (work [] s).2.now = true := by
        rw [hrun]
        exact hfirst
      obtain ⟨u, hu, hstop⟩ := ih hnow hend
      exact ⟨u, followed_of_interrupted hu, hstop⟩
    | false =>
      have hsame : work alarms s = (o, t) := by
        rw [← hrun]
        exact hplain.quiet (by rw [hrun]; exact hfirst)
      cases o with
      | done a =>
        rw [followed_of_done hrun] at hrings
        rw [followed_of_done hsame]
        exact ihnext (.ok a) hfirst hrings
      | failed e =>
        rw [followed_of_failed hrun] at hrings
        rw [followed_of_failed hsame]
        exact ihnext (.error e) hfirst hrings
      | interrupted =>
        have := hplain.ne_interrupted s
        rw [hrun] at this
        exact absurd rfl this
      | unsettled =>
        rw [followed_of_unsettled hrun, hfirst] at hrings
        exact nomatch hrings
  | _ =>
    have hagain : ringsBy alarms s.now = true := hrings
    rw [hnow] at hagain
    exact nomatch hagain

/-! ## Ways to put plain work together -/

theorem bind {work : Work σ ν α} {next : α → Work σ ν β} (h : Plain work)
    (hnext : ∀ a, Plain (next a)) : Plain (work >>= next) := by
  rw [bind_eq_followed]
  refine .followed h fun r => ?_
  cases r with
  | ok a => exact hnext a
  | error e => exact .fail e

theorem ofExcept (r : Except Failure α) : Plain (Work.ofExcept r : Work σ ν α) := by
  cases r with
  | ok a => exact .done a
  | error e => exact .fail e

theorem attempt {work : Work σ ν α} (h : Plain work) : Plain (Work.attempt work) :=
  .followed h fun r => .done r

theorem sleepFor (d : Datum) : Plain (Work.sleepFor d : Work σ ν Unit) := by
  rw [Work.sleepFor]
  split
  · exact .sleep 0
  · exact .bind .clock fun now => .sleep _
  · exact .fail _

theorem pause (d : Datum) : Plain (Work.pause d : Work σ ν Unit) := by
  rw [Work.pause]
  split
  · exact .sleepFor d
  · exact .done ()

section Rounds

variable {wait : Work σ ν Unit} {retryOn : List FailureKind} {query : Work σ ν (Option α)}

/-- A poll is plain unless being called off counts as "not yet". -/
theorem pollRounds (hkept : absorbs retryOn = false) (hwait : Plain wait) (hquery : Plain query)
    (rounds : Nat) : Plain (Work.pollRounds wait retryOn query rounds) := by
  induction rounds with
  | zero => exact .unsettled
  | succ rounds ih =>
    rw [Work.pollRounds, hkept]
    refine .bind hwait fun _ => .followed hquery fun answer => ?_
    split
    · exact .done _
    · exact ih
    · split
      · exact ih
      · exact .fail _

theorem retryRounds (hkept : absorbs retryOn = false) (hwait : Plain wait)
    (hquery : Plain query) (rounds : Nat) :
    Plain (Work.retryRounds wait retryOn query rounds) := by
  induction rounds with
  | zero => exact .unsettled
  | succ rounds ih =>
    rw [Work.retryRounds, hkept]
    refine .followed hquery fun answer => ?_
    split
    · exact .done _
    · exact .bind hwait fun _ => ih
    · split
      · exact .bind hwait fun _ => ih
      · exact .fail _

end Rounds

/-! ## What work leaves -/

/-- What work puts in front of a journal is dated no later than its end, and unless the work was
stopped, the journal shows that end. -/
theorem leaves {work : Work σ ν α} (h : Plain work) (alarms : List Alarm) (s : Stage σ ν) :
    ∃ j : Journal ν, (work alarms s).2.journal = j ++ s.journal
      ∧ (∀ p ∈ j.dated s.now, p.1 ≤ (work alarms s).2.now)
      ∧ ((work alarms s).1 ≠ .interrupted → j.present s.now = (work alarms s).2.now) := by
  induction h generalizing s with
  | note n =>
    refine ⟨[.note n], rfl, ?_, fun _ => rfl⟩
    intro p hp
    rw [List.mem_singleton.mp hp]
    exact Nat.le_refl _
  | sleep length =>
    refine ⟨[.woke (s.now + length)], ?_, ?_, ?_⟩
    · simp only [Work.sleep]
      split <;> rfl
    · intro p hp
      cases hp
    · intro hends
      cases hwake : ringsBy alarms (s.now + length) with
      | true =>
        simp only [Work.sleep, hwake, if_true] at hends
        exact absurd rfl hends
      | false =>
        rw [sleep_of_lt hwake]
        rfl
  | @followed α β work next hplain hnext ih ihnext =>
    obtain ⟨j, hj, hdated, hpresent⟩ := ih s
    rcases hrun : work alarms s with ⟨o, t⟩
    rw [hrun] at hj hdated hpresent
    -- What comes next starts at the instant that the journal shows.
    have hrest : ∀ r, o ≠ .interrupted → ∃ k : Journal ν,
        (next r alarms t).2.journal = k ++ s.journal
        ∧ (∀ p ∈ k.dated s.now, p.1 ≤ (next r alarms t).2.now)
        ∧ ((next r alarms t).1 ≠ .interrupted → k.present s.now = (next r alarms t).2.now) := by
      intro r ho
      obtain ⟨k, hk, hkdated, hkpresent⟩ := ihnext r t
      refine ⟨k ++ j, by rw [hk, hj, List.append_assoc], ?_, ?_⟩
      · intro p hp
        rw [Journal.dated_append, List.mem_append, hpresent ho] at hp
        rcases hp with hp | hp
        · exact hkdated p hp
        · exact Nat.le_trans (hdated p hp) ((hnext r).now_le alarms t)
      · intro hends
        rw [Journal.present_append, hpresent ho]
        exact hkpresent hends
    cases o with
    | done a =>
      rw [followed_of_done hrun]
      exact hrest (.ok a) (by simp)
    | failed e =>
      rw [followed_of_failed hrun]
      exact hrest (.error e) (by simp)
    | interrupted =>
      rw [followed_of_interrupted hrun]
      exact ⟨j, hj, hdated, fun hends => absurd rfl hends⟩
    | unsettled =>
      rw [followed_of_unsettled hrun]
      exact ⟨j, hj, hdated, fun _ => hpresent (by simp)⟩
  | _ => exact ⟨[], rfl, by simp [Journal.dated], fun _ => rfl⟩

end Plain

end Work

end BeaconHarness
