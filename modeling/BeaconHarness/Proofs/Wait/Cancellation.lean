import BeaconHarness.Proofs.Wait.Retry
import BeaconHarness.Proofs.Wait.Settling

/-!
# Work that is called off

To call work off at an instant is to give it one more alarm, which rings behind all others. Plain
work that would have ended before that instant does not notice. All other plain work is interrupted
at the instant itself, wherever it is: in a wait, with a query in flight, or under a deadline that is
still to come. What it has left by then is what the same work leaves before that instant when nobody
calls it off, and nothing comes after it.

Main statements: `Plain.calledOff` for plain work, `pollUntil_calledOff` for polls with or without a
deadline, and `Repeats.calledOff` for polls that may never end.
-/

namespace BeaconHarness

namespace Work

variable {σ ν α : Type}

/-! ## The alarm of a call -/

/-- The alarm by which work is called off at an instant. -/
def callOff (c : Nat) : Alarm := ⟨c, 0⟩

section Alarms

variable {alarms : List Alarm} {c t : Nat}

theorem ringsBy_append_callOff :
    ringsBy (alarms ++ [callOff c]) t = (ringsBy alarms t || decide (c ≤ t)) := by
  rw [ringsBy, List.any_append]
  exact congrArg (ringsBy alarms t || ·) (Bool.or_false _)

theorem earliest_append_callOff :
    earliest (alarms ++ [callOff c]) t = min c (earliest alarms t) := by
  induction alarms with
  | nil => rfl
  | cons a alarms ih =>
    show min a.time (earliest (alarms ++ [callOff c]) t) = min c (min a.time (earliest alarms t))
    rw [ih]
    omega

/-- A sleep that begins when it is called off, and no later than it would have been stopped anyway,
is stopped at once. -/
theorem sleep_callOff_now (length : Nat) (s : Stage σ ν) :
    sleep length (alarms ++ [callOff s.now]) s
      = (.interrupted, { s with journal := .woke (s.now + length) :: s.journal }) := by
  have hrings : ringsBy (alarms ++ [callOff s.now]) (s.now + length) = true := by
    rw [ringsBy_append_callOff, decide_eq_true (Nat.le_add_right _ _), Bool.or_true]
  have htime : max s.now (earliest (alarms ++ [callOff s.now]) (s.now + length)) = s.now := by
    rw [earliest_append_callOff]
    omega
  simp only [sleep, hrings, htime, if_true]

end Alarms

/-! ## Plain work -/

/-- What work leaves that is called off at an instant, next to what it leaves when it is not. The
one stands at that instant and the other has got there; before that instant they have left the same,
and the one has left nothing since. -/
structure CutAt (c : Nat) (start free cut : Stage σ ν) : Prop where
  now : cut.now = c
  reached : c ≤ free.now
  lines : ∃ j k : Journal ν, cut.journal = j ++ start.journal ∧ free.journal = k ++ start.journal
    ∧ j.dated start.now = (k.dated start.now).filter fun p => p.1 < c

namespace Plain

variable {alarms : List Alarm} {c : Nat}

/-- Work that ends before it is called off does not notice. -/
theorem undisturbed {work : Work σ ν α} (h : Plain work) {s : Stage σ ν}
    (hearly : (work alarms s).2.now < c) :
    work (alarms ++ [callOff c]) s = work alarms s := by
  induction h generalizing s with
  | sleep length =>
    have hnow : (Work.sleep length alarms s).2.now
        = max s.now (earliest alarms (s.now + length)) := by
      simp only [Work.sleep]
      split <;> rfl
    rw [hnow] at hearly
    have htime : earliest (alarms ++ [callOff c]) (s.now + length)
        = earliest alarms (s.now + length) := by
      rw [earliest_append_callOff]
      omega
    have hrings : ringsBy (alarms ++ [callOff c]) (s.now + length)
        = ringsBy alarms (s.now + length) := by
      rw [ringsBy_append_callOff]
      cases hquiet : ringsBy alarms (s.now + length) with
      | true => rfl
      | false =>
        -- Nothing else stops the sleep, so that it would have ended in time.
        rw [earliest_of_not_ringsBy hquiet] at hearly
        rw [Bool.false_or, decide_eq_false_iff_not]
        omega
    simp only [Work.sleep, htime, hrings]
  | @followed α β work next hplain hnext ih ihnext =>
    rcases hrun : work alarms s with ⟨o, t⟩
    have hfirst : t.now < c → work (alarms ++ [callOff c]) s = (o, t) := by
      intro ht
      rw [← hrun]
      exact ih (by rw [hrun]; exact ht)
    cases o with
    | done a =>
      rw [followed_of_done hrun] at hearly ⊢
      have hlater := (hnext (.ok a)).now_le alarms t
      rw [followed_of_done (hfirst (by omega)), ihnext (.ok a) hearly]
    | failed e =>
      rw [followed_of_failed hrun] at hearly ⊢
      have hlater := (hnext (.error e)).now_le alarms t
      rw [followed_of_failed (hfirst (by omega)), ihnext (.error e) hearly]
    | interrupted =>
      rw [followed_of_interrupted hrun] at hearly ⊢
      exact followed_of_interrupted (hfirst hearly)
    | unsettled =>
      rw [followed_of_unsettled hrun] at hearly ⊢
      exact followed_of_unsettled (hfirst hearly)
  | _ => rfl

/-- What work puts in front of a journal is dated no earlier than its beginning. -/
theorem leaves_later {work : Work σ ν α} (h : Plain work) (alarms : List Alarm) (s : Stage σ ν) :
    ∃ j : Journal ν, (work alarms s).2.journal = j ++ s.journal
      ∧ ∀ p ∈ j.dated s.now, s.now ≤ p.1 := by
  induction h generalizing s with
  | note n =>
    refine ⟨[.note n], rfl, fun p hp => ?_⟩
    rw [List.mem_singleton.mp hp]
    exact Nat.le_refl _
  | sleep length =>
    refine ⟨[.woke (s.now + length)], ?_, fun p hp => absurd hp List.not_mem_nil⟩
    simp only [Work.sleep]
    split <;> rfl
  | @followed α β work next hplain hnext ih ihnext =>
    obtain ⟨j, hj, hlater⟩ := ih s
    obtain ⟨j', hj', -, hpresent⟩ := hplain.leaves alarms s
    obtain rfl : j' = j := List.append_cancel_right (hj'.symm.trans hj)
    have hstart := hplain.now_le alarms s
    rcases hrun : work alarms s with ⟨o, t⟩
    rw [hrun] at hj hpresent hstart
    have hrest : ∀ r, o ≠ .interrupted → ∃ k : Journal ν,
        (next r alarms t).2.journal = k ++ s.journal ∧ ∀ p ∈ k.dated s.now, s.now ≤ p.1 := by
      intro r ho
      obtain ⟨k, hk, hklater⟩ := ihnext r t
      refine ⟨k ++ j', by rw [hk, hj, List.append_assoc], fun p hp => ?_⟩
      rw [Journal.dated_append, hpresent ho, List.mem_append] at hp
      rcases hp with hp | hp
      · exact Nat.le_trans hstart (hklater p hp)
      · exact hlater p hp
    cases o with
    | done a =>
      rw [followed_of_done hrun]
      exact hrest (.ok a) (by simp)
    | failed e =>
      rw [followed_of_failed hrun]
      exact hrest (.error e) (by simp)
    | interrupted =>
      rw [followed_of_interrupted hrun]
      exact ⟨j', hj, hlater⟩
    | unsettled =>
      rw [followed_of_unsettled hrun]
      exact ⟨j', hj, hlater⟩
  | _ => exact ⟨[], rfl, fun p hp => absurd hp List.not_mem_nil⟩

/-- What follows work that has got to an instant leaves nothing from before it. -/
theorem filter_dated_append {work : Work σ ν α} (h : Plain work) (alarms : List Alarm)
    {start : Nat} {s : Stage σ ν} {k : Journal ν} (hpresent : k.present start = s.now)
    (hc : c ≤ s.now) :
    ∃ k' : Journal ν, (work alarms s).2.journal = k' ++ s.journal
      ∧ ((k' ++ k).dated start).filter (fun p => p.1 < c)
        = (k.dated start).filter fun p => p.1 < c := by
  obtain ⟨k', hk', hlater⟩ := h.leaves_later alarms s
  refine ⟨k', hk', ?_⟩
  have hnone : (k'.dated s.now).filter (fun p => p.1 < c) = [] := by
    rw [List.filter_eq_nil_iff]
    intro p hp
    have := hlater p hp
    rw [decide_eq_true_eq]
    omega
  rw [Journal.dated_append, hpresent, List.filter_append, hnone, List.nil_append]

/-- Work that begins before it is called off and would not have ended by then is interrupted at that
instant, with what it would have left before it. -/
theorem calledOff {work : Work σ ν α} (h : Plain work) {s : Stage σ ν} (hstart : s.now < c)
    (hlate : c ≤ (work alarms s).2.now) :
    ∃ t, work (alarms ++ [callOff c]) s = (.interrupted, t) ∧ CutAt c s (work alarms s).2 t := by
  induction h generalizing s with
  | sleep length =>
    have hnow : (Work.sleep length alarms s).2.now
        = max s.now (earliest alarms (s.now + length)) := by
      simp only [Work.sleep]
      split <;> rfl
    have hjournal : (Work.sleep length alarms s).2.journal
        = [.woke (s.now + length)] ++ s.journal := by
      simp only [Work.sleep]
      split <;> rfl
    have hwake := (earliest_le alarms (s.now + length)).1
    have hend : c ≤ earliest alarms (s.now + length) := by
      rw [hnow] at hlate
      omega
    have htime : max s.now (earliest (alarms ++ [callOff c]) (s.now + length)) = c := by
      rw [earliest_append_callOff]
      omega
    have hrings : ringsBy (alarms ++ [callOff c]) (s.now + length) = true := by
      rw [ringsBy_append_callOff, decide_eq_true (by omega), Bool.or_true]
    refine ⟨{ s with now := c, journal := .woke (s.now + length) :: s.journal }, ?_, rfl, hlate,
      [.woke (s.now + length)], [.woke (s.now + length)], rfl, hjournal, rfl⟩
    simp only [Work.sleep, hrings, htime, if_true]
  | @followed α β work next hplain hnext ih ihnext =>
    rcases hrun : work alarms s with ⟨o, u⟩
    obtain ⟨k, hk, hdated, hpresent⟩ := hplain.leaves alarms s
    rw [hrun] at hk hdated hpresent
    change ∀ p ∈ k.dated s.now, p.1 ≤ u.now at hdated
    by_cases hfirst : c ≤ u.now
    · -- What comes first is called off already, and what would have followed comes too late.
      obtain ⟨t, hcut, hnow, -, j, k', hj, hk', hlines⟩ := ih hstart (by rw [hrun]; exact hfirst)
      rw [hrun] at hk'
      obtain rfl : k' = k := List.append_cancel_right (hk'.symm.trans hk)
      have hrest : ∀ r, o ≠ .interrupted → CutAt c s (next r alarms u).2 t := by
        intro r ho
        obtain ⟨k'', hk'', hfilter⟩ := (hnext r).filter_dated_append alarms (hpresent ho)
          hfirst
        refine ⟨hnow, Nat.le_trans hfirst ((hnext r).now_le alarms u), j, k'' ++ k', hj, ?_, ?_⟩
        · rw [hk'', hk, List.append_assoc]
        · rw [hfilter, hlines]
      refine ⟨t, followed_of_interrupted hcut, ?_⟩
      cases o with
      | done a =>
        rw [followed_of_done hrun]
        exact hrest (.ok a) (by simp)
      | failed e =>
        rw [followed_of_failed hrun]
        exact hrest (.error e) (by simp)
      | interrupted =>
        rw [followed_of_interrupted hrun]
        exact ⟨hnow, hfirst, j, k', hj, hk, hlines⟩
      | unsettled =>
        rw [followed_of_unsettled hrun]
        exact ⟨hnow, hfirst, j, k', hj, hk, hlines⟩
    · -- What comes first is over by then, and what follows is called off.
      have hsame : work (alarms ++ [callOff c]) s = (o, u) := by
        rw [← hrun]
        exact hplain.undisturbed (by rw [hrun]; exact Nat.lt_of_not_le hfirst)
      have hall : (k.dated s.now).filter (fun p => p.1 < c) = k.dated s.now := by
        rw [List.filter_eq_self]
        intro p hp
        have := hdated p hp
        rw [decide_eq_true_eq]
        omega
      have hrest : ∀ r, o ≠ .interrupted → c ≤ (next r alarms u).2.now →
          ∃ t, next r (alarms ++ [callOff c]) u = (.interrupted, t)
            ∧ CutAt c s (next r alarms u).2 t := by
        intro r ho hreached
        obtain ⟨t, hcut, hnow, -, j, k', hj, hk', hlines⟩ := ihnext r (by omega) hreached
        refine ⟨t, hcut, hnow, hreached, j ++ k, k' ++ k, ?_, ?_, ?_⟩
        · rw [hj, hk, List.append_assoc]
        · rw [hk', hk, List.append_assoc]
        · rw [Journal.dated_append, Journal.dated_append, hpresent ho, List.filter_append, hlines,
            hall]
      cases o with
      | done a =>
        rw [followed_of_done hrun] at hlate ⊢
        rw [followed_of_done hsame]
        exact hrest (.ok a) (by simp) hlate
      | failed e =>
        rw [followed_of_failed hrun] at hlate ⊢
        rw [followed_of_failed hsame]
        exact hrest (.error e) (by simp) hlate
      | interrupted =>
        rw [followed_of_interrupted hrun] at hlate
        exact absurd hlate hfirst
      | unsettled =>
        rw [followed_of_unsettled hrun] at hlate
        exact absurd hlate hfirst
  | _ => exact absurd (Nat.lt_of_lt_of_le hstart hlate) (Nat.lt_irrefl _)

end Plain

/-! ## Deadlines -/

section Within

variable {limit : Option Limit} {what : String} {alarms : List Alarm} {s : Stage σ ν}

/-- What a deadline makes of work depends on what the work comes to under it alone. -/
theorem within_congr {work work' : Work σ ν α}
    (h : work (deadlineAlarms limit s.now ++ alarms) s
      = work' (deadlineAlarms limit s.now ++ alarms) s) :
    within limit what work alarms s = within limit what work' alarms s := by
  cases limit with
  | none => exact h
  | some l =>
    have hrun : work (l.alarm s.now :: alarms) s = work' (l.alarm s.now :: alarms) s := h
    simp only [within, hrun]

/-- A deadline settles work only where it stops it. -/
theorem within_unsettled_iff {work : Work σ ν α} :
    (within limit what work alarms s).1 = .unsettled
      ↔ (work (deadlineAlarms limit s.now ++ alarms) s).1 = .unsettled := by
  cases limit with
  | none => exact Iff.rfl
  | some l =>
    show _ ↔ (work (l.alarm s.now :: alarms) s).1 = .unsettled
    simp only [within]
    rcases work (l.alarm s.now :: alarms) s with ⟨o, t⟩
    split
    next heq =>
      cases heq
      split <;> simp
    next heq =>
      cases heq
      split <;> simp
    next => exact Iff.rfl

/-- A deadline changes how work ends, and neither when nor what it leaves. -/
theorem within_stage (work : Work σ ν α) :
    (within limit what work alarms s).2 = (work (deadlineAlarms limit s.now ++ alarms) s).2 := by
  cases limit with
  | none => rfl
  | some l =>
    show _ = (work (l.alarm s.now :: alarms) s).2
    simp only [within]
    rcases work (l.alarm s.now :: alarms) s with ⟨o, t⟩
    split
    next heq =>
      cases heq
      split <;> rfl
    next heq =>
      cases heq
      split <;> rfl
    next => rfl

/-- Work that is called off is called off under a deadline, too. -/
theorem within_of_calledOff {work : Work σ ν α} {t : Stage σ ν}
    (h : work (deadlineAlarms limit s.now ++ [callOff t.now]) s = (.interrupted, t)) :
    within limit what work [callOff t.now] s = (.interrupted, t) := by
  have hrings : ringsBy [callOff t.now] t.now = true :=
    ringsBy_eq_true_iff.mpr ⟨_, List.mem_singleton_self _, Nat.le_refl _⟩
  exact within_of_rung h hrings

end Within

/-! ## Polls and retries -/

section Polls

variable {wait : Work σ ν Unit} {retryOn : List FailureKind} {query : Work σ ν (Option α)}
  {limit : Option Limit} {what : String} {s : Stage σ ν} {c : Nat}

/-- A poll that is settled within some rounds does the same when it is given more. -/
theorem pollRounds_of_le {few many : Nat} {alarms : List Alarm} (hle : few ≤ many)
    (h : (pollRounds wait retryOn query few alarms s).1 ≠ .unsettled) :
    pollRounds wait retryOn query many alarms s = pollRounds wait retryOn query few alarms s := by
  induction many, hle using Nat.le_induction with
  | base => rfl
  | succ many _ ih => exact pollRounds_succ h ih

theorem pollUntil_of_le {few many : Nat} {alarms : List Alarm} (hle : few ≤ many)
    (h : (pollUntil few wait limit what retryOn query alarms s).1 ≠ .unsettled) :
    pollUntil many wait limit what retryOn query alarms s
      = pollUntil few wait limit what retryOn query alarms s := by
  exact within_congr (pollRounds_of_le hle fun hopen => h (within_unsettled_iff.mpr hopen))

/-- A poll that is called off before it would have ended is interrupted at that instant, whether it
has a deadline or not, with what it would have left by then. A wait is a sleep, so that a poll leaves
nothing at the instant at which it begins. -/
theorem pollUntil_calledOff (hkept : absorbs retryOn = false) (hwait : Plain wait)
    (hquery : Plain query) (hsleeps : ∀ alarms, ∃ length, wait alarms s = sleep length alarms s)
    (hstart : s.now ≤ c) {rounds : Nat}
    (hlate : c < (pollUntil rounds wait limit what retryOn query [] s).2.now) :
    ∃ t, pollUntil rounds wait limit what retryOn query [callOff c] s = (.interrupted, t)
      ∧ CutAt c s (pollUntil rounds wait limit what retryOn query [] s).2 t := by
  have hplain : ∀ rounds, Plain (pollRounds wait retryOn query rounds) := fun rounds =>
    .pollRounds hkept hwait hquery rounds
  have hstage : (pollUntil rounds wait limit what retryOn query [] s).2
      = (pollRounds wait retryOn query rounds (deadlineAlarms limit s.now) s).2 := by
    rw [pollUntil, within_stage, List.append_nil]
  rw [hstage] at hlate ⊢
  have hcut : ∃ t, pollRounds wait retryOn query rounds (deadlineAlarms limit s.now ++ [callOff c]) s
        = (.interrupted, t)
      ∧ CutAt c s (pollRounds wait retryOn query rounds (deadlineAlarms limit s.now) s).2 t := by
    rcases Nat.eq_or_lt_of_le hstart with rfl | hlater
    · -- The first wait does not begin any more.
      cases rounds with
      | zero => exact absurd hlate (Nat.lt_irrefl _)
      | succ rounds =>
        obtain ⟨length, hsleep⟩ := hsleeps (deadlineAlarms limit s.now ++ [callOff s.now])
        rw [sleep_callOff_now] at hsleep
        obtain ⟨k, hk, hfilter⟩ := (hplain (rounds + 1)).filter_dated_append
          (deadlineAlarms limit s.now) (s := s) (k := []) rfl (Nat.le_refl s.now)
        rw [List.append_nil] at hfilter
        refine ⟨{ s with journal := .woke (s.now + length) :: s.journal }, ?_, rfl,
          Nat.le_of_lt hlate, [.woke (s.now + length)], k, rfl, hk, hfilter.symm⟩
        rw [pollRounds, andThen_of_interrupted hsleep]
    · exact (hplain rounds).calledOff hlater (Nat.le_of_lt hlate)
  obtain ⟨t, hrun, hcut⟩ := hcut
  obtain rfl := hcut.now
  exact ⟨t, within_of_calledOff hrun, hcut⟩

theorem retryUntilReady_calledOff (hkept : absorbs retryOn = false) (hwait : Plain wait)
    (hquery : Plain query) (hstart : s.now < c) {rounds : Nat}
    (hlate : c < (retryUntilReady rounds wait retryOn query [] s).2.now) :
    ∃ t, retryUntilReady rounds wait retryOn query [callOff c] s = (.interrupted, t)
      ∧ CutAt c s (retryUntilReady rounds wait retryOn query [] s).2 t :=
  (Plain.retryRounds hkept hwait hquery rounds).calledOff hstart (Nat.le_of_lt hlate)

end Polls

/-! ## Polls that may never end -/

section Repeats

variable {d : Datum} {retryOn : List FailureKind} {query : Work σ ν (Option α)}
  {u : Nat → Stage σ ν} {answer : Nat → Except Failure (Option α)} {n : Nat}

/-- A poll that is still open when its rounds repeat themselves and its deadline has been given the
rounds to pass never ends. -/
theorem Repeats.endless (h : Repeats d retryOn query u answer n) {limit : Option Limit}
    {what : String} {rounds : Nat} (hrounds : n + (limit.map Limit.span).getD 0 < rounds)
    (hopen : (pollUntil rounds (sleepFor d) limit what retryOn query [] (u 0)).1 = .unsettled) :
    (∀ k, verdict? retryOn (answer k) = none)
    ∧ ∀ l ∈ limit, ∀ m, (u (m + 1)).now + l.leeway < (u 0).now + l.span := by
  obtain ⟨hdecided, hoverdue, -⟩ := pollUntil_settles h limit what hrounds
  have hintime : ∀ m, (∀ k < m, verdict? retryOn (answer k) = none) →
      ∀ l ∈ limit, (u (m + 1)).now + l.leeway < (u 0).now + l.span := by
    intro m hearlier l hl
    by_contra hlate
    obtain ⟨t, htimeout, -⟩ := hoverdue l hl m hearlier (by omega)
    rw [htimeout] at hopen
    cases hopen
  rcases undecided_or_first fun k => verdict? retryOn (answer k) with
    hnone | ⟨m, o, hearlier, ho⟩
  · exact ⟨hnone, fun l hl m => hintime m (fun k _ => hnone k) l hl⟩
  · rw [hdecided m o hearlier ho (hintime m hearlier)] at hopen
    exact absurd hopen (verdict?_ne_unsettled ho)

/-- A poll that never ends gets to any instant up to which its waits move the clock. -/
theorem Repeats.reached (h : Repeats d retryOn query u answer n) {limit : Option Limit}
    {what : String} (hnone : ∀ k, verdict? retryOn (answer k) = none)
    (hintime : ∀ l ∈ limit, ∀ m, (u (m + 1)).now + l.leeway < (u 0).now + l.span) {c rounds : Nat}
    (hstart : (u 0).now ≤ c) (hmoves : MovesBefore d (c + 1)) (hrounds : c < (u 0).now + rounds) :
    c < (pollUntil rounds (sleepFor d) limit what retryOn query [] (u 0)).2.now := by
  have hfree : pollRounds (sleepFor d) retryOn query rounds [] (u 0) = (.unsettled, u rounds) :=
    h.course.undecided fun k _ => hnone k
  have hlater : ∀ k, (u k).now < c + 1 → (u k).now < (u (k + 1)).now := fun k hk =>
    Nat.lt_of_lt_of_le (hmoves _ hk) (h.elapse_le k)
  have hpassed : c < (u rounds).now := by
    rcases le_or_reaches h.now_le hlater rounds with hfar | hthere
    · omega
    · exact hthere
  obtain ⟨spare, rfl⟩ : ∃ spare, rounds = spare + 1 := ⟨rounds - 1, by omega⟩
  rw [h.pollUntil_quiet what (by simp) hfree fun l hl => hintime l hl spare]
  exact hpassed

/-- A poll whose rounds repeat themselves, and that is called off before it would have ended, if it
ends at all, is interrupted at that instant. If it never ends, its waits have to move the clock until
then. Given rounds enough, what it leaves is what the poll leaves before that instant when it is not
called off. -/
theorem Repeats.calledOff (h : Repeats d retryOn query u answer n) {limit : Option Limit}
    {what : String} {few many c : Nat} (hfew : n + (limit.map Limit.span).getD 0 < few)
    (hmany : few ≤ many) (hrounds : c < (u 0).now + many) (hstart : (u 0).now ≤ c)
    (hmoves : (pollUntil few (sleepFor d) limit what retryOn query [] (u 0)).1 = .unsettled →
      MovesBefore d (c + 1))
    (hlate : (pollUntil few (sleepFor d) limit what retryOn query [] (u 0)).1 ≠ .unsettled →
      c < (pollUntil few (sleepFor d) limit what retryOn query [] (u 0)).2.now) :
    ∃ t, pollUntil many (sleepFor d) limit what retryOn query [callOff c] (u 0)
        = (.interrupted, t)
      ∧ ∀ rounds ≥ many,
        CutAt c (u 0) (pollUntil rounds (sleepFor d) limit what retryOn query [] (u 0)).2 t
        ∧ ((pollUntil few (sleepFor d) limit what retryOn query [] (u 0)).1 ≠ .unsettled →
          pollUntil rounds (sleepFor d) limit what retryOn query [] (u 0)
            = pollUntil few (sleepFor d) limit what retryOn query [] (u 0)) := by
  have hsame : ∀ rounds ≥ many,
      (pollUntil few (sleepFor d) limit what retryOn query [] (u 0)).1 ≠ .unsettled →
      pollUntil rounds (sleepFor d) limit what retryOn query [] (u 0)
        = pollUntil few (sleepFor d) limit what retryOn query [] (u 0) := fun rounds hle hends =>
    pollUntil_of_le (Nat.le_trans hmany hle) hends
  have hpasses : ∀ rounds ≥ many,
      c < (pollUntil rounds (sleepFor d) limit what retryOn query [] (u 0)).2.now := by
    intro rounds hle
    by_cases hends : (pollUntil few (sleepFor d) limit what retryOn query [] (u 0)).1 = .unsettled
    · obtain ⟨hnone, hintime⟩ := h.endless hfew hends
      exact h.reached hnone hintime hstart (hmoves hends) (by omega)
    · rw [hsame rounds hle hends]
      exact hlate hends
  obtain ⟨length, hspan⟩ := h.span
  have hsleeps : ∀ alarms, ∃ length, (sleepFor d : Work σ ν Unit) alarms (u 0)
      = sleep length alarms (u 0) := fun alarms => exists_sleepFor_eq_sleep hspan alarms _
  have hcut := fun rounds hle => pollUntil_calledOff h.kept (.sleepFor d) h.plain hsleeps hstart
    (hpasses rounds hle)
  obtain ⟨t, hrun, -⟩ := hcut many (Nat.le_refl many)
  refine ⟨t, hrun, fun rounds hle => ⟨?_, hsame rounds hle⟩⟩
  -- More rounds change nothing in a poll that has been called off.
  obtain ⟨t', hrun', hleft⟩ := hcut rounds hle
  rw [pollUntil_of_le hle (by rw [hrun]; simp), hrun] at hrun'
  cases hrun'
  exact hleft

end Repeats

/-! ## Scripts -/

namespace Script

variable (x : Script α) {alarms : List Alarm} {retryOn : List FailureKind}

theorem plain_query : Plain x.query :=
  .bind .world fun _ => .bind (.change _) fun _ => .bind .clock fun _ => .bind (.note _) fun _ =>
    .bind (.sleep _) fun _ => .ofExcept _

/-- A wait that is not stopped takes an interval. -/
theorem wait_ends (alarms : List Alarm) (s : Stage Nat Nat) :
    ∃ t, x.wait alarms s = (.interrupted, t)
      ∨ x.wait alarms s = (.done (), t) ∧ t.now = s.now + x.interval := by
  rw [wait]
  cases hrings : ringsBy alarms (s.now + x.interval) with
  | true =>
    refine ⟨(sleep x.interval alarms s).2, .inl ?_⟩
    simp only [sleep, hrings, if_true]
  | false => exact ⟨_, .inr ⟨sleep_of_lt hrings, rfl⟩⟩

/-- A query that is not stopped comes to something. -/
theorem query_ends (alarms : List Alarm) (s : Stage Nat Nat) :
    ∃ t, s.now ≤ t.now ∧ (x.query alarms s = (.interrupted, t)
      ∨ ∃ answer, x.query alarms s = (ended answer, t)) := by
  refine ⟨(x.query alarms s).2, x.plain_query.now_le alarms s, ?_⟩
  cases hrings : ringsBy alarms (s.now + x.delay s.world) with
  | true =>
    refine .inl ?_
    simp only [query_eq, andThen, sleep, hrings, if_true]
  | false =>
    refine .inr ⟨x.answer s.world, ?_⟩
    rw [x.query_of_lt hrings, ofExcept_eq]

/-- A poll that has used up its rounds has waited in each of them. -/
theorem le_now_of_pollRounds_unsettled (hkept : absorbs retryOn = false)
    (hinterval : 0 < x.interval) {rounds : Nat} {s : Stage Nat Nat}
    (hopen : (pollRounds x.wait retryOn x.query rounds alarms s).1 = .unsettled) :
    s.now + rounds ≤ (pollRounds x.wait retryOn x.query rounds alarms s).2.now := by
  induction rounds generalizing s with
  | zero => exact Nat.le_refl _
  | succ rounds ih =>
    obtain ⟨t, hwait | ⟨hwait, hnow⟩⟩ := x.wait_ends alarms s
    · rw [pollRounds, andThen_of_interrupted hwait] at hopen
      cases hopen
    · obtain ⟨v, hlater, hquery | ⟨answer, hquery⟩⟩ := x.query_ends alarms t
      · rw [pollRounds, andThen_of_done hwait, hkept, followed_of_interrupted hquery] at hopen
        cases hopen
      · rw [pollRounds_succ_of_ended hwait hquery] at hopen ⊢
        cases hverdict : verdict? retryOn answer with
        | some o =>
          rw [hverdict] at hopen
          exact absurd hopen (verdict?_ne_unsettled hverdict)
        | none =>
          rw [hverdict] at hopen
          have := ih hopen
          show s.now + (rounds + 1) ≤ (pollRounds x.wait retryOn x.query rounds alarms v).2.now
          omega

/-- A retry that has used up its rounds has waited in each of them. -/
theorem le_now_of_retryRounds_unsettled (hkept : absorbs retryOn = false)
    (hinterval : 0 < x.interval) {rounds : Nat} {s : Stage Nat Nat}
    (hopen : (retryRounds x.wait retryOn x.query rounds alarms s).1 = .unsettled) :
    s.now + rounds ≤ (retryRounds x.wait retryOn x.query rounds alarms s).2.now := by
  induction rounds generalizing s with
  | zero => exact Nat.le_refl _
  | succ rounds ih =>
    obtain ⟨v, hlater, hquery | ⟨answer, hquery⟩⟩ := x.query_ends alarms s
    · rw [retryRounds, hkept, followed_of_interrupted hquery] at hopen
      cases hopen
    · rw [retryRounds_succ_of_ended hquery] at hopen ⊢
      cases hverdict : verdict? retryOn answer with
      | some o =>
        rw [hverdict] at hopen
        exact absurd hopen (verdict?_ne_unsettled hverdict)
      | none =>
        rw [hverdict] at hopen
        show s.now + (rounds + 1)
          ≤ ((do x.wait; retryRounds x.wait retryOn x.query rounds) alarms v).2.now
        obtain ⟨t, hwait | ⟨hwait, hnow⟩⟩ := x.wait_ends alarms v
        · dsimp only at hopen
          rw [andThen_of_interrupted hwait] at hopen
          cases hopen
        · dsimp only at hopen
          rw [andThen_of_done hwait] at hopen ⊢
          have := ih hopen
          omega

theorem absorbs_eq_false (hcancelled : .cancelled ∉ retryOn) (hanything : .anything ∉ retryOn) :
    absorbs retryOn = false := by
  rw [← Bool.not_eq_true, absorbs_iff]
  rintro (h | h)
  · exact hcancelled h
  · exact hanything h

/-- A scripted poll that is called off before it would have ended, if it ends at all, is interrupted
at that instant, with or without a deadline, and has started the queries that it would have started
before then. -/
theorem pollUntil_calledOff (hinterval : 0 < x.interval) (hkept : absorbs retryOn = false)
    (limit : Option Limit) (what : String) {c rounds : Nat} (hrounds : c < rounds)
    (hlate : (pollUntil rounds x.wait limit what retryOn x.query [] { world := 0 }).1 ≠ .unsettled →
      c < (pollUntil rounds x.wait limit what retryOn x.query [] { world := 0 }).2.now) :
    ∃ t, pollUntil rounds x.wait limit what retryOn x.query [callOff c] { world := 0 }
        = (.interrupted, t)
      ∧ CutAt c { world := 0 }
        (pollUntil rounds x.wait limit what retryOn x.query [] { world := 0 }).2 t := by
  refine Work.pollUntil_calledOff hkept (.sleep _) x.plain_query (fun alarms => ⟨x.interval, rfl⟩)
    (Nat.zero_le c) ?_
  by_cases hopen :
      (pollUntil rounds x.wait limit what retryOn x.query [] { world := 0 }).1 = .unsettled
  · have hwaited := x.le_now_of_pollRounds_unsettled hkept hinterval
      (within_unsettled_iff.mp hopen)
    rw [pollUntil, within_stage]
    exact Nat.lt_of_lt_of_le hrounds (Nat.le_trans (Nat.le_add_left _ _) hwaited)
  · exact hlate hopen

/-- A scripted retry that is called off before it would have ended, if it ends at all, is interrupted
at that instant, and has started the queries that it would have started before then. The first of
them it starts at once. -/
theorem retryUntilReady_calledOff (hinterval : 0 < x.interval) (hkept : absorbs retryOn = false)
    {c rounds : Nat} (hstart : 0 < c) (hrounds : c < rounds)
    (hlate : (retryUntilReady rounds x.wait retryOn x.query [] { world := 0 }).1 ≠ .unsettled →
      c < (retryUntilReady rounds x.wait retryOn x.query [] { world := 0 }).2.now) :
    ∃ t, retryUntilReady rounds x.wait retryOn x.query [callOff c] { world := 0 }
        = (.interrupted, t)
      ∧ CutAt c { world := 0 }
        (retryUntilReady rounds x.wait retryOn x.query [] { world := 0 }).2 t := by
  refine Work.retryUntilReady_calledOff hkept (.sleep _) x.plain_query hstart ?_
  by_cases hopen :
      (retryUntilReady rounds x.wait retryOn x.query [] { world := 0 }).1 = .unsettled
  · have hwaited := x.le_now_of_retryRounds_unsettled hkept hinterval hopen
    exact Nat.lt_of_lt_of_le hrounds (Nat.le_trans (Nat.le_add_left _ _) hwaited)
  · exact hlate hopen

end Script

end Work

end BeaconHarness
