import BeaconHarness.Wait.Span

/-!
# Laws of alarms

What an alarm does to a sleep and to a deadline, said once for polls and for work done together.
Alarms that have not rung yet either let a sleep pass or stop it at an instant of theirs
(`sleep_of_lt`, `sleep_of_rings`); a deadline that is still to come when work ends leaves no trace
(`within_of_quiet`).
-/

namespace BeaconHarness.Work

variable {σ ν α : Type} {alarms : List Alarm}

/-! ## Ringing -/

theorem ringsBy_eq_true_iff {t : Nat} :
    ringsBy alarms t = true ↔ ∃ a ∈ alarms, a.time ≤ t + a.leeway := by
  simp only [ringsBy, List.any_eq_true, Alarm.ringsBy, decide_eq_true_eq]

/-- What rings by an instant rings by every later one. -/
theorem ringsBy_of_le {t u : Nat} (h : t ≤ u) (ht : ringsBy alarms t = true) :
    ringsBy alarms u = true := by
  obtain ⟨a, ha, hrings⟩ := ringsBy_eq_true_iff.mp ht
  exact ringsBy_eq_true_iff.mpr ⟨a, ha, by omega⟩

/-- What has not rung by an instant has not rung before it. -/
theorem not_ringsBy_of_le {t u : Nat} (h : t ≤ u) (hu : ringsBy alarms u = false) :
    ringsBy alarms t = false := by
  rw [← Bool.not_eq_true] at hu ⊢
  exact mt (ringsBy_of_le h) hu

/-- No alarm has been passed that has not rung. -/
theorem le_time_of_not_ringsBy {t : Nat} (h : ringsBy alarms t = false) :
    ∀ a ∈ alarms, t ≤ a.time := by
  intro a ha
  refine Nat.le_of_not_lt fun hlt => ?_
  rw [ringsBy_eq_true_iff.mpr ⟨a, ha, by omega⟩] at h
  exact nomatch h

/-- The alarm of a deadline rings once its span has passed, up to the leeway. -/
theorem ringsBy_alarm (l : Limit) (start t : Nat) :
    ringsBy [l.alarm start] t = decide (start + l.span ≤ t + l.leeway) :=
  Bool.or_false _

theorem not_ringsBy_alarm (l : Limit) (start : Nat) :
    (fun t => !ringsBy [l.alarm start] t)
      = fun t => decide (t + l.leeway < start + l.span) := by
  funext t
  rw [ringsBy_alarm, ← decide_not, decide_eq_decide, Nat.not_le]

/-- A deadline is not over when it begins. -/
theorem le_time_alarm (l : Limit) (start : Nat) : ∀ a ∈ [l.alarm start], start ≤ a.time := by
  intro a ha
  rw [List.mem_singleton.mp ha]
  exact Nat.le_add_right _ _

/-- An instant at which alarms stop work: one rings by then, and none has been passed. -/
structure StopsAt (alarms : List Alarm) (t : Nat) : Prop where
  rings : ringsBy alarms t = true
  le : ∀ a ∈ alarms, t ≤ a.time

theorem stopsAt_alarm_iff {l : Limit} {start t : Nat} :
    StopsAt [l.alarm start] t ↔ t ≤ start + l.span ∧ start + l.span ≤ t + l.leeway := by
  constructor
  · intro h
    have hrings := h.rings
    rw [ringsBy_alarm, decide_eq_true_eq] at hrings
    exact ⟨h.le _ (List.mem_singleton_self _), hrings⟩
  · rintro ⟨hle, hrings⟩
    refine ⟨by rwa [ringsBy_alarm, decide_eq_true_eq], fun a ha => ?_⟩
    rw [List.mem_singleton.mp ha]
    exact hle

/-! ## Sleep -/

theorem earliest_le (alarms : List Alarm) (t : Nat) :
    earliest alarms t ≤ t ∧ ∀ a ∈ alarms, earliest alarms t ≤ a.time := by
  induction alarms with
  | nil => exact ⟨Nat.le_refl t, nofun⟩
  | cons a alarms ih =>
    obtain ⟨hle, hall⟩ := ih
    have hcons : earliest (a :: alarms) t = min a.time (earliest alarms t) := rfl
    refine ⟨by omega, fun b hb => ?_⟩
    rcases List.mem_cons.mp hb with rfl | hb
    · omega
    · have := hall b hb
      omega

theorem earliest_eq_or (alarms : List Alarm) (t : Nat) :
    earliest alarms t = t ∨ ∃ a ∈ alarms, earliest alarms t = a.time := by
  induction alarms with
  | nil => exact .inl rfl
  | cons a alarms ih =>
    have hcons : earliest (a :: alarms) t = min a.time (earliest alarms t) := rfl
    rcases Nat.le_total a.time (earliest alarms t) with hle | hle
    · exact .inr ⟨a, List.mem_cons_self, by omega⟩
    · rcases ih with heq | ⟨b, hb, heq⟩
      · exact .inl (by omega)
      · exact .inr ⟨b, List.mem_cons_of_mem a hb, by omega⟩

/-- A sleep that begins before every alarm and does not end before them is stopped by them. -/
theorem sleep_of_rings {length : Nat} {s : Stage σ ν} (hnow : ∀ a ∈ alarms, s.now ≤ a.time)
    (hwake : ringsBy alarms (s.now + length) = true) :
    ∃ stop, StopsAt alarms stop ∧ sleep length alarms s
      = (.interrupted,
        { s with now := stop, journal := .woke (s.now + length) :: s.journal }) := by
  obtain ⟨-, hall⟩ := earliest_le alarms (s.now + length)
  have hrings : ringsBy alarms (earliest alarms (s.now + length)) = true := by
    rcases earliest_eq_or alarms (s.now + length) with heq | ⟨a, ha, heq⟩
    · rwa [heq]
    · exact ringsBy_eq_true_iff.mpr ⟨a, ha, by omega⟩
  refine ⟨max s.now (earliest alarms (s.now + length)), ⟨?_, fun a ha => ?_⟩, ?_⟩
  · exact ringsBy_of_le (Nat.le_max_right _ _) hrings
  · exact Nat.max_le.mpr ⟨hnow a ha, hall a ha⟩
  · simp only [sleep, hwake, if_true]

/-- A sleep for a number of seconds is a sleep of its ticks wherever the clock can show its end. -/
theorem sleepFor_eq_sleep {d : Datum} {length : Nat} {s : Stage σ ν}
    (hspan : d.span = .ok length) (hshown : nearestInstant (s.now + length) = s.now + length) :
    sleepFor d alarms s = sleep length alarms s := by
  cases length with
  | zero => simp only [sleepFor, hspan]
  | succ length =>
    simp only [sleepFor, hspan]
    show sleep (nearestInstant (s.now + (length + 1)) - s.now) alarms s = _
    rw [hshown, Nat.add_sub_cancel_left]

/-! ## Results -/

/-- What work comes to that ends as a computation did. -/
def ended : Except Failure α → Outcome α
  | .ok a => .done a
  | .error e => .failed e

theorem ended_eq_done_iff {r : Except Failure α} {a : α} : ended r = .done a ↔ r = .ok a := by
  cases r <;> simp [ended]

theorem ended_eq_failed_iff {r : Except Failure α} {e : Failure} :
    ended r = .failed e ↔ r = .error e := by
  cases r <;> simp [ended]

theorem ofExcept_eq (r : Except Failure α) (s : Stage σ ν) :
    ofExcept r alarms s = (ended r, s) := by
  cases r <;> rfl

theorem andThen_of_interrupted {β : Type} {work : Work σ ν α} {next : α → Work σ ν β}
    {s t : Stage σ ν} (h : work alarms s = (.interrupted, t)) :
    (work >>= next) alarms s = (.interrupted, t) := by
  show andThen work next alarms s = _
  simp only [andThen, h]

theorem andThen_of_failed {β : Type} {work : Work σ ν α} {next : α → Work σ ν β}
    {s t : Stage σ ν} {e : Failure} (h : work alarms s = (.failed e, t)) :
    (work >>= next) alarms s = (.failed e, t) := by
  show andThen work next alarms s = _
  simp only [andThen, h]

theorem andThen_of_unsettled {β : Type} {work : Work σ ν α} {next : α → Work σ ν β}
    {s t : Stage σ ν} (h : work alarms s = (.unsettled, t)) :
    (work >>= next) alarms s = (.unsettled, t) := by
  show andThen work next alarms s = _
  simp only [andThen, h]

/-! ## Deadlines -/

/-- The alarm that a deadline sets for work that starts at an instant, if there is a deadline. -/
def deadlineAlarms (limit : Option Limit) (start : Nat) : List Alarm :=
  limit.toList.map fun l => l.alarm start

theorem ringsBy_deadlineAlarms {limit : Option Limit} {start t : Nat} :
    ringsBy (deadlineAlarms limit start) t = false
      ↔ ∀ l ∈ limit, t + l.leeway < start + l.span := by
  cases limit with
  | none => exact ⟨fun _ => nofun, fun _ => rfl⟩
  | some l =>
    have halarms : deadlineAlarms (some l) start = [l.alarm start] := rfl
    rw [halarms, ringsBy_alarm, decide_eq_false_iff_not, Nat.not_le]
    exact ⟨fun h _ hl => by cases hl; exact h, fun h => h l rfl⟩

/-- Work that its deadline calls off fails with what was waited for and the length as given. -/
theorem within_of_interrupted {l : Limit} {what : String} {work : Work σ ν α} {s t : Stage σ ν}
    (h : work [l.alarm s.now] s = (.interrupted, t)) :
    within (some l) what work [] s = (.failed (.pollTimeout what l.shown), t) := by
  simp only [within, h]
  rfl

/-- Alarms and a deadline that have not rung when work ends leave no trace. -/
theorem within_of_silent {limit : Option Limit} {what : String} {work : Work σ ν α}
    {s t : Stage σ ν} {o : Outcome α} (ho : o ≠ .interrupted)
    (hsilent : ringsBy (deadlineAlarms limit s.now ++ alarms) t.now = false)
    (h : work (deadlineAlarms limit s.now ++ alarms) s = (o, t)) :
    within limit what work alarms s = (o, t) := by
  cases limit with
  | none => exact h
  | some l =>
    have hrun : work (l.alarm s.now :: alarms) s = (o, t) := h
    have hrings : (l.alarm s.now).ringsBy t.now = false := (Bool.or_eq_false_iff.mp hsilent).1
    simp only [within, hrun]
    split
    next heq =>
      cases heq
      exact absurd rfl ho
    next heq =>
      cases heq
      rw [hrings, Bool.and_false]
      rfl
    next => rfl

/-- A deadline that has not rung when work ends leaves no trace. -/
theorem within_of_quiet {limit : Option Limit} {what : String} {work : Work σ ν α}
    {s t : Stage σ ν} {o : Outcome α} (ho : o ≠ .interrupted)
    (hquiet : ringsBy (deadlineAlarms limit s.now) t.now = false)
    (h : work (deadlineAlarms limit s.now) s = (o, t)) :
    within limit what work [] s = (o, t) := by
  refine within_of_silent ho ?_ ?_
  · rwa [List.append_nil]
  · rwa [List.append_nil]

/-- Work that its alarms stop is interrupted if one of them comes from outside, and fails if it is
the deadline alone that stops it. -/
theorem within_of_stopped {limit : Option Limit} (what : String) {work : Work σ ν α}
    {s t : Stage σ ν} (h : work (deadlineAlarms limit s.now ++ alarms) s = (.interrupted, t))
    (hstop : StopsAt (deadlineAlarms limit s.now ++ alarms) t.now) :
    within limit what work alarms s = (.interrupted, t) ∧ ringsBy alarms t.now = true
    ∨ ∃ l ∈ limit, within limit what work alarms s = (.failed (.pollTimeout what l.shown), t)
      ∧ t.now ≤ s.now + l.span ∧ s.now + l.span ≤ t.now + l.leeway := by
  cases limit with
  | none => exact .inl ⟨h, hstop.rings⟩
  | some l =>
    have hrun : work (l.alarm s.now :: alarms) s = (.interrupted, t) := h
    cases houtside : ringsBy alarms t.now with
    | true =>
      refine .inl ⟨?_, rfl⟩
      simp only [within, hrun, houtside, if_true]
    | false =>
      refine .inr ⟨l, rfl, ?_, hstop.le _ List.mem_cons_self, ?_⟩
      · simp only [within, hrun, houtside, Bool.false_eq_true, if_false]
      · -- Nothing else rings, so that it is the deadline that does.
        obtain ⟨a, ha, hrings⟩ := ringsBy_eq_true_iff.mp hstop.rings
        have hwhich : a = l.alarm s.now ∨ a ∈ alarms := List.mem_cons.mp ha
        rcases hwhich with rfl | hmem
        · exact hrings
        · rw [ringsBy_eq_true_iff.mpr ⟨a, hmem, hrings⟩] at houtside
          exact nomatch houtside

/-- Work that is stopped when alarms from outside have rung is interrupted. -/
theorem within_of_rung {limit : Option Limit} {what : String} {work : Work σ ν α}
    {s t : Stage σ ν} (h : work (deadlineAlarms limit s.now ++ alarms) s = (.interrupted, t))
    (hrings : ringsBy alarms t.now = true) :
    within limit what work alarms s = (.interrupted, t) := by
  cases limit with
  | none => exact h
  | some l =>
    have hrun : work (l.alarm s.now :: alarms) s = (.interrupted, t) := h
    simp only [within, hrun, hrings, if_true]

end BeaconHarness.Work
