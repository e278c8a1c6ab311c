import BeaconHarness.Failure

/-!
# Work over time

Work on a node takes time, may be called off, and leaves notes of what it did. The clock is
virtual: it counts ticks and moves only while work sleeps, so that everything between two sleeps
happens at one instant.

Work is called off by *alarms*, instants at which it has to stop. It stops where it sleeps: a sleep
that would end at an alarm or after it is cut short there, and an alarm that has already rung stops
the next sleep at once. An alarm may have a leeway, by which it stops also a sleep that ends shortly
before it. A deadline is an alarm of the work's own, which turns the interruption into a failure; an
alarm from outside that rings no later goes first. Work may be followed by other work that takes the
interruption as a failure: the alarms that have rung by then are used up.

Main statements: a sleep that ends before every alarm moves the clock by its length
(`sleep_of_lt`), and no other sleep is survived (`sleep_of_le`).
-/

namespace BeaconHarness

/-! ## Outcomes and stages -/

/-- What a piece of work came to. -/
inductive Outcome (α : Type) where
  | done (a : α)
  | failed (e : Failure)
  /-- An alarm rang before the work ended. -/
  | interrupted
  /-- The work had used up its rounds and was still undecided. -/
  | unsettled
  deriving Repr, Inhabited

/-- A mark in a journal. -/
inductive Mark (ν : Type) where
  | note (n : ν)
  /-- The end of a sleep as it was to be, also of one that was cut short. -/
  | woke (time : Nat)
  deriving Repr, Inhabited

/-- A journal, newest mark first. -/
abbrev Journal (ν : Type) := List (Mark ν)

/-- The notes in a journal, newest first. -/
def Journal.notes {ν : Type} (journal : Journal ν) : List ν :=
  journal.filterMap fun m => match m with
    | .note n => some n
    | .woke _ => none

/-- When the last sleep in a journal was to end. -/
def Journal.lastWake? {ν : Type} (journal : Journal ν) : Option Nat :=
  journal.findSome? fun m => match m with
    | .note _ => none
    | .woke time => some time

/-- An instant at which work has to stop. -/
structure Alarm where
  time : Nat
  /-- How long before the alarm a sleep may end and still not be survived. -/
  leeway : Nat := 0
  deriving DecidableEq, Repr, Inhabited

/-- Whether an alarm stops what ends at an instant. -/
def Alarm.ringsBy (a : Alarm) (time : Nat) : Bool := a.time ≤ time + a.leeway

/-- Where work stands: the instant, the world it acts on, and what it has left in the journal. -/
structure Stage (σ ν : Type) where
  now : Nat := 0
  world : σ
  journal : Journal ν := []

/-- Work on a world `σ` that leaves notes `ν` and ends with an `α`. -/
def Work (σ ν α : Type) : Type := (alarms : List Alarm) → Stage σ ν → Outcome α × Stage σ ν

namespace Work

variable {σ τ ν α β : Type}

/-! ## Sequences of work -/

/-- Work that ends at once with a value. -/
def done (a : α) : Work σ ν α := fun _ s => (.done a, s)

/-- Work that ends at once with a failure. -/
def fail (e : Failure) : Work σ ν α := fun _ s => (.failed e, s)

/-- Work that has used up its rounds. -/
def unsettled : Work σ ν α := fun _ s => (.unsettled, s)

/-- Goes on with what work ended with. -/
def andThen (work : Work σ ν α) (next : α → Work σ ν β) : Work σ ν β := fun alarms s =>
  match work alarms s with
  | (.done a, s) => next a alarms s
  | (.failed e, s) => (.failed e, s)
  | (.interrupted, s) => (.interrupted, s)
  | (.unsettled, s) => (.unsettled, s)

/-- Goes on with what work came to, whether a value or a failure. If the work absorbs interruptions,
one is a failure like any other, and only the alarms that are still to come stay set. -/
def followed (absorbs : Bool) (work : Work σ ν α) (next : Except Failure α → Work σ ν β) :
    Work σ ν β := fun alarms s =>
  match work alarms s with
  | (.done a, s) => next (.ok a) alarms s
  | (.failed e, s) => next (.error e) alarms s
  | (.interrupted, s) =>
    if absorbs then next (.error .cancelled) (alarms.filter fun a => !a.ringsBy s.now) s
    else (.interrupted, s)
  | (.unsettled, s) => (.unsettled, s)

instance : Monad (Work σ ν) where
  pure := done
  bind := andThen

/-- Work that ends at once, as a computation did. -/
def ofExcept : Except Failure α → Work σ ν α
  | .ok a => done a
  | .error e => fail e

/-- Takes a failure of work as a result. Being called off is no failure. -/
def attempt (work : Work σ ν α) : Work σ ν (Except Failure α) := followed false work done

/-! ## World, clock and journal -/

/-- The present instant. -/
def clock : Work σ ν Nat := fun _ s => (.done s.now, s)

/-- The world as it is. -/
def world : Work σ ν σ := fun _ s => (.done s.world, s)

/-- Changes the world. -/
def change (f : σ → σ) : Work σ ν Unit := fun _ s => (.done (), { s with world := f s.world })

/-- Leaves a note. -/
def note (n : ν) : Work σ ν Unit := fun _ s =>
  (.done (), { s with journal := .note n :: s.journal })

/-- Work on a part of the world. -/
def onPart (part : τ → σ) (put : σ → τ → τ) (work : Work σ ν α) : Work τ ν α := fun alarms s =>
  let (outcome, t) := work alarms { s with world := part s.world }
  (outcome, { t with world := put t.world s.world })

/-! ## Sleep and alarms -/

/-- Whether one of some alarms stops what ends at an instant. -/
def ringsBy (alarms : List Alarm) (time : Nat) : Bool := alarms.any fun a => a.ringsBy time

/-- The earliest of some alarms and an instant. -/
def earliest (alarms : List Alarm) (time : Nat) : Nat := alarms.foldr (fun a t => min a.time t) time

/-- Sleeps for a number of ticks. -/
def sleep (length : Nat) : Work σ ν Unit := fun alarms s =>
  let wake := s.now + length
  -- An alarm that has already rung cuts the sleep short here and now; the clock never goes back.
  let time := max s.now (earliest alarms wake)
  let s := { s with now := time, journal := .woke wake :: s.journal }
  if ringsBy alarms wake then (.interrupted, s) else (.done (), s)

/-! ## Deadlines -/

/-- A deadline: how many ticks work may take, how messages show that, and the leeway of its
alarm. -/
structure Limit where
  span : Nat
  shown : String
  leeway : Nat := 0
  deriving DecidableEq, Repr, Inhabited

/-- The alarm of a deadline for work that starts at an instant. -/
def Limit.alarm (l : Limit) (start : Nat) : Alarm := ⟨start + l.span, l.leeway⟩

/-- Work that fails when a deadline passes. -/
def within (limit : Option Limit) (what : String) (work : Work σ ν α) : Work σ ν α :=
  match limit with
  | none => work
  | some l => fun alarms s =>
    let deadline := l.alarm s.now
    match work (deadline :: alarms) s with
    | (.interrupted, t) =>
      -- Several may have rung by now. One from outside goes first.
      if ringsBy alarms t.now then (.interrupted, t)
      else (.failed (.pollTimeout what l.shown), t)
    | (.failed .timedOut, t) =>
      -- A deadline that was absorbed on its way still gives its name to a request that took too
      -- long.
      if 0 < l.span && deadline.ringsBy t.now then (.failed (.pollTimeout what l.shown), t)
      else (.failed .timedOut, t)
    | result => result

/-! ## Laws -/

theorem andThen_of_done {work : Work σ ν α} {next : α → Work σ ν β} {alarms : List Alarm}
    {s t : Stage σ ν} {a : α} (h : work alarms s = (.done a, t)) :
    (work >>= next) alarms s = next a alarms t := by
  show andThen work next alarms s = _
  simp [andThen, h]

/-- Work ends the same way if what follows it does. -/
theorem andThen_mono {work : Work σ ν α} {next next' : α → Work σ ν β} {alarms : List Alarm}
    {s t : Stage σ ν} {o : Outcome β}
    (hnext : ∀ a u, next a alarms u = (o, t) → next' a alarms u = (o, t))
    (h : andThen work next alarms s = (o, t)) : andThen work next' alarms s = (o, t) := by
  simp only [andThen] at h ⊢
  split at h
  · exact hnext _ _ h
  all_goals exact h

/-- Work ends the same way if what follows its value or failure does. -/
theorem followed_mono {absorbs : Bool} {work : Work σ ν α}
    {next next' : Except Failure α → Work σ ν β} {alarms : List Alarm} {s t : Stage σ ν}
    {o : Outcome β} (hnext : ∀ r left u, next r left u = (o, t) → next' r left u = (o, t))
    (h : followed absorbs work next alarms s = (o, t)) :
    followed absorbs work next' alarms s = (o, t) := by
  simp only [followed] at h ⊢
  split at h
  · exact hnext _ _ _ h
  · exact hnext _ _ _ h
  · cases absorbs
    · exact h
    · exact hnext _ _ _ h
  · exact h

theorem earliest_of_not_ringsBy {alarms : List Alarm} {time : Nat}
    (h : ringsBy alarms time = false) : earliest alarms time = time := by
  induction alarms with
  | nil => rfl
  | cons a alarms ih =>
    simp only [ringsBy, List.any_cons, Bool.or_eq_false_iff, Alarm.ringsBy,
      decide_eq_false_iff_not] at h
    have := ih (by simpa only [ringsBy, Alarm.ringsBy] using h.2)
    simp only [earliest, List.foldr_cons] at this ⊢
    omega

theorem sleep_of_lt {alarms : List Alarm} {length : Nat} {s : Stage σ ν}
    (h : ringsBy alarms (s.now + length) = false) :
    sleep length alarms s = (.done (),
      { s with now := s.now + length, journal := .woke (s.now + length) :: s.journal }) := by
  simp [sleep, h, earliest_of_not_ringsBy h]

theorem sleep_of_le {alarms : List Alarm} {length : Nat} {s : Stage σ ν}
    (h : ∃ a ∈ alarms, a.time ≤ s.now + length) : (sleep length alarms s).1 = .interrupted := by
  obtain ⟨a, ha, hle⟩ := h
  have hrings : ringsBy alarms (s.now + length) = true := by
    simp only [ringsBy, List.any_eq_true, Alarm.ringsBy, decide_eq_true_eq]
    exact ⟨a, ha, by omega⟩
  simp [sleep, hrings]

end Work

end BeaconHarness
