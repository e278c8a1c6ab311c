import BeaconHarness.Wait.Work

/-!
# Work done together

Several pieces of work start at one instant and are waited for until all of them have ended, each
with its value or its failure. They act on separate parts of the world, so that each may be
followed to its end on its own; only their journals have to be woven into one. There, pieces run
one at a time, from one sleep to the next: at first in order, then always the one that is to wake
first, and of several that wake at one instant the one that fell asleep first.

When an alarm rings before the last piece has ended, all pieces that have not are stopped at that
instant, in order, and so is the wait for them. Pieces that would have woken at that very instant
are stopped before the others, unless it is the wait's own deadline that rings.

Main statement: a piece of work that runs alone leaves the notes that it leaves anyway
(`interleave_singleton`).
-/

namespace BeaconHarness

/-! ## Journals -/

/-- What work noted from one sleep to the next, with the instant at which it woke. -/
structure Stretch (ν : Type) where
  wake : Nat
  notes : List ν
  deriving Repr, Inhabited

/-- The stretches of a journal, oldest first, the first one starting at `start`. -/
def Journal.stretches {ν : Type} (start : Nat) (journal : Journal ν) : List (Stretch ν) :=
  let add := fun (later : List (Stretch ν) × List ν) (mark : Mark ν) =>
    match mark with
    | .note n => (later.1, n :: later.2)
    | .woke time => (⟨time, later.2⟩ :: later.1, [])
  let (later, notes) := journal.foldl add ([], [])
  ⟨start, notes⟩ :: later

/-- The marks of a stretch, newest first. -/
def Stretch.marks {ν : Type} (x : Stretch ν) : Journal ν :=
  (x.notes.map Mark.note).reverse ++ [.woke x.wake]

/-- Takes the sleeper that wakes first out of a line of sleepers, each with the stretches still
before it. Of several, the first in line is taken. -/
def takeEarliest {ν : Type} : List (List (Stretch ν)) →
    Option (Stretch ν × List (Stretch ν) × List (List (Stretch ν)))
  | [] => none
  | [] :: line => takeEarliest line
  | (x :: xs) :: line =>
    match takeEarliest line with
    | none => some (x, xs, [])
    | some (y, ys, others) =>
      -- Of two that wake at one instant the one nearer to the front goes first.
      if y.wake < x.wake then some (y, ys, (x :: xs) :: others) else some (x, xs, line)

/-- Lets sleepers run one at a time, each from its waking to its next sleep, when it goes to the end
of the line. The journal is built newest mark first. -/
def weave {ν : Type} : (stretches : Nat) → List (List (Stretch ν)) → Journal ν → Journal ν
  | 0, _, journal => journal
  | n + 1, line, journal =>
    match takeEarliest line with
    | none => journal
    | some (x, xs, others) =>
      weave n (if xs.isEmpty then others else others ++ [xs]) (x.marks ++ journal)

/-- The journals of pieces of work that started together, as one. What a piece noted after it was
stopped stands behind everything else. -/
def interleave {ν : Type} (start : Nat) (journals : List (Bool × Journal ν)) : Journal ν :=
  let split := fun (j : Bool × Journal ν) =>
    let xs := j.2.stretches start
    -- The last stretch of a piece that was stopped begins when the alarm rings.
    if j.1 then (xs.dropLast, xs.getLast?) else (xs, none)
  let parts := journals.map split
  let line := parts.map Prod.fst
  let woven := weave line.flatten.length line []
  parts.foldl (fun journal p => (p.2.map Stretch.marks).getD [] ++ journal) woven

/-! ## Laws of journals -/

section Laws

variable {ν : Type}

theorem notes_append (j k : Journal ν) : Journal.notes (j ++ k) = Journal.notes j ++ k.notes :=
  List.filterMap_append

theorem notes_marks (x : Stretch ν) : Journal.notes x.marks = x.notes.reverse := by
  have hnotes : Journal.notes (x.notes.map Mark.note) = x.notes := by
    induction x.notes with
    | nil => rfl
    | cons note notes ih => exact congrArg (note :: ·) ih
  have hreverse : Journal.notes (x.notes.map Mark.note).reverse
      = (Journal.notes (x.notes.map Mark.note)).reverse := List.filterMap_reverse
  rw [Stretch.marks, notes_append, hreverse, hnotes]
  exact List.append_nil _

/-- The stretches of a journal hold its notes, oldest first. -/
theorem flatMap_stretches (start : Nat) (j : Journal ν) :
    (j.stretches start).flatMap Stretch.notes = (Journal.notes j).reverse := by
  suffices h : ∀ (later : List (Stretch ν)) (notes : List ν),
      let p := j.foldl (fun (later : List (Stretch ν) × List ν) (mark : Mark ν) =>
        match mark with
        | .note n => (later.1, n :: later.2)
        | .woke time => (⟨time, later.2⟩ :: later.1, [])) (later, notes)
      p.2 ++ p.1.flatMap Stretch.notes
        = (Journal.notes j).reverse ++ (notes ++ later.flatMap Stretch.notes) by
    simpa [Journal.stretches] using h [] []
  induction j with
  | nil => intro later notes; rfl
  | cons m j ih =>
    intro later notes
    cases m with
    | note n =>
      have := ih later (n :: notes)
      simpa [Journal.notes] using this
    | woke time =>
      have := ih (⟨time, notes⟩ :: later) []
      simpa [Journal.notes] using this

theorem notes_weave_singleton (xs : List (Stretch ν)) (j : Journal ν) :
    Journal.notes (weave xs.length [xs] j) = (xs.flatMap Stretch.notes).reverse ++ j.notes := by
  induction xs generalizing j with
  | nil => rfl
  | cons x xs ih =>
    have htake : takeEarliest [x :: xs] = some (x, xs, []) := rfl
    simp only [List.length_cons, weave, htake, List.nil_append]
    cases xs with
    | nil => simp [weave, notes_append, notes_marks]
    | cons y ys =>
      have := ih (x.marks ++ j)
      simp_all [notes_append, notes_marks]

/-- The notes of a piece of work that ran alone to its end are its own notes. -/
theorem interleave_singleton (start : Nat) (j : Journal ν) :
    Journal.notes (interleave start [(false, j)]) = j.notes := by
  have h := notes_weave_singleton (j.stretches start) []
  rw [flatMap_stretches] at h
  simpa [interleave, Journal.notes] using h

end Laws

namespace Work

variable {σ ν α : Type}

/-! ## Waiting for all -/

/-- Follows each piece of work from an instant on, with the world as the one before left it. -/
def runEach (alarms : List Alarm) (start : Nat) : σ → List (Work σ ν α) →
    List (Outcome α × Nat × Journal ν) × σ
  | w, [] => ([], w)
  | w, work :: rest =>
    let (outcome, s) := work alarms ⟨start, w, []⟩
    let (runs, w) := runEach alarms start s.world rest
    ((outcome, s.now, s.journal) :: runs, w)

/-- The values and failures of work that ended on its own, unless some is undecided. -/
def settled : List (Outcome α) → Option (List (Except Failure α))
  | [] => some []
  | .done a :: rest => (settled rest).map (.ok a :: ·)
  | .failed e :: rest => (settled rest).map (.error e :: ·)
  | _ :: _ => none

/-- Whether work was stopped by an alarm. -/
def isInterrupted : Outcome α → Bool
  | .interrupted => true
  | _ => false

/-- Whether a piece of work was stopped by an instant in a sleep that was to go on. -/
def isCutShort (instant : Nat) (run : Outcome α × Nat × Journal ν) : Bool :=
  isInterrupted run.1 && run.2.2.lastWake?.all (instant < ·)

/-- Starts pieces of work together and waits until all have ended. The wait's own deadline is among
the alarms if there is one. -/
def together (limit : Option Limit) (works : List (Work σ ν α)) :
    Work σ ν (List (Except Failure α)) := fun alarms s =>
  let (runs, w) := runEach alarms s.now s.world works
  let last := runs.foldl (fun time run => max time run.2.1) s.now
  -- A deadline reaches sleepers before they can wake; what does not sleep at all has woken already.
  let isMissed := limit.any fun l => s.now < last && (l.alarm s.now).ringsBy last
  let isLate := fun run => if isMissed then isInterrupted run.1 else isCutShort last run
  let journal := interleave s.now (runs.map fun run => (isLate run, run.2.2))
  let t : Stage σ ν := { now := last, world := w, journal := .woke last :: journal ++ s.journal }
  -- A piece that ends at the very instant of the alarm comes too late.
  if ringsBy alarms last then (.interrupted, t)
  else match settled (runs.map Prod.fst) with
    | some results => (.done results, t)
    | none => (.unsettled, t)

/-- All values, or the first failure in order. -/
def firstFailure : List (Except Failure α) → Except Failure (List α)
  | [] => .ok []
  | .ok a :: rest => (firstFailure rest).map (a :: ·)
  | .error e :: _ => .error e

/-- Starts pieces of work in order and leaves each where it first sleeps. -/
def abandon (works : List (Work σ ν α)) : Work σ ν Unit := fun _ s =>
  let (runs, w) := runEach [⟨s.now, 0⟩] s.now s.world works
  let first := fun (run : Outcome α × Nat × Journal ν) =>
    ((run.2.2.stretches s.now).head?.map Stretch.marks).getD []
  (.done (), { s with world := w, journal := runs.foldl (fun j run => first run ++ j) s.journal })

/-- Starts pieces of work together and waits for all of them, up to a deadline. Their values come in
order; if some failed, the first failure in order is the failure of all. A deadline that has no
meaning is noticed only when the pieces have been started. -/
def resolveAll (limit : Except Failure (Option Limit)) (what : String)
    (works : List (Work σ ν α)) : Work σ ν (List α) :=
  if works.isEmpty then done []
  else match limit with
    | .error e => do abandon works; fail e
    | .ok limit => do
      let results ← within limit what (together limit works)
      ofExcept (firstFailure results)

/-- Leaves a note of how a piece of work ended, if there is one for it. -/
def noting (ending : Nat → Outcome α → Option ν) (work : Work σ ν α) : Work σ ν α := fun alarms s =>
  let (outcome, t) := work alarms s
  match ending t.now outcome with
  | some n => (outcome, { t with journal := .note n :: t.journal })
  | none => (outcome, t)

end Work

end BeaconHarness
