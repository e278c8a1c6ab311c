import BeaconHarness.Proofs.Wait.Alarm
import BeaconHarness.Wait.Together
import Mathlib.Data.List.Perm.Basic

/-!
# Tasks resolved together

A task takes pauses, leaves a note at the end of each, and ends with a value or a failure when the
last pause is over. Tasks that are resolved together keep their own time. Without a deadline, or
with one that comes after the longest of them, all of them end, and what they come to together
depends on their order alone. A deadline that comes no later stops all tasks that are still pausing.

Notes are compared as collections. Each names its task and its instant, so that nothing but the
weaving of notes of one instant is left out of account.

Main statement: when tasks end together, with what, and what each of them has done by then
(`resolveAll_ends`).
-/

namespace BeaconHarness

/-! ## Notes of woven journals -/

section Journals

variable {ν : Type}

theorem takeEarliest_none {line : List (List (Stretch ν))} (h : takeEarliest line = none) :
    line.flatten = [] := by
  induction line with
  | nil => rfl
  | cons xs line ih =>
    cases xs with
    | nil => exact ih h
    | cons x xs =>
      rw [takeEarliest] at h
      split at h
      · exact nomatch h
      · split at h
        · exact nomatch h
        · exact nomatch h

/-- Taking a stretch out of a line leaves the others. -/
theorem takeEarliest_perm {line others : List (List (Stretch ν))} {x : Stretch ν}
    {xs : List (Stretch ν)} (h : takeEarliest line = some (x, xs, others)) :
    line.flatten.Perm (x :: (others ++ [xs]).flatten) := by
  induction line generalizing x xs others with
  | nil => exact nomatch h
  | cons ys line ih =>
    cases ys with
    | nil => exact ih h
    | cons y ys =>
      rw [takeEarliest] at h
      split at h
      next hnone =>
        cases h
        simp [takeEarliest_none hnone]
      next z zs left hsome =>
        split at h
        · cases h
          exact ((ih hsome).append_left (y :: ys)).trans List.perm_middle
        · cases h
          rw [List.flatten_append, List.flatten_singleton]
          exact List.Perm.cons _ List.perm_append_comm

/-- A line that is woven to its end leaves all its notes. -/
theorem notes_weave_perm {n : Nat} {line : List (List (Stretch ν))} (j : Journal ν)
    (hn : n = line.flatten.length) :
    (Journal.notes (weave n line j)).Perm (line.flatten.flatMap Stretch.notes ++ j.notes) := by
  induction n generalizing line j with
  | zero =>
    rw [List.length_eq_zero_iff.mp hn.symm]
    exact .refl _
  | succ n ih =>
    rw [weave]
    split
    next hnone =>
      rw [takeEarliest_none hnone] at hn
      exact absurd hn (Nat.succ_ne_zero n)
    next x xs others hsome =>
      have hperm := takeEarliest_perm hsome
      have hline : (if xs.isEmpty then others else others ++ [xs]).flatten
          = (others ++ [xs]).flatten := by
        cases xs with
        | nil => simp
        | cons => rfl
      have hlength : n = (others ++ [xs]).flatten.length := by
        have := hperm.length_eq
        rw [← hn, List.length_cons] at this
        omega
      have hrest := ih (x.marks ++ j) (hlength.trans (congrArg List.length hline.symm))
      rw [hline, notes_append, notes_marks] at hrest
      have hnotes := (hperm.flatMap_right Stretch.notes).append_right j.notes
      rw [List.flatMap_cons, List.append_assoc] at hnotes
      refine hrest.trans (.trans ?_ hnotes.symm)
      rw [← List.append_assoc, ← List.append_assoc]
      exact (List.perm_append_comm.trans (x.notes.reverse_perm.append_right _)).append_right _

/-- Stretches put in front of a journal one after the other leave all their notes. -/
theorem notes_foldl_marks_perm (parts : List (List (Stretch ν) × Option (Stretch ν)))
    (j : Journal ν) :
    (Journal.notes
        (parts.foldl (fun journal p => (p.2.map Stretch.marks).getD [] ++ journal) j)).Perm
      (parts.flatMap (fun p => p.2.toList.flatMap Stretch.notes) ++ j.notes) := by
  induction parts generalizing j with
  | nil => exact .refl _
  | cons p parts ih =>
    have hp : (Journal.notes ((p.2.map Stretch.marks).getD [])).Perm
        (p.2.toList.flatMap Stretch.notes) := by
      cases p.2 with
      | none => exact .refl _
      | some x => simp [notes_marks]
    have hrest := ih ((p.2.map Stretch.marks).getD [] ++ j)
    rw [notes_append, ← List.append_assoc] at hrest
    rw [List.flatMap_cons]
    exact hrest.trans ((List.perm_append_comm.trans (hp.append_right _)).append_right _)

theorem dropLast_append_getLast? {β : Type} (xs : List β) :
    xs.dropLast ++ xs.getLast?.toList = xs := by
  cases hlast : xs.getLast? with
  | none => simp [List.getLast?_eq_none_iff.mp hlast]
  | some x => exact List.dropLast_append_getLast? x hlast

/-- The notes of journals that are woven into one are those of them all. -/
theorem notes_interleave_perm (start : Nat) (journals : List (Bool × Journal ν)) :
    (Journal.notes (interleave start journals)).Perm
      (journals.flatMap fun j => j.2.notes) := by
  rw [interleave]
  refine (notes_foldl_marks_perm _ _).trans ?_
  refine ((notes_weave_perm [] rfl).append_left _).trans ?_
  have hnil : Journal.notes ([] : Journal ν) = [] := rfl
  rw [hnil, List.append_nil, ← List.flatMap_def, List.flatMap_assoc]
  refine List.perm_append_comm.trans ((List.flatMap_append_perm _ _ _).trans ?_)
  rw [List.flatMap_map]
  refine List.Perm.flatMap_left _ fun j _ => ?_
  rw [← List.flatMap_append]
  have hwhole : ((j.2.stretches start).flatMap Stretch.notes).Perm j.2.notes := by
    rw [flatMap_stretches]
    exact List.reverse_perm _
  cases j.1 with
  | false => simpa using hwhole
  | true =>
    show (((j.2.stretches start).dropLast ++ (j.2.stretches start).getLast?.toList).flatMap
      Stretch.notes).Perm _
    rwa [dropLast_append_getLast? (j.2.stretches start)]

end Journals

namespace Work

variable {σ α : Type}

/-! ## Pieces of work -/

/-- What can be seen of a piece of work, with its name and the instant. -/
inductive Event where
  | stepped (name time : Nat)
  | finished (name time : Nat)
  | cancelled (name time : Nat)
  deriving DecidableEq, Repr

/-- A piece of work that takes pauses, one step after each, and then ends with its result. -/
structure Piece (α : Type) where
  name : Nat
  pauses : List Nat
  result : Except Failure α

/-- How long pauses are together. -/
def total : List Nat → Nat
  | [] => 0
  | pause :: rest => pause + total rest

/-- The instants at which pauses end that follow each other from an instant on. -/
def instants : (start : Nat) → List Nat → List Nat
  | _, [] => []
  | start, pause :: rest => (start + pause) :: instants (start + pause) rest

namespace Piece

/-- How long a piece of work takes. -/
def delay (x : Piece α) : Nat := total x.pauses

/-- The steps of a piece of work after some pauses that are still to come. -/
def steps (x : Piece α) : List Nat → Work σ Event α
  | [] => ofExcept x.result
  | pause :: rest => do
    sleep pause
    note (.stepped x.name (← clock))
    x.steps rest

/-- The last that is seen of a piece of work. -/
def ending (x : Piece α) (time : Nat) : Outcome α → Option Event
  | .interrupted => some (.cancelled x.name time)
  | _ => some (.finished x.name time)

/-- The piece of work itself. -/
def work (x : Piece α) : Work σ Event α := noting x.ending (x.steps x.pauses)

/-- What is seen of a piece of work that starts at an instant and is left to its end. -/
def log (x : Piece α) (start : Nat) : List Event :=
  (instants start x.pauses).map (.stepped x.name) ++ [.finished x.name (start + x.delay)]

/-- What is seen of it if it is left to run only at certain instants, and stopped at another: all
of it, or the steps at those instants. -/
def logWhile (x : Piece α) (runs : Nat → Bool) (start stop : Nat) : List Event :=
  if runs (start + x.delay) then x.log start
  else ((instants start x.pauses).filter runs).map (.stepped x.name) ++ [.cancelled x.name stop]

end Piece

theorem le_of_mem_instants {start t : Nat} {pauses : List Nat} (h : t ∈ instants start pauses) :
    start ≤ t := by
  induction pauses generalizing start with
  | nil => exact nomatch h
  | cons pause rest ih =>
    rcases List.mem_cons.mp h with rfl | h
    · exact Nat.le_add_right _ _
    · exact Nat.le_trans (Nat.le_add_right _ _) (ih h)

/-! ## One piece -/

section Alone

variable {alarms : List Alarm} (x : Piece α)

/-- Pauses that no alarm stops lead to the result. -/
theorem steps_of_lt {pauses : List Nat} {s : Stage σ Event}
    (h : ringsBy alarms (s.now + total pauses) = false) :
    ∃ j : Journal Event,
      x.steps pauses alarms s
        = (ended x.result, { s with now := s.now + total pauses, journal := j ++ s.journal })
      ∧ j.notes.reverse = (instants s.now pauses).map (.stepped x.name) := by
  induction pauses generalizing s with
  | nil => exact ⟨[], ofExcept_eq _ _, rfl⟩
  | cons pause rest ih =>
    rw [total, ← Nat.add_assoc] at h
    have hsleep := sleep_of_lt (not_ringsBy_of_le (Nat.le_add_right _ _) h)
    obtain ⟨j, hrun, hnotes⟩ := ih
      (s := { s with
        now := s.now + pause
        journal := .note (.stepped x.name (s.now + pause)) :: .woke (s.now + pause) :: s.journal })
      h
    refine ⟨j ++ [.note (.stepped x.name (s.now + pause)), .woke (s.now + pause)], ?_, ?_⟩
    · rw [Piece.steps, andThen_of_done hsleep, List.append_assoc, total, ← Nat.add_assoc]
      exact hrun
    · rw [notes_append, List.reverse_append, hnotes]
      rfl

/-- Pauses that an alarm stops lead to no further step. -/
theorem steps_of_rings {pauses : List Nat} {s : Stage σ Event}
    (hnow : ringsBy alarms s.now = false)
    (h : ringsBy alarms (s.now + total pauses) = true) :
    ∃ stop, StopsAt alarms stop ∧ ∃ j : Journal Event,
      x.steps pauses alarms s
        = (.interrupted, { s with now := stop, journal := j ++ s.journal })
      ∧ j.notes.reverse
        = ((instants s.now pauses).filter fun t => !ringsBy alarms t).map (.stepped x.name) := by
  induction pauses generalizing s with
  | nil =>
    rw [total, Nat.add_zero, hnow] at h
    exact nomatch h
  | cons pause rest ih =>
    cases hwake : ringsBy alarms (s.now + pause) with
    | true =>
      obtain ⟨stop, hstop, hsleep⟩ := sleep_of_rings (le_time_of_not_ringsBy hnow) hwake
      refine ⟨stop, hstop, [.woke (s.now + pause)], ?_, ?_⟩
      · rw [Piece.steps, andThen_of_interrupted hsleep]
        rfl
      · -- All later steps would come after the alarm as well.
        have hnone : (instants s.now (pause :: rest)).filter (fun t => !ringsBy alarms t) = [] := by
          rw [List.filter_eq_nil_iff]
          intro t ht
          have hle : s.now + pause ≤ t := by
            rcases List.mem_cons.mp ht with rfl | ht
            · exact Nat.le_refl _
            · exact le_of_mem_instants ht
          rw [ringsBy_of_le hle hwake]
          decide
        rw [hnone]
        rfl
    | false =>
      rw [total, ← Nat.add_assoc] at h
      obtain ⟨stop, hstop, j, hrun, hnotes⟩ := ih
        (s := { s with
          now := s.now + pause
          journal :=
            .note (.stepped x.name (s.now + pause)) :: .woke (s.now + pause) :: s.journal })
        hwake h
      refine ⟨stop, hstop,
        j ++ [.note (.stepped x.name (s.now + pause)), .woke (s.now + pause)], ?_, ?_⟩
      · rw [Piece.steps, andThen_of_done (sleep_of_lt hwake), List.append_assoc]
        exact hrun
      · have hkept : (instants s.now (pause :: rest)).filter (fun t => !ringsBy alarms t)
            = (s.now + pause)
              :: (instants (s.now + pause) rest).filter (fun t => !ringsBy alarms t) :=
          List.filter_cons_of_pos (by rw [hwake]; rfl)
        rw [notes_append, List.reverse_append, hnotes, hkept]
        rfl

/-- What a piece of work that starts at an instant comes to under alarms, when, and what is seen of
it by then. -/
structure Ran (alarms : List Alarm) (start : Nat) (x : Piece α) (o : Outcome α) (time : Nat)
    (log : List Event) : Prop where
  finished : ringsBy alarms (start + x.delay) = false →
    o = ended x.result ∧ time = start + x.delay
  cancelled : ringsBy alarms (start + x.delay) = true → o = .interrupted ∧ StopsAt alarms time
  log_eq : log = x.logWhile (fun t => !ringsBy alarms t) start time

theorem noting_of_some {ν : Type} {ending : Nat → Outcome α → Option ν} {work : Work σ ν α}
    {s t : Stage σ ν} {o : Outcome α} {n : ν} (h : work alarms s = (o, t))
    (hending : ending t.now o = some n) :
    noting ending work alarms s = (o, { t with journal := .note n :: t.journal }) := by
  simp only [noting, h, hending]

/-- A piece of work that starts before the alarms is finished or cancelled by them. -/
theorem Piece.work_ran {s : Stage σ Event} (hnow : ringsBy alarms s.now = false)
    (hjournal : s.journal = []) :
    ∃ (o : Outcome α) (t : Stage σ Event), x.work alarms s = (o, t) ∧ t.world = s.world
      ∧ Ran alarms s.now x o t.now t.journal.notes.reverse := by
  cases h : ringsBy alarms (s.now + x.delay) with
  | false =>
    obtain ⟨j, hrun, hnotes⟩ := steps_of_lt x h
    have hending : x.ending (s.now + x.delay) (ended x.result)
        = some (.finished x.name (s.now + x.delay)) := by
      cases x.result <;> rfl
    refine ⟨_, _, noting_of_some hrun hending, rfl, fun _ => ⟨rfl, rfl⟩, ?_, ?_⟩
    · rw [h]
      exact nofun
    · rw [logWhile, h, hjournal, List.append_nil, log, ← hnotes]
      exact List.reverse_cons
  | true =>
    obtain ⟨stop, hstop, j, hrun, hnotes⟩ := steps_of_rings x hnow h
    refine ⟨_, _, noting_of_some hrun rfl, rfl, ?_, fun _ => ⟨rfl, hstop⟩, ?_⟩
    · rw [h]
      exact nofun
    · rw [logWhile, h, hjournal, List.append_nil, ← hnotes]
      exact List.reverse_cons

end Alone

/-! ## All pieces -/

/-- The latest of some instants, one for each member of a list, and of another one. -/
def latest {β : Type} (f : β → Nat) (start : Nat) (xs : List β) : Nat :=
  xs.foldl (fun time x => max time (f x)) start

theorem latest_le_iff {β : Type} {f : β → Nat} {start bound : Nat} {xs : List β} :
    latest f start xs ≤ bound ↔ start ≤ bound ∧ ∀ x ∈ xs, f x ≤ bound := by
  induction xs generalizing start with
  | nil => exact ⟨fun h => ⟨h, nofun⟩, And.left⟩
  | cons x xs ih =>
    have hcons : latest f start (x :: xs) = latest f (max start (f x)) xs := rfl
    rw [hcons, ih, List.forall_mem_cons, Nat.max_le, and_assoc]

/-- How long the longest of some pieces of work takes. -/
def longest (pieces : List (Piece α)) : Nat := latest Piece.delay 0 pieces

theorem le_longest {pieces : List (Piece α)} {x : Piece α} (h : x ∈ pieces) :
    x.delay ≤ longest pieces :=
  (latest_le_iff.mp (Nat.le_refl (longest pieces))).2 x h

/-- Pieces of work that start at one instant and take their time end with the longest of them. -/
theorem latest_eq_add_longest {start : Nat} {stop : Piece α → Nat} {pieces : List (Piece α)}
    (h : ∀ x ∈ pieces, stop x = start + x.delay) :
    latest stop start pieces = start + longest pieces := by
  obtain ⟨hstart, hstop⟩ := latest_le_iff.mp (Nat.le_refl (latest stop start pieces))
  have hupper : latest stop start pieces ≤ start + longest pieces := by
    refine latest_le_iff.mpr ⟨Nat.le_add_right _ _, fun x hx => ?_⟩
    have := le_longest hx
    rw [h x hx]
    omega
  have hlower : longest pieces ≤ latest stop start pieces - start := by
    refine latest_le_iff.mpr ⟨Nat.zero_le _, fun x hx => ?_⟩
    have := hstop x hx
    rw [h x hx] at this
    omega
  omega

section All

variable {alarms : List Alarm}

/-- Each piece of work runs as if it were alone. -/
theorem runEach_ran {start : Nat} (hstart : ringsBy alarms start = false) (w : σ) :
    ∃ run : Piece α → Outcome α × Nat × Journal Event,
      (∀ x, Ran alarms start x (run x).1 (run x).2.1 (run x).2.2.notes.reverse)
      ∧ ∀ pieces : List (Piece α),
        runEach alarms start w (pieces.map Piece.work) = (pieces.map run, w) := by
  choose outcome stage hrun hworld hran using fun x : Piece α =>
    x.work_ran (s := ⟨start, w, []⟩) hstart rfl
  refine ⟨fun x => (outcome x, (stage x).now, (stage x).journal), hran, fun pieces => ?_⟩
  induction pieces with
  | nil => rfl
  | cons x pieces ih => simp only [List.map_cons, runEach, hrun, hworld, ih]

theorem settled_map_ended (results : List (Except Failure α)) :
    settled (results.map ended) = some results := by
  induction results with
  | nil => rfl
  | cons r results ih =>
    cases r <;> simp only [List.map_cons, ended, settled, ih, Option.map_some]

/-- Work done together ends with the last of its runs. It is stopped if an alarm has rung by then,
and otherwise has the results of the runs, if they are settled. Which of the runs count as late
shows in the order of the notes alone. -/
theorem together_eq {ν : Type} (limit : Option Limit) {works : List (Work σ ν α)} {s : Stage σ ν}
    {runs : List (Outcome α × Nat × Journal ν)} {w : σ}
    (h : runEach alarms s.now s.world works = (runs, w)) :
    ∃ late : Outcome α × Nat × Journal ν → Bool,
      together limit works alarms s =
        (if ringsBy alarms (latest (fun run => run.2.1) s.now runs) then .interrupted
          else match settled (runs.map Prod.fst) with
            | some results => .done results
            | none => .unsettled,
        { now := latest (fun run => run.2.1) s.now runs
          world := w
          journal := .woke (latest (fun run => run.2.1) s.now runs)
            :: interleave s.now (runs.map fun run => (late run, run.2.2)) ++ s.journal }) := by
  simp only [together, h]
  rw [← latest]
  cases ringsBy alarms (latest (fun run => run.2.1) s.now runs) with
  | true => exact ⟨_, rfl⟩
  | false =>
    cases settled (runs.map Prod.fst) with
    | none => exact ⟨_, rfl⟩
    | some results => exact ⟨_, rfl⟩

/-- Pieces of work done together end with the last of them, and all that is seen of them is what is
seen of each. -/
theorem together_ran (limit : Option Limit) (pieces : List (Piece α)) {s : Stage σ Event}
    (hnow : ringsBy alarms s.now = false) :
    ∃ (outcome : Piece α → Outcome α) (stop : Piece α → Nat) (t : Stage σ Event),
      (∀ x, ringsBy alarms (s.now + x.delay) = false →
        outcome x = ended x.result ∧ stop x = s.now + x.delay)
      ∧ (∀ x, ringsBy alarms (s.now + x.delay) = true →
        outcome x = .interrupted ∧ StopsAt alarms (stop x))
      ∧ together limit (pieces.map Piece.work) alarms s
        = (if ringsBy alarms t.now then .interrupted
          else match settled (pieces.map outcome) with
            | some results => .done results
            | none => .unsettled, t)
      ∧ t.now = latest stop s.now pieces
      ∧ t.journal.notes.Perm
        (pieces.flatMap (fun x => x.logWhile (fun u => !ringsBy alarms u) s.now (stop x))
          ++ s.journal.notes) := by
  obtain ⟨run, hran, hruns⟩ := runEach_ran (σ := σ) (α := α) hnow s.world
  obtain ⟨late, htogether⟩ := together_eq limit (hruns pieces)
  have hmap : (pieces.map run).map Prod.fst = pieces.map fun x => (run x).1 := List.map_map
  have hlast : latest (fun run => run.2.1) s.now (pieces.map run)
      = latest (fun x => (run x).2.1) s.now pieces := List.foldl_map
  rw [hmap] at htogether
  refine ⟨fun x => (run x).1, fun x => (run x).2.1,
    (together limit (pieces.map Piece.work) alarms s).2, fun x => (hran x).finished,
    fun x => (hran x).cancelled, ?_, ?_, ?_⟩
  · rw [htogether]
  · rw [htogether]
    exact hlast
  · have hnotes := notes_interleave_perm s.now
      ((pieces.map run).map fun run => (late run, run.2.2))
    rw [List.flatMap_map, List.flatMap_map] at hnotes
    have hlogs : (pieces.flatMap fun x => (run x).2.2.notes).Perm
        (pieces.flatMap fun x =>
          x.logWhile (fun u => !ringsBy alarms u) s.now (run x).2.1) := by
      refine List.Perm.flatMap_left _ fun x _ => ?_
      rw [← (hran x).log_eq]
      exact (List.reverse_perm _).symm
    rw [htogether]
    refine .trans (.of_eq ?_) ((hnotes.trans hlogs).append_right s.journal.notes)
    exact notes_append (.woke _ :: interleave _ _) s.journal

/-- Pieces of work that no alarm stops end together with the longest of them. -/
theorem together_of_lt (limit : Option Limit) {pieces : List (Piece α)} {s : Stage σ Event}
    (h : ringsBy alarms (s.now + longest pieces) = false) :
    ∃ t : Stage σ Event,
      together limit (pieces.map Piece.work) alarms s
        = (.done (pieces.map Piece.result), t)
      ∧ t.now = s.now + longest pieces
      ∧ t.journal.notes.Perm
        (pieces.flatMap (fun x => x.log s.now) ++ s.journal.notes) := by
  obtain ⟨outcome, stop, t, hfinished, -, hrun, hnow, hnotes⟩ := together_ran limit pieces
    (not_ringsBy_of_le (Nat.le_add_right _ _) h)
  have hquiet : ∀ x ∈ pieces, ringsBy alarms (s.now + x.delay) = false := fun x hx =>
    not_ringsBy_of_le (Nat.add_le_add_left (le_longest hx) _) h
  have hend : t.now = s.now + longest pieces :=
    hnow.trans (latest_eq_add_longest fun x hx => (hfinished x (hquiet x hx)).2)
  have hsettled : settled (pieces.map outcome) = some (pieces.map Piece.result) := by
    rw [← settled_map_ended, List.map_map]
    congr 1
    exact List.map_congr_left fun x hx => (hfinished x (hquiet x hx)).1
  have hlogs : pieces.flatMap
        (fun x => x.logWhile (fun u => !ringsBy alarms u) s.now (stop x))
      = pieces.flatMap fun x => x.log s.now := by
    rw [List.flatMap_def, List.flatMap_def]
    congr 1
    refine List.map_congr_left fun x hx => ?_
    rw [Piece.logWhile, hquiet x hx]
    rfl
  refine ⟨t, ?_, hend, hlogs ▸ hnotes⟩
  rw [hrun, hend, h, hsettled]
  rfl

/-- Pieces of work of which an alarm stops one are stopped together. -/
theorem together_of_rings (limit : Option Limit) {pieces : List (Piece α)} {s : Stage σ Event}
    (hnow : ringsBy alarms s.now = false)
    (h : ringsBy alarms (s.now + longest pieces) = true) :
    ∃ (stop : Piece α → Nat) (t : Stage σ Event),
      (∀ x, ringsBy alarms (s.now + x.delay) = true → StopsAt alarms (stop x))
      ∧ together limit (pieces.map Piece.work) alarms s = (.interrupted, t)
      ∧ StopsAt alarms t.now
      ∧ t.journal.notes.Perm
        (pieces.flatMap (fun x => x.logWhile (fun u => !ringsBy alarms u) s.now (stop x))
          ++ s.journal.notes) := by
  obtain ⟨outcome, stop, t, hfinished, hcancelled, hrun, hend, hnotes⟩ :=
    together_ran limit pieces hnow
  obtain ⟨hstart, hstop⟩ := latest_le_iff.mp (Nat.le_of_eq hend.symm)
  have hrings : ringsBy alarms t.now = true := by
    by_contra hquiet
    rw [Bool.not_eq_true] at hquiet
    -- If nothing has rung by the end, then every piece has taken its time.
    have hall : ∀ x ∈ pieces, stop x = s.now + x.delay := by
      intro x hx
      cases hx' : ringsBy alarms (s.now + x.delay) with
      | false => exact (hfinished x hx').2
      | true =>
        have := ringsBy_of_le (hstop x hx) (hcancelled x hx').2.rings
        rw [hquiet] at this
        exact nomatch this
    rw [hend, latest_eq_add_longest hall, h] at hquiet
    exact nomatch hquiet
  refine ⟨stop, t, fun x hx => (hcancelled x hx).2, by rw [hrun, hrings]; rfl, ⟨hrings, ?_⟩,
    hnotes⟩
  intro a ha
  rw [hend]
  refine latest_le_iff.mpr ⟨le_time_of_not_ringsBy hnow a ha, fun x _ => ?_⟩
  cases hx : ringsBy alarms (s.now + x.delay) with
  | false =>
    rw [(hfinished x hx).2]
    exact le_time_of_not_ringsBy hx a ha
  | true => exact (hcancelled x hx).2.le a ha

end All

/-! ## Values and failures -/

/-- What results come to together: all values in order, or the failure that stands first. -/
inductive Resolves : List (Except Failure α) → Outcome (List α) → Prop where
  | values (values : List α) : Resolves (values.map .ok) (.done values)
  | failure (values : List α) (e : Failure) (rest : List (Except Failure α)) :
    Resolves (values.map .ok ++ .error e :: rest) (.failed e)

theorem resolves_firstFailure (results : List (Except Failure α)) :
    Resolves results (ended (firstFailure results)) := by
  induction results with
  | nil => exact .values []
  | cons r results ih =>
    cases r with
    | error e => exact .failure [] e results
    | ok a =>
      rw [firstFailure]
      cases hrest : firstFailure results with
      | ok values =>
        rw [hrest] at ih
        cases ih
        exact .values (a :: values)
      | error e =>
        rw [hrest] at ih
        cases ih with
        | failure values _ rest => exact .failure (a :: values) e rest

/-- Results come to one thing only. -/
theorem Resolves.eq_ended {results : List (Except Failure α)} {o : Outcome (List α)}
    (h : Resolves results o) : o = ended (firstFailure results) := by
  cases h with
  | values values =>
    have hall : firstFailure (values.map Except.ok) = .ok values := by
      induction values with
      | nil => rfl
      | cons a values ih =>
        rw [List.map_cons, firstFailure, ih]
        rfl
    rw [hall]
    rfl
  | failure values e rest =>
    have hfirst : firstFailure (values.map Except.ok ++ .error e :: rest) = .error e := by
      induction values with
      | nil => rfl
      | cons a values ih =>
        rw [List.map_cons, List.cons_append, firstFailure, ih]
        rfl
    rw [hfirst]
    rfl

theorem resolveAll_of_ne_nil {ν : Type} {works : List (Work σ ν α)} (h : works ≠ [])
    (limit : Option Limit) (what : String) :
    resolveAll (.ok limit) what works
      = (within limit what (together limit works)
        >>= fun results => ofExcept (firstFailure results)) := by
  cases works with
  | nil => exact absurd rfl h
  | cons work rest => rfl

theorem resolveAll_map (limit : Option Limit) (what : String) {pieces : List (Piece α)}
    (h : pieces ≠ []) :
    resolveAll (.ok limit) what (pieces.map (Piece.work (σ := σ)))
      = (within limit what (together limit (pieces.map Piece.work))
        >>= fun results => ofExcept (firstFailure results)) :=
  resolveAll_of_ne_nil (by simpa using h) limit what

/-- Three pieces of work, of which the last fails first and the second fails last. -/
def threePieces : List (Piece Nat) :=
  [⟨0, [1, 2], .ok 7⟩, ⟨1, [4], .error .timedOut⟩, ⟨2, [1], .error .notJson⟩]

end Work

end BeaconHarness
