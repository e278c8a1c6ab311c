import BeaconHarness.Proofs.Wait.Rounds

/-!
# The head start of a retry

A retry asks at once and a poll after one interval, and from there on both go on alike: what counts
as an answer, what means "not yet" and what ends them is the same, and so is the wait in between. Of
one and the same scripted query a retry and a poll without a deadline therefore make the same calls,
and the poll makes each of them one interval later.

Main statement: both end with the first decisive query, the retry with all that it has done one
interval ahead of the poll, or neither of them ends (`retryUntilReady_ahead`).
-/

namespace BeaconHarness.Work

/-! ## Later stages -/

/-- A mark that is set later. -/
def later (length : Nat) : Mark Nat → Mark Nat
  | .note time => .note (time + length)
  | .woke time => .woke (time + length)

/-- The stage of work that has slept first and then done all the same, with each instant noted or
slept to that much later. -/
def delayed (length : Nat) (s : Stage Nat Nat) : Stage Nat Nat where
  now := s.now + length
  world := s.world
  journal := s.journal.map (later length) ++ [.woke length]

theorem notes_delayed (length : Nat) (s : Stage Nat Nat) :
    (delayed length s).journal.notes = s.journal.notes.map (· + length) := by
  have hmarks : ∀ journal : Journal Nat,
      Journal.notes (journal.map (later length)) = journal.notes.map (· + length) := by
    intro journal
    unfold Journal.notes
    rw [List.filterMap_map, List.map_filterMap]
    congr 1
    funext mark
    cases mark <;> rfl
  show Journal.notes (_ ++ _) = _
  rw [Journal.notes, List.filterMap_append, ← Journal.notes, hmarks]
  exact List.append_nil _

namespace Script

variable {α : Type} (x : Script α)

/-! ## The timetable of a retry -/

/-- When a retry starts the k-th query. -/
def retryStart (k : Nat) : Nat := k * x.interval + ∑ j ∈ Finset.range k, x.delay j

/-- When a retry has the answer to the k-th query. -/
def retryFinish (k : Nat) : Nat := x.retryStart k + x.delay k

/-- The journal of a retry that is about to ask the k-th query. -/
def retryJournal : Nat → Journal Nat
  | 0 => []
  | k + 1 => .woke (x.retryStart (k + 1)) :: .woke (x.retryFinish k) :: .note (x.retryStart k)
      :: retryJournal k

/-- Where a retry stands that is about to ask the k-th query. -/
def asking (k : Nat) : Stage Nat Nat where
  now := x.retryStart k
  world := k
  journal := x.retryJournal k

/-- Where a retry stands that has just been answered the k-th query. -/
def answered (k : Nat) : Stage Nat Nat where
  now := x.retryFinish k
  world := k + 1
  journal := .woke (x.retryFinish k) :: .note (x.retryStart k) :: x.retryJournal k

theorem retryStart_zero : x.retryStart 0 = 0 := by simp [retryStart]

theorem retryStart_succ (k : Nat) : x.retryStart (k + 1) = x.retryFinish k + x.interval := by
  rw [retryFinish, retryStart, retryStart, Finset.sum_range_succ, Nat.succ_mul]
  omega

theorem asking_zero : x.asking 0 = { world := 0 } := by
  rw [asking, retryStart_zero]
  rfl

theorem le_retryStart (hinterval : 0 < x.interval) (k : Nat) : k ≤ x.retryStart k := by
  have : k ≤ k * x.interval := Nat.le_mul_of_pos_right k hinterval
  rw [retryStart]
  omega

theorem query_asking (k : Nat) : x.query [] (x.asking k) = (ended (x.answer k), x.answered k) := by
  have hquery : x.query [] (x.asking k) = ofExcept (x.answer k) [] (x.answered k) :=
    x.query_of_lt rfl
  rw [ofExcept_eq] at hquery
  exact hquery

theorem wait_answered (k : Nat) : x.wait [] (x.answered k) = (.done (), x.asking (k + 1)) := by
  have hasking : x.asking (k + 1)
      = { now := x.retryFinish k + x.interval
          world := k + 1
          journal := .woke (x.retryFinish k + x.interval) :: (x.answered k).journal } := by
    rw [← retryStart_succ]
    rfl
  rw [wait, hasking]
  exact sleep_of_lt rfl

theorem notes_asking (n : Nat) :
    (x.asking n).journal.notes.reverse = (List.range n).map x.retryStart := by
  induction n with
  | zero => rfl
  | succ n ih =>
    have hnotes : (x.asking (n + 1)).journal.notes
        = x.retryStart n :: (x.asking n).journal.notes := rfl
    rw [hnotes, List.reverse_cons, ih, List.range_succ, List.map_append]
    rfl

theorem notes_answered (n : Nat) :
    (x.answered n).journal.notes.reverse = (List.range (n + 1)).map x.retryStart :=
  x.notes_asking (n + 1)

/-- The rounds of a retry begin with a query and decide by its answer. -/
theorem course_asking (retryOn : List FailureKind) :
    Course (fun rounds => retryUntilReady rounds x.wait retryOn x.query []) x.asking x.answered
      (fun k => verdict? retryOn (x.answer k)) :=
  retryRounds_course x.query_asking x.wait_answered

/-! ## One interval later -/

theorem start_eq (k : Nat) : x.start k = x.retryStart k + x.interval := by
  rw [start, retryStart, Nat.succ_mul]
  omega

theorem finish_eq (k : Nat) : x.finish k = x.retryFinish k + x.interval := by
  rw [finish, retryFinish, start_eq]
  omega

/-- A poll that has waited for a query stands where a retry stands that is about to ask it, one
interval later. -/
theorem stageBefore_eq (k : Nat) : x.stageBefore k = delayed x.interval (x.asking k) := by
  have hjournal : Mark.woke (x.start k) :: (x.stageAfter k).journal
      = (x.retryJournal k).map (later x.interval) ++ [.woke x.interval] := by
    induction k with
    | zero =>
      rw [start_zero]
      rfl
    | succ k ih =>
      show Mark.woke (x.start (k + 1)) :: .woke (x.finish k) :: .note (x.start k)
        :: .woke (x.start k) :: (x.stageAfter k).journal = _
      rw [ih, start_eq, start_eq, finish_eq]
      rfl
  rw [stageBefore, hjournal, start_eq]
  rfl

theorem stageAfter_succ_eq (k : Nat) :
    x.stageAfter (k + 1) = delayed x.interval (x.answered k) := by
  have hbefore : (x.stageBefore k).journal = (delayed x.interval (x.asking k)).journal :=
    congrArg Stage.journal (x.stageBefore_eq k)
  have hafter : x.stageAfter (k + 1)
      = { now := x.finish k
          world := k + 1
          journal := .woke (x.finish k) :: .note (x.start k) :: (x.stageBefore k).journal } := rfl
  rw [hafter, hbefore, start_eq, finish_eq]
  rfl

/-! ## How both end -/

/-- A retry and a poll without a deadline, of the same scripted query and with the same kinds of
failures that mean "not yet". If some query is decisive, both end with the first such one and come
to the same; the retry starts its k-th query after `k` intervals and all that the queries before it
took, and stands at the end where that query has left it, and the poll stands where that is one
interval later. If no query is decisive, neither is settled by any number of rounds, however late it
is by then, and as many queries have been made by the one as by the other, which made each one
interval later. -/
theorem retryUntilReady_ahead (hinterval : 0 < x.interval) (what : String)
    (retryOn : List FailureKind) :
    (∀ m o, x.FirstDecisive retryOn m o → ∀ rounds > m, ∃ s t,
      retryUntilReady rounds x.wait retryOn x.query [] { world := 0 } = (o, t)
      ∧ pollUntil rounds x.wait none what retryOn x.query [] { world := 0 }
        = (o, delayed x.interval t)
      ∧ t.journal.notes.reverse = (List.range (m + 1)).map x.retryStart
      ∧ (delayed x.interval t).journal.notes.reverse
        = (List.range (m + 1)).map (x.retryStart · + x.interval)
      ∧ s.now = x.retryStart m ∧ x.query [] s = (ended (x.answer m), t)
      ∧ t.now = x.retryStart m + x.delay m)
    ∧ ((∀ k, verdict? retryOn (x.answer k) = none) → ∀ rounds, ∃ t u,
      retryUntilReady rounds x.wait retryOn x.query [] { world := 0 } = (.unsettled, t)
      ∧ pollUntil rounds x.wait none what retryOn x.query [] { world := 0 } = (.unsettled, u)
      ∧ t.journal.notes.reverse = (List.range rounds).map x.retryStart
      ∧ u.journal.notes.reverse = (List.range rounds).map (x.retryStart · + x.interval)
      ∧ x.wait [] u = (.done (), delayed x.interval t)
      ∧ rounds ≤ t.now) := by
  have hshift : ∀ {n : Nat} {t : Stage Nat Nat},
      t.journal.notes.reverse = (List.range n).map x.retryStart →
      (delayed x.interval t).journal.notes.reverse
        = (List.range n).map (x.retryStart · + x.interval) := by
    intro n t ht
    rw [notes_delayed, ← List.map_reverse, ht, List.map_map]
    rfl
  constructor
  · intro m o hm rounds hrounds
    have hretry := (x.course_asking retryOn).decided hm.earlier hm.decides hrounds
    rw [asking_zero] at hretry
    have hpoll : pollRounds x.wait retryOn x.query rounds [] (x.stageAfter 0)
        = (o, x.stageAfter (m + 1)) := x.pollRounds_decided hm rfl hrounds
    rw [stageAfter_succ_eq] at hpoll
    exact ⟨x.asking m, x.answered m, hretry, hpoll, x.notes_answered m, hshift (x.notes_answered m),
      rfl, x.query_asking m, rfl⟩
  · intro hnone rounds
    have hretry : retryUntilReady rounds x.wait retryOn x.query [] (x.asking 0)
        = (.unsettled, x.asking rounds) :=
      (x.course_asking retryOn).undecided fun k _ => hnone k
    rw [asking_zero] at hretry
    have hpoll : pollRounds x.wait retryOn x.query (rounds + 0) [] (x.stageAfter 0)
        = (.unsettled, x.stageAfter rounds) :=
      x.pollRounds_run (fun _ _ => rfl) (fun k _ => hnone k) 0
    have hwait : x.wait [] (x.stageAfter rounds) = (.done (), x.stageBefore rounds) :=
      x.wait_of_lt rfl
    rw [stageBefore_eq] at hwait
    refine ⟨x.asking rounds, x.stageAfter rounds, hretry, hpoll, x.notes_asking rounds, ?_, hwait,
      x.le_retryStart hinterval rounds⟩
    rw [notes_stageAfter]
    exact List.map_congr_left fun k _ => x.start_eq k

/-- The failure of the second query of `secondFails` ends a retry after three ticks and a poll after
five. Where any failure means "not yet", both are still at it after three rounds. -/
theorem retryUntilReady_ahead_secondFails :
    0 < secondFails.interval
    ∧ (∃ t, retryUntilReady 2 secondFails.wait [] secondFails.query [] { world := 0 }
          = (.failed .timedOut, t)
        ∧ pollUntil 2 secondFails.wait none "head" [] secondFails.query [] { world := 0 }
          = (.failed .timedOut, delayed 2 t)
        ∧ t.now = 3 ∧ t.journal.notes.reverse = [0, 2])
    ∧ ∃ t u, retryUntilReady 3 secondFails.wait [.anything] secondFails.query [] { world := 0 }
          = (.unsettled, t)
        ∧ pollUntil 3 secondFails.wait none "head" [.anything] secondFails.query []
            { world := 0 } = (.unsettled, u)
        ∧ t.journal.notes.reverse = [0, 2, 5] ∧ u.journal.notes.reverse = [2, 4, 7] := by
  have hfirst : secondFails.FirstDecisive [] 1 (.failed .timedOut) :=
    ⟨rfl, fun k hk => by
      obtain rfl : k = 0 := by omega
      rfl⟩
  have hnone : ∀ k, verdict? [.anything] (secondFails.answer k) = none := by
    intro k
    by_cases hk : k = 1
    · subst hk
      rfl
    · simp [secondFails, hk, verdict?]
  refine ⟨by decide, ?_, ?_⟩
  · obtain ⟨hends, -⟩ := secondFails.retryUntilReady_ahead (by decide) "head" []
    obtain ⟨s, t, hretry, hpoll, hstarts, -, -, -, hnow⟩ := hends 1 _ hfirst 2 (by decide)
    exact ⟨t, hretry, hpoll, hnow, hstarts⟩
  · obtain ⟨-, hendless⟩ := secondFails.retryUntilReady_ahead (by decide) "head" [.anything]
    obtain ⟨t, u, hretry, hpoll, hstarts, hlater, -, -⟩ := hendless hnone 3
    exact ⟨t, u, hretry, hpoll, hstarts, hlater⟩

end Script

end BeaconHarness.Work
