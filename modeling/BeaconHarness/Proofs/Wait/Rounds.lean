import BeaconHarness.Proofs.Wait.Poll

/-!
# Rounds that nothing stops

Work in rounds passes through a row of stages, one at the beginning of each round, and each round
decides it or leads on to the next stage. Where the rounds repeat themselves from some round on, the
decision comes before that or not at all, so that a bounded number of rounds is enough for it; and
the clock, once it stands still, stands still for ever.

Main statements: what work in rounds comes to (`Course.decided`, `Course.undecided`), and the two
bounds on the rounds that it takes (`le_of_repeats`, `lt_of_moves`).
-/

namespace BeaconHarness.Work

variable {σ ν α : Type}

/-! ## Courses -/

/-- The course of work in rounds: round `k` begins at the stage `u k`, and decides the work at the
stage `w k` or leads on. -/
structure Course (run : Nat → Stage σ ν → Outcome α × Stage σ ν) (u w : Nat → Stage σ ν)
    (verdict : Nat → Option (Outcome α)) : Prop where
  ends : ∀ s, run 0 s = (.unsettled, s)
  step : ∀ rounds k, run (rounds + 1) (u k) = match verdict k with
    | some o => (o, w k)
    | none => run rounds (u (k + 1))

namespace Course

variable {run : Nat → Stage σ ν → Outcome α × Stage σ ν} {u w : Nat → Stage σ ν}
  {verdict : Nat → Option (Outcome α)}

/-- Rounds that decide nothing lead from one stage to a later one. -/
theorem run_add (h : Course run u w verdict) {n : Nat} (hnone : ∀ k < n, verdict k = none)
    (rounds : Nat) : run (n + rounds) (u 0) = run rounds (u n) := by
  induction n generalizing rounds with
  | zero => rw [Nat.zero_add]
  | succ n ih =>
    have hrun := ih (fun k hk => hnone k (by omega)) (rounds + 1)
    rw [show n + 1 + rounds = n + (rounds + 1) by omega, hrun, h.step, hnone n (by omega)]

theorem decided (h : Course run u w verdict) {m rounds : Nat} {o : Outcome α}
    (hnone : ∀ k < m, verdict k = none) (hm : verdict m = some o) (hrounds : m < rounds) :
    run rounds (u 0) = (o, w m) := by
  -- The rounds that are left over after the decision are never begun.
  obtain ⟨spare, rfl⟩ : ∃ spare, rounds = m + (spare + 1) := ⟨rounds - m - 1, by omega⟩
  rw [h.run_add hnone, h.step, hm]

theorem undecided (h : Course run u w verdict) {rounds : Nat}
    (hnone : ∀ k < rounds, verdict k = none) : run rounds (u 0) = (.unsettled, u rounds) := by
  rw [← Nat.add_zero rounds, h.run_add hnone, h.ends, Nat.add_zero]

end Course

/-! ## Polls and retries -/

section Rounds

variable {wait : Work σ ν Unit} {retryOn : List FailureKind} {query : Work σ ν (Option α)}
  {u v : Nat → Stage σ ν} {answer : Nat → Except Failure (Option α)}

/-- A poll that waits from `u k` to `v k` and asks from there. -/
theorem pollRounds_course (hwait : ∀ k, wait [] (u k) = (.done (), v k))
    (hquery : ∀ k, query [] (v k) = (ended (answer k), u (k + 1))) :
    Course (fun rounds => pollRounds wait retryOn query rounds []) u (fun k => u (k + 1))
      (fun k => verdict? retryOn (answer k)) where
  ends _ := rfl
  step rounds k := pollRounds_succ_of_ended (hwait k) (hquery k) rounds

/-- A retry that asks from `u k` to `v k` and waits from there. -/
theorem retryRounds_course (hquery : ∀ k, query [] (u k) = (ended (answer k), v k))
    (hwait : ∀ k, wait [] (v k) = (.done (), u (k + 1))) :
    Course (fun rounds => retryRounds wait retryOn query rounds []) u v
      (fun k => verdict? retryOn (answer k)) where
  ends _ := rfl
  step rounds k := by
    show retryRounds wait retryOn query (rounds + 1) [] (u k) = _
    rw [retryRounds_succ_of_ended (hquery k)]
    cases verdict? retryOn (answer k) with
    | some o => rfl
    | none => exact andThen_of_done (hwait k)

end Rounds

/-! ## How many rounds are enough -/

/-- A clock that moves in every round before an instant reaches it. -/
theorem le_or_reaches {now : Nat → Nat} {bound : Nat} (hle : ∀ k, now k ≤ now (k + 1))
    (hmoves : ∀ k, now k < bound → now k < now (k + 1)) (k : Nat) :
    now 0 + k ≤ now k ∨ bound ≤ now k := by
  induction k with
  | zero => exact .inl (Nat.le_refl _)
  | succ k ih =>
    have hstep := hle k
    by_cases hbefore : now k < bound
    · have hmove := hmoves k hbefore
      rcases ih with hfar | hthere
      · exact .inl (by omega)
      · exact .inr (by omega)
    · exact .inr (by omega)

/-- Of verdicts in a row none decides anything, or there is a first one that does. -/
theorem undecided_or_first {β : Type} (verdict : Nat → Option β) :
    (∀ k, verdict k = none) ∨ ∃ m b, (∀ k < m, verdict k = none) ∧ verdict m = some b := by
  by_cases hnone : ∀ k, verdict k = none
  · exact .inl hnone
  · rw [not_forall] at hnone
    obtain ⟨b, hb⟩ := Option.ne_none_iff_exists'.mp (Nat.find_spec hnone)
    have hearlier : ∀ k < Nat.find hnone, verdict k = none := fun k hk =>
      not_not.mp (Nat.find_min hnone hk)
    exact .inr ⟨Nat.find hnone, b, hearlier, hb⟩

/-- Where every round from the `n`-th on comes to the same, the first that decides something comes
no later. -/
theorem le_of_repeats {β : Type} {verdict : Nat → Option β} {n m : Nat}
    (hrepeats : ∀ k, n ≤ k → verdict k = verdict n) (hnone : ∀ k < m, verdict k = none)
    (hm : verdict m ≠ none) : m ≤ n := by
  by_contra hlate
  have hn := hnone n (by omega)
  rw [← hrepeats m (by omega)] at hn
  exact hm hn

/-- A clock that moves in the same way in every round from the `n`-th on and stands still in one of
them stands still from there on. -/
theorem stands_still {now : Nat → Nat} {move : Nat → Nat} {n k : Nat}
    (hmove : ∀ j, n ≤ j → now (j + 1) = move (now j)) (hk : n ≤ k) (hstill : now (k + 1) = now k)
    {j : Nat} (hj : k ≤ j) : now j = now k := by
  induction j, hj using Nat.le_induction with
  | base => rfl
  | succ j hj ih => rw [hmove j (by omega), ih, ← hmove k hk, hstill]

/-- A clock that moves in the same way in every round from the `n`-th on, and in the end passes an
instant that it has not reached in the first `m` rounds, has moved in each of these. -/
theorem lt_of_moves {now : Nat → Nat} {move : Nat → Nat} {n m bound : Nat}
    (hle : ∀ k, now k ≤ now (k + 1)) (hmove : ∀ j, n ≤ j → now (j + 1) = move (now j))
    (hbefore : now m < bound) (hpasses : bound ≤ now (m + 1)) :
    now 0 + m < bound + n := by
  have hmono : Monotone now := monotone_nat_of_le_succ hle
  have hstrict : ∀ k, n ≤ k → k ≤ m → now n + (k - n) ≤ now k := by
    intro k hk hkm
    induction k, hk using Nat.le_induction with
    | base => omega
    | succ k hk ih =>
      have hearlier := ih (by omega)
      have hstep := hle k
      by_cases hstill : now (k + 1) = now k
      · -- The clock would stand still for ever.
        have hlast := stands_still hmove hk hstill (j := m + 1) (by omega)
        have := hmono (show k ≤ m by omega)
        omega
      · omega
  have hfirst := hmono (Nat.zero_le n)
  by_cases hnm : n ≤ m
  · have := hstrict m hnm (Nat.le_refl m)
    omega
  · have := hmono (Nat.zero_le m)
    omega

end BeaconHarness.Work
