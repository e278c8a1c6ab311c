import BeaconHarness.Proofs.Withdrawal.Payload

/-!
# Limits of a sweep

Two limits end a sweep, one on the positions that it visits and one on the withdrawals that it
takes. They bear on nothing else: of two sweeps that differ in their limits alone, the one with the
lower limits goes the same way as the other and only stops earlier. A position that it does not get
to cannot make it fail either.

Main statement: with lower limits a sweep pays out a prefix of what it pays out with higher ones
(`sweep_prefix`). Limits may be any integers; one below zero admits as much as zero does
(`sweep_clamped`).
-/

namespace BeaconHarness

/-- The parameters with other limits on a withdrawal sweep: on the positions visited and on the
withdrawals taken. -/
def Spec.withLimits (spec : Spec) (sweepLimit payloadLimit : Int) : Spec :=
  { spec with
    maxValidatorsPerWithdrawalsSweep := .int sweepLimit
    maxWithdrawalsPerPayload := .int payloadLimit }

namespace Withdrawals

open Consensus (Withdrawal)

variable (r : Registry) (epoch : Datum) (spec : Spec)

/-! ## Where the limits stand -/

theorem Terms.Of.withLimits_eq {t : Terms} {spec : Spec} (ht : t.Of spec) :
    spec.withLimits t.sweepLimit t.payloadLimit = spec := by
  unfold Spec.withLimits
  rw [← ht.sweepLimit, ← ht.payloadLimit]

theorem reach_withLimits (sweepLimit payloadLimit : Int) :
    r.reach (spec.withLimits sweepLimit payloadLimit)
      = .ok (min r.validators.length sweepLimit.toNat) := by
  unfold Registry.reach Spec.withLimits
  -- The limit is turned into a count of positions only where it is the smaller one.
  by_cases h : sweepLimit < r.validators.length
  · simp [h, bind, Except.bind]
  · have hmin : min r.validators.length sweepLimit.toNat = r.validators.length := by omega
    simp [h, hmin, bind, Except.bind, pure, Except.pure]

/-- Once a sweep is under way, its limits are the counts of steps and of places that are left. -/
theorem sweepFrom_withLimits (sweepLimit payloadLimit : Int) (room steps : Nat) :
    ∀ (position index : Int) (taken : List Withdrawal),
      r.sweepFrom epoch (spec.withLimits sweepLimit payloadLimit) room steps position index taken
        = r.sweepFrom epoch spec room steps position index taken := by
  induction steps with
  | zero => exact fun _ _ _ => rfl
  | succ steps ih =>
    intro position index taken
    have hdue : r.dueAt position epoch (spec.withLimits sweepLimit payloadLimit)
        = r.dueAt position epoch spec := rfl
    simp only [Registry.sweepFrom, hdue, ih]

theorem sweep_withLimits (index position : Datum) (sweepLimit payloadLimit : Int) :
    r.sweep index position epoch (spec.withLimits sweepLimit payloadLimit)
      = if r.validators.isEmpty then .ok []
        else index.plainInteger.bind fun index => position.plainInteger.bind fun position =>
          r.sweepFrom epoch spec
            (min (min r.validators.length sweepLimit.toNat) payloadLimit.toNat)
            (min r.validators.length sweepLimit.toNat) position index [] := by
  unfold Registry.sweep
  rw [reach_withLimits]
  cases hempty : r.validators.isEmpty with
  | true => rfl
  | false =>
    cases index.plainInteger with
    | error e => rfl
    | ok index =>
      cases position.plainInteger with
      | error e => rfl
      | ok position =>
        by_cases hsteps : min r.validators.length sweepLimit.toNat = 0
        · simp [hsteps, Registry.sweepFrom, bind, Except.bind, pure, Except.pure]
        · have hroom : (spec.withLimits sweepLimit payloadLimit).maxWithdrawalsPerPayload
              = .int payloadLimit := rfl
          simp only [hsteps, hroom, Datum.countBelow_int, sweepFrom_withLimits, bind, Except.bind,
            Bool.false_eq_true, if_false]

/-- A limit below zero admits as much as zero does. -/
theorem sweep_clamped (index position : Datum) (sweepLimit payloadLimit : Int) :
    r.sweep index position epoch (spec.withLimits sweepLimit payloadLimit)
      = r.sweep index position epoch
          (spec.withLimits sweepLimit.toNat payloadLimit.toNat) := by
  simp only [sweep_withLimits, Int.toNat_natCast]

/-! ## Sweeps under way -/

variable {r epoch spec} {position index : Int} {taken ws : List Withdrawal}

/-- What the next step of a sweep that pays out can do: find the payload full, pass over a position
at which nothing is due, or take one more withdrawal. -/
theorem sweepFrom_succ_cases {room steps : Nat}
    (h : r.sweepFrom epoch spec room (steps + 1) position index taken = .ok ws) :
    (room ≤ taken.length ∧ ws = taken.reverse) ∨
    (taken.length < room ∧ r.reaches position = true ∧ r.dueAt position epoch spec = .ok none ∧
      r.sweepFrom epoch spec room steps (r.next position) index taken = .ok ws) ∨
    (taken.length < room ∧ r.reaches position = true ∧ ∃ address amount w,
      r.dueAt position epoch spec = .ok (some (address, amount)) ∧
      withdrawalOf index position address amount = .ok w ∧
      r.sweepFrom epoch spec room steps (r.next position) (index + 1) (w :: taken) = .ok ws) := by
  unfold Registry.sweepFrom at h
  by_cases hfull : room ≤ taken.length
  · rw [if_pos hfull] at h
    exact .inl ⟨hfull, (Except.ok.inj h).symm⟩
  · have hopen : taken.length < room := Nat.lt_of_not_le hfull
    rw [if_neg hfull] at h
    cases hreaches : r.reaches position with
    | false =>
      rw [hreaches] at h
      cases h
    | true =>
      rw [hreaches] at h
      cases hdue : r.dueAt position epoch spec with
      | error e =>
        rw [hdue] at h
        cases h
      | ok found =>
        rw [hdue] at h
        cases found with
        | none => exact .inr (.inl ⟨hopen, rfl, rfl, h⟩)
        | some due =>
          obtain ⟨address, amount⟩ := due
          cases hmade : withdrawalOf index position address amount with
          | error e =>
            simp only [hmade] at h
            cases h
          | ok w =>
            simp only [hmade] at h
            exact .inr (.inr ⟨hopen, rfl, address, amount, w, rfl, hmade, h⟩)

/-- What a sweep has taken stays in front. -/
theorem taken_prefix_of_sweepFrom {room steps : Nat}
    (h : r.sweepFrom epoch spec room steps position index taken = .ok ws) :
    taken.reverse <+: ws := by
  induction steps generalizing position index taken with
  | zero =>
    obtain rfl := Except.ok.inj h
    exact List.prefix_rfl
  | succ steps ih =>
    rcases sweepFrom_succ_cases h with ⟨-, rfl⟩ | ⟨-, -, -, hnext⟩ | ⟨-, -, _, _, w, -, -, hnext⟩
    · exact List.prefix_rfl
    · exact ih hnext
    · have hlonger : (w :: taken).reverse <+: ws := ih hnext
      rw [List.reverse_cons] at hlonger
      exact (List.prefix_append _ _).trans hlonger

theorem length_le_of_sweepFrom {room steps : Nat} (htaken : taken.length ≤ room)
    (h : r.sweepFrom epoch spec room steps position index taken = .ok ws) : ws.length ≤ room := by
  induction steps generalizing position index taken with
  | zero =>
    obtain rfl := Except.ok.inj h
    rwa [List.length_reverse]
  | succ steps ih =>
    rcases sweepFrom_succ_cases h with
      ⟨-, rfl⟩ | ⟨-, -, -, hnext⟩ | ⟨hopen, -, _, _, w, -, -, hnext⟩
    · rwa [List.length_reverse]
    · exact ih htaken hnext
    · have hplace : (w :: taken).length ≤ room := hopen
      exact ih hplace hnext

/-- A sweep with fewer steps and fewer places left takes the same withdrawals up to where it
stops. -/
theorem sweepFrom_prefix {few many : Nat} (hroom : few ≤ many) {short long : Nat}
    (hsteps : short ≤ long) :
    ∀ (position index : Int) (taken : List Withdrawal),
      r.sweepFrom epoch spec many long position index taken = .ok ws →
      ∃ front, r.sweepFrom epoch spec few short position index taken = .ok front
        ∧ front <+: ws := by
  -- The two sweeps stand at the same place until the shorter one stops.
  induction short generalizing long with
  | zero => exact fun _ _ taken h => ⟨taken.reverse, rfl, taken_prefix_of_sweepFrom h⟩
  | succ short ih =>
    intro position index taken h
    obtain ⟨long, rfl⟩ : ∃ left, long = left + 1 := ⟨long - 1, by omega⟩
    have hshorter : short ≤ long := by omega
    by_cases hfull : few ≤ taken.length
    · refine ⟨taken.reverse, ?_, taken_prefix_of_sweepFrom h⟩
      rw [Registry.sweepFrom, if_pos hfull]
    · rw [Registry.sweepFrom, if_neg hfull]
      rcases sweepFrom_succ_cases h with
        ⟨hlate, -⟩ | ⟨-, hreaches, hdue, hnext⟩ | ⟨-, hreaches, _, _, w, hdue, hmade, hnext⟩
      · exact absurd (Nat.le_trans hroom hlate) hfull
      · rw [hreaches, hdue]
        exact ih hshorter _ _ _ hnext
      · simp only [hreaches, hdue, hmade]
        exact ih hshorter _ _ _ hnext

/-! ## Lower limits -/

/-- Whatever a sweep goes over and from wherever it starts, if it pays out with some limits, it also
pays out with lower ones, and then a prefix of it; all of it if the payload is full already. -/
theorem sweep_prefix (r : Registry) (index position epoch : Datum) (spec : Spec)
    {sweepLimit sweepLimit' payloadLimit payloadLimit' : Int} (hsweep : sweepLimit ≤ sweepLimit')
    (hpayload : payloadLimit ≤ payloadLimit') {ws : List Withdrawal}
    (h : r.sweep index position epoch (spec.withLimits sweepLimit' payloadLimit') = .ok ws) :
    ∃ front, r.sweep index position epoch (spec.withLimits sweepLimit payloadLimit) = .ok front
      ∧ front <+: ws
      ∧ (payloadLimit = payloadLimit' → (front.length : Int) = payloadLimit → front = ws) := by
  rw [sweep_withLimits] at h ⊢
  cases hempty : r.validators.isEmpty with
  | true =>
    rw [hempty] at h
    obtain rfl := Except.ok.inj h
    exact ⟨[], rfl, List.prefix_rfl, fun _ _ => rfl⟩
  | false =>
    rw [hempty] at h
    cases hindex : index.plainInteger with
    | error e =>
      rw [hindex] at h
      cases h
    | ok index =>
      cases hposition : position.plainInteger with
      | error e =>
        rw [hindex, hposition] at h
        cases h
      | ok position =>
        rw [hindex, hposition] at h
        have hsteps : min r.validators.length sweepLimit.toNat
            ≤ min r.validators.length sweepLimit'.toNat := by omega
        have hroom : min (min r.validators.length sweepLimit.toNat) payloadLimit.toNat
            ≤ min (min r.validators.length sweepLimit'.toNat) payloadLimit'.toNat := by omega
        obtain ⟨front, hfront, hle⟩ := sweepFrom_prefix hroom hsteps position index [] h
        refine ⟨front, hfront, hle, fun hsame hfull => ?_⟩
        -- The longer payload has no place for more than the shorter one holds.
        have hlength := length_le_of_sweepFrom (Nat.zero_le _) h
        exact hle.eq_of_length_le (by omega)

/-- With a place for one withdrawal, a sweep over `oneBalance` is full before it gets to the first
position without a balance. A sweep of one position pays out no less. -/
theorem sweep_prefix_oneBalance :
    let spec := Spec.ofPreset .minimal
    let paid : List Withdrawal := [⟨7, 0, Bytes.zeros 20, 1000000000⟩]
    oneBalance.registry.sweep (.int 7) (.int 0) (.int 10) (spec.withLimits 3 1) = .ok paid ∧
    ∃ front, oneBalance.registry.sweep (.int 7) (.int 0) (.int 10) (spec.withLimits 1 1) = .ok front
      ∧ front <+: paid ∧ ((1 : Int) = 1 → (front.length : Int) = 1 → front = paid) := by
  intro spec paid
  have hpaid : oneBalance.registry.sweep (.int 7) (.int 0) (.int 10) (spec.withLimits 3 1)
      = .ok paid :=
    (sweep_registry oneBalance (t := ⟨1, 32000000000, 3, 1⟩) ⟨rfl, rfl, rfl, rfl⟩ 10 7
      (by decide)).trans rfl
  exact ⟨hpaid, sweep_prefix oneBalance.registry _ _ _ spec (by decide) (by decide) hpaid⟩

end Withdrawals

end BeaconHarness
