import BeaconHarness.Proofs.Withdrawal.Payload

/-!
# How a sweep ends

A sweep pays out what is due, or it gets to a position that registry or balances lack, or the number
of a withdrawal no longer fits its field. It ends in no other way, however many balances there are
and wherever the cursor lies, and it runs out of numbers exactly when more payments are due in front
of the first missing balance than there are numbers left.

Main statements: the ends of a sweep (`sweep_cases`), and when it runs out of numbers
(`sweep_eq_malformed_iff`).
-/

namespace BeaconHarness.Withdrawals

open Consensus (Withdrawal)

/-! ## Walks -/

/-- A walk pays out, gets to a position without a balance, or runs out of numbers. -/
theorem Census.run_cases (c : Census) (t : Terms) (epoch : Int) (positions : List Nat) :
    ∀ (room index : Nat),
      c.run t epoch positions room index
          = .ok (numbered index ((c.dues t epoch positions).take room)) ∨
        (∃ i ∈ positions, c.balances.length ≤ i ∧
          c.run t epoch positions room index = .error (c.registry.missing i)) ∨
        c.run t epoch positions room index = .error .malformed := by
  induction positions with
  | nil => exact fun room index => .inl (by simp [Census.run, Census.dues, numbered])
  | cons i rest ih =>
    intro room index
    cases room with
    | zero => exact .inl (by simp [Census.run, numbered])
    | succ room =>
      by_cases hbalance : c.balances.length ≤ i
      · exact .inr (.inl ⟨i, List.mem_cons_self, hbalance, by rw [Census.run, if_pos hbalance]⟩)
      · rw [Census.run, if_neg hbalance]
        cases hd : c.due? t epoch i with
        | none =>
          have hdues : c.dues t epoch (i :: rest) = c.dues t epoch rest :=
            List.filterMap_cons_none hd
          rw [hdues]
          rcases ih (room + 1) index with hpaid | ⟨k, hk, hle, hmissing⟩ | hnumbers
          · exact .inl hpaid
          · exact .inr (.inl ⟨k, List.mem_cons_of_mem i hk, hle, hmissing⟩)
          · exact .inr (.inr hnumbers)
        | some d =>
          have hdues : c.dues t epoch (i :: rest) = d :: c.dues t epoch rest :=
            List.filterMap_cons_some hd
          by_cases hindex : index < Bytes.capacity 8
          · simp only [if_pos hindex, hdues]
            rcases ih room (index + 1) with hpaid | ⟨k, hk, hle, hmissing⟩ | hnumbers
            · exact .inl (by simp [hpaid, Except.map, numbered])
            · exact .inr (.inl ⟨k, List.mem_cons_of_mem i hk, hle, by rw [hmissing]; rfl⟩)
            · exact .inr (.inr (by rw [hnumbers]; rfl))
          · exact .inr (.inr (by simp only [if_neg hindex]))

/-- A walk runs out of numbers exactly when there are fewer of them than payments due in front of
the first missing balance, as far as the payload has room for these. -/
theorem Census.run_eq_malformed_iff (c : Census) (t : Terms) (epoch : Int)
    (positions : List Nat) :
    ∀ (room index : Nat), index ≤ Bytes.capacity 8 →
      (c.run t epoch positions room index = .error .malformed ↔
        Bytes.capacity 8 < index + min room (c.dues t epoch (c.covered positions)).length) := by
  induction positions with
  | nil =>
    intro room index hindex
    simp [Census.run, Census.covered, Census.dues, hindex]
  | cons i rest ih =>
    intro room index hindex
    cases room with
    | zero => simp [Census.run, hindex]
    | succ room =>
      by_cases hbalance : c.balances.length ≤ i
      · -- The missing balance ends the walk, so that nothing behind it needs a number.
        have hcovered : c.covered (i :: rest) = [] := by simp [Census.covered, hbalance]
        rw [Census.run, if_pos hbalance, hcovered]
        simp [Registry.missing, Census.dues, hindex]
      · have hcovered : c.covered (i :: rest) = i :: c.covered rest := by
          simp [Census.covered, Nat.lt_of_not_le hbalance]
        rw [Census.run, if_neg hbalance, hcovered]
        cases hd : c.due? t epoch i with
        | none =>
          have hdues : c.dues t epoch (i :: c.covered rest) = c.dues t epoch (c.covered rest) :=
            List.filterMap_cons_none hd
          rw [hdues]
          exact ih (room + 1) index hindex
        | some d =>
          have hdues : c.dues t epoch (i :: c.covered rest)
              = d :: c.dues t epoch (c.covered rest) := List.filterMap_cons_some hd
          rw [hdues, List.length_cons]
          by_cases hword : index < Bytes.capacity 8
          · have hrest := ih room (index + 1) hword
            have hmap : ∀ r : Except Failure (List Withdrawal),
                r.map (d.withdrawal index :: ·) = .error .malformed ↔ r = .error .malformed := by
              intro r
              cases r <;> simp [Except.map]
            simp only [if_pos hword]
            rw [hmap, hrest]
            omega
          · simp only [if_neg hword, true_iff]
            omega

theorem Census.length_dues_covered_le (c : Census) (t : Terms) (epoch : Int)
    (positions : List Nat) :
    (c.dues t epoch (c.covered positions)).length ≤ (c.dues t epoch positions).length :=
  ((List.takeWhile_sublist _).filterMap _).length_le

/-- How many numbers a sweep needs: one for each payment that is due in front of the first missing
balance, as far as the payload has room. -/
def Census.numbersNeeded (c : Census) (t : Terms) (epoch : Int) (cursor : Nat) : Nat :=
  min t.payloadLimit (c.dues t epoch (c.covered
    (visits c.validators.length cursor (min c.validators.length t.sweepLimit)))).length

theorem Census.numbersNeeded_le (c : Census) (t : Terms) (epoch : Int) (cursor : Nat) :
    c.numbersNeeded t epoch cursor ≤ c.validators.length := by
  have hcovered := c.length_dues_covered_le t epoch (visits c.validators.length cursor
    (min c.validators.length t.sweepLimit))
  have hdues : (c.dues t epoch (visits c.validators.length cursor
      (min c.validators.length t.sweepLimit))).length ≤ _ := List.length_filterMap_le _ _
  rw [length_visits] at hdues
  unfold numbersNeeded
  omega

/-! ## Sweeps -/

theorem Census.missing_registry (c : Census) (position : Int) :
    c.registry.missing position =
      .validatorIndex (.int position) c.validators.length (some c.balances.length) := by
  simp [Registry.missing, Census.registry]

section

variable {t : Terms} {spec : Spec} {cursor : Nat}

/-- A cursor behind the registry is noticed unless the sweep has nothing to visit or no place. -/
theorem sweep_of_behind (c : Census) (ht : t.Of spec) (epoch : Int) (first : Nat)
    (hcursor : c.validators.length ≤ cursor) :
    c.registry.sweep (.int first) (.int cursor) (.int epoch) spec
        = .ok (c.payload t epoch first cursor) ∨
      c.registry.sweep (.int first) (.int cursor) (.int epoch) spec
        = .error (c.registry.missing cursor) := by
  by_cases hempty : c.validators = []
  · left
    simp [Registry.sweep, Census.registry, hempty, Census.payload, visits, Census.dues, numbered,
      pure, Except.pure]
  · by_cases hlimits : 1 ≤ t.sweepLimit ∧ 1 ≤ t.payloadLimit
    · exact .inr (sweep_of_length_le c ht epoch hempty hlimits.1 hlimits.2 hcursor)
    · left
      rw [sweep_eq_sweepFrom c ht epoch first cursor hempty]
      have hnone : t.sweepLimit = 0 ∨ t.payloadLimit = 0 := by omega
      rcases hnone with hsweep | hpayload
      · simp [hsweep, Registry.sweepFrom, Census.payload, visits, Census.dues, numbered]
      · -- The sweep has positions to visit, and stops in front of the first.
        cases min c.validators.length t.sweepLimit <;>
          simp [hpayload, Registry.sweepFrom, Census.payload, numbered]

/-- A sweep pays out what is due, fails with a position that registry or balances lack, or runs out
of numbers. -/
theorem sweep_cases (c : Census) (ht : t.Of spec) (epoch : Int) (first cursor : Nat) :
    c.registry.sweep (.int first) (.int cursor) (.int epoch) spec
        = .ok (c.payload t epoch first cursor) ∨
      (∃ position : Nat, (c.validators.length ≤ position ∨ c.balances.length ≤ position) ∧
        c.registry.sweep (.int first) (.int cursor) (.int epoch) spec
          = .error (c.registry.missing position)) ∨
      c.registry.sweep (.int first) (.int cursor) (.int epoch) spec = .error .malformed := by
  by_cases hcursor : cursor < c.validators.length
  · rw [sweep_registry c ht epoch first hcursor]
    rcases c.run_cases t epoch (visits c.validators.length cursor
      (min c.validators.length t.sweepLimit)) t.payloadLimit first
      with hpaid | ⟨i, -, hle, hmissing⟩ | hnumbers
    · exact .inl hpaid
    · exact .inr (.inl ⟨i, .inr hle, hmissing⟩)
    · exact .inr (.inr hnumbers)
  · have hbehind : c.validators.length ≤ cursor := Nat.le_of_not_lt hcursor
    rcases sweep_of_behind c ht epoch first hbehind with hpaid | hmissing
    · exact .inl hpaid
    · exact .inr (.inl ⟨cursor, .inl hbehind, hmissing⟩)

/-- A sweep runs out of numbers exactly when fewer are left than it needs. -/
theorem sweep_eq_malformed_iff (c : Census) (ht : t.Of spec) (epoch : Int) {first : Nat}
    (hfirst : first ≤ Bytes.capacity 8) :
    c.registry.sweep (.int first) (.int cursor) (.int epoch) spec = .error .malformed ↔
      cursor < c.validators.length ∧
        Bytes.capacity 8 < first + c.numbersNeeded t epoch cursor := by
  by_cases hcursor : cursor < c.validators.length
  · rw [sweep_registry c ht epoch first hcursor, c.run_eq_malformed_iff t epoch _ _ first hfirst]
    exact (and_iff_right hcursor).symm
  · refine iff_of_false ?_ fun h => hcursor h.1
    rcases sweep_of_behind c ht epoch first (Nat.le_of_not_lt hcursor) with hpaid | hmissing
    · rw [hpaid]
      exact nofun
    · rw [hmissing]
      exact nofun

/-- What a sweep returns is what is due. -/
theorem eq_payload_of_sweep (c : Census) (ht : t.Of spec) (epoch : Int) {first : Nat}
    {ws : List Withdrawal}
    (h : c.registry.sweep (.int first) (.int cursor) (.int epoch) spec = .ok ws) :
    ws = c.payload t epoch first cursor := by
  rcases sweep_cases c ht epoch first cursor with hpaid | ⟨i, -, hmissing⟩ | hnumbers
  · exact Except.ok.inj (h.symm.trans hpaid)
  · exact nomatch h.symm.trans hmissing
  · exact nomatch h.symm.trans hnumbers

/-- With a balance for every validator and numbers for what is due, a sweep returns it. -/
theorem sweep_of_covered (c : Census) (ht : t.Of spec) (epoch : Int) {first : Nat}
    (hbalances : c.validators.length ≤ c.balances.length)
    (hcursor : cursor < c.validators.length)
    (hroom : first + (c.payload t epoch first cursor).length ≤ Bytes.capacity 8) :
    c.registry.sweep (.int first) (.int cursor) (.int epoch) spec
      = .ok (c.payload t epoch first cursor) := by
  refine sweep_of_not_lacks c ht epoch hcursor ?_ fun j _ hlacks => ?_
  · have hle := c.length_dues_covered_le t epoch (visits c.validators.length cursor
      (min c.validators.length t.sweepLimit))
    rw [Census.payload, length_numbered, List.length_take] at hroom
    omega
  · have hbelow := Nat.mod_lt (cursor + j) (Nat.zero_lt_of_lt hcursor)
    have hlack := hlacks.1
    omega

end

end BeaconHarness.Withdrawals
