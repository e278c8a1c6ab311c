import BeaconHarness.Proofs.Withdrawal.Limits
import BeaconHarness.Proofs.Withdrawal.Outcome

/-!
# Balances after a payload

Each withdrawal of a payload is taken off the balance of its validator. A payload pays no validator
twice and nobody more than there is, so that no balance falls below zero and all others stay as they
are. Who has been paid in full has nothing left, and who has been paid what exceeds the maximal
effective balance is left with just that: either way nothing more is due in the same epoch.

Main statement: a sweep over the balances after a payload pays nobody whom the payload has paid
(`sweep_pays_once`).
-/

namespace BeaconHarness.Withdrawals

open Consensus (Withdrawal)

/-! ## Taking withdrawals off -/

/-- Balances with the amounts of withdrawals taken off at their validators. -/
def debit (balances : List Int) (ws : List Withdrawal) : List Int :=
  ws.foldl (fun left w => left.modify w.validatorIndex (· - (w.amount : Int))) balances

theorem debit_cons (balances : List Int) (w : Withdrawal) (ws : List Withdrawal) :
    debit balances (w :: ws)
      = debit (balances.modify w.validatorIndex (· - (w.amount : Int))) ws := rfl

@[simp] theorem length_debit (balances : List Int) (ws : List Withdrawal) :
    (debit balances ws).length = balances.length := by
  induction ws generalizing balances with
  | nil => rfl
  | cons w ws ih => rw [debit_cons, ih, List.length_modify]

/-- Whom no withdrawal pays keeps the balance. -/
theorem getElem?_debit_of_other {ws : List Withdrawal} {i : Nat}
    (h : ∀ w ∈ ws, w.validatorIndex ≠ i) (balances : List Int) :
    (debit balances ws)[i]? = balances[i]? := by
  induction ws generalizing balances with
  | nil => rfl
  | cons w ws ih =>
    have hw := h w List.mem_cons_self
    rw [debit_cons, ih fun x hx => h x (List.mem_cons_of_mem w hx), List.getElem?_modify_ne _ _ hw]

/-- Whom one withdrawal pays has its amount less. -/
theorem getElem?_debit_of_mem {ws : List Withdrawal} {w : Withdrawal}
    (hnodup : (ws.map (·.validatorIndex)).Nodup) (hw : w ∈ ws) (balances : List Int) :
    (debit balances ws)[w.validatorIndex]?
      = balances[w.validatorIndex]?.map (· - (w.amount : Int)) := by
  induction ws generalizing balances with
  | nil => exact absurd hw List.not_mem_nil
  | cons first ws ih =>
    rw [List.map_cons, List.nodup_cons] at hnodup
    have hfresh : ∀ x ∈ ws, x.validatorIndex ≠ first.validatorIndex := by
      intro x hx heq
      exact hnodup.1 (List.mem_map.mpr ⟨x, hx, heq⟩)
    rw [debit_cons]
    rcases List.mem_cons.mp hw with rfl | hrest
    · -- No later withdrawal pays the validator of the first one again.
      rw [getElem?_debit_of_other hfresh, List.getElem?_modify_eq]
      rfl
    · rw [ih hnodup.2 hrest, List.getElem?_modify_ne _ _ (hfresh w hrest).symm]

/-! ## Payments that were due -/

/-- The balances, from which more could be taken off than there is. -/
def Census.funds (c : Census) : List Int := c.balances.map fun (b : Nat) => (b : Int)

theorem Census.getElem?_funds (c : Census) (i : Nat) :
    c.funds[i]? = c.balances[i]?.map fun (b : Nat) => (b : Int) := List.getElem?_map

/-- Whether withdrawals make payments that were due, each to another validator. -/
structure Census.Pays (c : Census) (t : Terms) (epoch : Int) (ws : List Withdrawal) : Prop where
  nodup : (ws.map (·.validatorIndex)).Nodup
  due : ∀ w ∈ ws, ∃ d, c.due? t epoch w.validatorIndex = some d ∧ d.amount = w.amount

theorem Census.pays_payload (c : Census) (t : Terms) (epoch : Int) (first cursor : Nat) :
    c.Pays t epoch (c.payload t epoch first cursor) := by
  refine ⟨c.nodup_payload t epoch first cursor, fun w hw => ?_⟩
  obtain ⟨d, hd, k, rfl⟩ := mem_numbered hw
  obtain ⟨i, -, hi⟩ := List.mem_filterMap.mp (List.mem_of_mem_take hd)
  obtain ⟨rfl, -⟩ := c.due?_bounds hi
  exact ⟨d, hi, rfl⟩

theorem withdrawalOf_of_neg {index : Int} (h : index < 0) (position : Int) (address : Bytes)
    (amount : Datum) : withdrawalOf index position address amount = .error .malformed := by
  have hword : Consensus.word index = .error .malformed := by
    have hnot : ¬ 0 ≤ index := by omega
    simp [Consensus.word, hnot]
  unfold withdrawalOf
  split
  · rw [Consensus.Withdrawal.make, hword]
    rfl
  · rw [Consensus.Withdrawal.make, hword]
    rfl
  · rfl

/-- Numbers below zero are good for no withdrawal. -/
theorem sweepFrom_of_neg {r : Registry} {epoch : Datum} {spec : Spec} {room steps : Nat}
    {position index : Int} {taken ws : List Withdrawal} (hindex : index < 0)
    (h : r.sweepFrom epoch spec room steps position index taken = .ok ws) : ws = taken.reverse := by
  induction steps generalizing position with
  | zero => exact (Except.ok.inj h).symm
  | succ steps ih =>
    rcases sweepFrom_succ_cases h with
      ⟨-, rfl⟩ | ⟨-, -, -, hnext⟩ | ⟨-, -, _, _, _, -, hmade, -⟩
    · rfl
    · exact ih hnext
    · rw [withdrawalOf_of_neg hindex] at hmade
      cases hmade

/-- Whatever number a sweep starts from, what it pays out was due. -/
theorem pays_of_sweep (c : Census) {t : Terms} {spec : Spec} (ht : t.Of spec) {epoch first : Int}
    {cursor : Nat} (hcursor : cursor < c.validators.length) {ws : List Withdrawal}
    (h : c.registry.sweep (.int first) (.int cursor) (.int epoch) spec = .ok ws) :
    c.Pays t epoch ws := by
  -- From a number below zero a sweep succeeds only if it takes nothing.
  by_cases hfirst : 0 ≤ first
  · obtain ⟨n, rfl⟩ := Int.eq_ofNat_of_zero_le hfirst
    rw [eq_payload_of_sweep c ht epoch h]
    exact c.pays_payload t epoch n cursor
  · have hne : c.registry.validators.isEmpty = false :=
      List.isEmpty_eq_false_iff.mpr (List.length_pos_iff.mp (Nat.zero_lt_of_lt hcursor))
    rw [← ht.withLimits_eq, sweep_withLimits, hne] at h
    obtain rfl := sweepFrom_of_neg (Int.lt_of_not_ge hfirst) h
    exact ⟨List.nodup_nil, nofun⟩

/-- After a payment nothing more is due: the balance is used up or down to the maximal effective
balance. -/
theorem Terms.amount?_after {t : Terms} {epoch : Int} {v : Consensus.Validator}
    {balance amount : Nat} (h : t.amount? epoch v balance = some amount) :
    t.amount? epoch v (balance - amount) = none := by
  unfold Terms.amount? at h ⊢
  split at h
  · rename_i haccepts
    rw [if_pos haccepts]
    split at h
    · -- Paid in full: there is no balance left, and an excess needs one.
      rename_i hfull
      obtain rfl : balance = amount := by simpa using h
      have hnothing : ¬ ((v.withdrawableEpoch : Int) ≤ epoch ∧ 0 < balance - balance) := by omega
      have hnoexcess : ¬ ((v.effectiveBalance : Int) = t.maxEffectiveBalance ∧
          t.maxEffectiveBalance < ((balance - balance : Nat) : Int)) := by omega
      rw [if_neg hnothing, if_neg hnoexcess]
    · rename_i hnotFull
      split at h
      · -- Paid the excess: no full payment was due, and none is due from what is left.
        rename_i hpartial
        obtain rfl : (balance - t.maxEffectiveBalance).toNat = amount := by simpa using h
        have hearly : ¬ ((v.withdrawableEpoch : Int) ≤ epoch ∧
            0 < balance - (balance - t.maxEffectiveBalance).toNat) := by omega
        have hnoexcess : ¬ ((v.effectiveBalance : Int) = t.maxEffectiveBalance ∧
            t.maxEffectiveBalance <
              ((balance - (balance - t.maxEffectiveBalance).toNat : Nat) : Int)) := by omega
        rw [if_neg hearly, if_neg hnoexcess]
      · cases h
  · cases h

namespace Census.Pays

variable {c : Census} {t : Terms} {epoch : Int} {ws : List Withdrawal}

/-- What is left of a balance is at least zero and at most the balance. -/
theorem debit_bounds (h : c.Pays t epoch ws) {i : Nat} {x : Int}
    (hx : (debit c.funds ws)[i]? = some x) :
    0 ≤ x ∧ ∃ b, c.balances[i]? = some b ∧ x ≤ b := by
  by_cases hpaid : ∃ w ∈ ws, w.validatorIndex = i
  · obtain ⟨w, hw, rfl⟩ := hpaid
    obtain ⟨d, hd, hamount⟩ := h.due w hw
    obtain ⟨-, -, -, b, hb, -, hle⟩ := c.due?_bounds hd
    rw [getElem?_debit_of_mem h.nodup hw, c.getElem?_funds, hb] at hx
    have hleft : (b : Int) - w.amount = x := Option.some.inj hx
    exact ⟨by omega, b, hb, by omega⟩
  · have hother : ∀ w ∈ ws, w.validatorIndex ≠ i := fun w hw heq => hpaid ⟨w, hw, heq⟩
    rw [getElem?_debit_of_other hother, c.getElem?_funds] at hx
    obtain ⟨b, hb, rfl⟩ := Option.map_eq_some_iff.mp hx
    exact ⟨by omega, b, hb, by omega⟩

theorem nonneg_of_mem_debit (h : c.Pays t epoch ws) {x : Int}
    (hx : x ∈ debit c.funds ws) : 0 ≤ x := by
  obtain ⟨i, hi⟩ := List.mem_iff_getElem?.mp hx
  exact (h.debit_bounds hi).1

/-- Validators with what is left to them. -/
def after (h : c.Pays t epoch ws) : Census :=
  { c with
    balances := (debit c.funds ws).map Int.toNat
    balances_lt := by
      intro b hb
      obtain ⟨x, hx, rfl⟩ := List.mem_map.mp hb
      obtain ⟨i, hi⟩ := List.mem_iff_getElem?.mp hx
      obtain ⟨-, a, ha, hle⟩ := h.debit_bounds hi
      have := c.balances_lt a (List.mem_of_getElem? ha)
      omega }

theorem length_balances_after (h : c.Pays t epoch ws) :
    h.after.balances.length = c.balances.length := by
  show ((debit c.funds ws).map Int.toNat).length = _
  rw [List.length_map, length_debit, funds, List.length_map]

theorem registry_after (h : c.Pays t epoch ws) :
    h.after.registry
      = { c.registry with balances := (debit c.funds ws).map .int } := by
  have hbalances : (h.after.balances.map fun (b : Nat) => Datum.int b)
      = (debit c.funds ws).map .int := by
    show ((debit c.funds ws).map Int.toNat).map _ = _
    rw [List.map_map]
    refine List.map_congr_left fun x hx => ?_
    rw [Function.comp_apply, Int.toNat_of_nonneg (h.nonneg_of_mem_debit hx)]
  unfold registry
  rw [hbalances]
  rfl

/-- Who has been paid is due nothing more. -/
theorem due?_after (h : c.Pays t epoch ws) {w : Withdrawal} (hw : w ∈ ws) :
    h.after.due? t epoch w.validatorIndex = none := by
  obtain ⟨d, hd, hamount⟩ := h.due w hw
  unfold Census.due? at hd ⊢
  simp only [Option.bind_eq_bind, Option.bind_eq_some_iff] at hd
  obtain ⟨v, hv, b, hb, amount, hdue, hpaid⟩ := hd
  obtain rfl := Option.some.inj hpaid
  have hle := (Terms.amount?_bounds hdue).2
  have hleft : h.after.balances[w.validatorIndex]? = some (b - amount) := by
    show ((debit c.funds ws).map Int.toNat)[w.validatorIndex]? = _
    rw [List.getElem?_map, getElem?_debit_of_mem h.nodup hw, c.getElem?_funds, hb]
    simp [← hamount]
  have hsame : h.after.validators[w.validatorIndex]? = some v := hv
  simp [hsame, hleft, Terms.amount?_after hdue]

/-- A sweep after a payload pays nobody whom the payload has paid. -/
theorem not_mem_payload_after (h : c.Pays t epoch ws) {first cursor : Nat} {w w' : Withdrawal}
    (hw : w ∈ ws) (hw' : w' ∈ h.after.payload t epoch first cursor) :
    w'.validatorIndex ≠ w.validatorIndex := by
  intro heq
  obtain ⟨d, hd, -⟩ := (h.after.pays_payload t epoch first cursor).due w' hw'
  rw [heq, h.due?_after hw] at hd
  cases hd

end Census.Pays

/-! ## Sweeping again -/

/-- Take off what a sweep has paid out: no balance falls below zero, and who has not been paid keeps
the balance. A second sweep of the same epoch over what is left, from anywhere in the registry, pays
nobody whom the first one has paid, and it pays out if the numbers from its first one on suffice. -/
theorem sweep_pays_once (c : Census) {t : Terms} {spec : Spec} (ht : t.Of spec)
    {epoch first : Int} {cursor : Nat} (hbalances : c.validators.length ≤ c.balances.length)
    (hcursor : cursor < c.validators.length) {ws : List Withdrawal}
    (h : c.registry.sweep (.int first) (.int cursor) (.int epoch) spec = .ok ws) :
    let left := debit c.funds ws
    let after : Registry := { c.registry with balances := left.map .int }
    left.length = c.funds.length ∧ (∀ x ∈ left, 0 ≤ x) ∧
    (∀ i, (∀ w ∈ ws, w.validatorIndex ≠ i) → left[i]? = c.funds[i]?) ∧
    ∀ first' cursor' : Nat, cursor' < c.validators.length →
      ∃ ws', (∀ w ∈ ws, ∀ w' ∈ ws', w'.validatorIndex ≠ w.validatorIndex) ∧
        (first' + ws'.length ≤ Bytes.capacity 8 →
          after.sweep (.int first') (.int cursor') (.int epoch) spec = .ok ws') ∧
        ∀ paid, after.sweep (.int first') (.int cursor') (.int epoch) spec = .ok paid →
          paid = ws' := by
  intro left after
  have hpays : c.Pays t epoch ws := pays_of_sweep c ht hcursor h
  have hafter : hpays.after.registry = after := hpays.registry_after
  refine ⟨length_debit _ ws, fun x => hpays.nonneg_of_mem_debit, fun i hi =>
    getElem?_debit_of_other hi c.funds, fun first' cursor' hcursor' => ?_⟩
  refine ⟨hpays.after.payload t epoch first' cursor',
    fun w hw w' hw' => hpays.not_mem_payload_after hw hw', fun hroom => ?_, fun paid hpaid => ?_⟩
  · rw [← hafter]
    refine sweep_of_covered hpays.after ht epoch ?_ hcursor' hroom
    rwa [hpays.length_balances_after]
  · rw [← hafter] at hpaid
    exact eq_payload_of_sweep hpays.after ht epoch hpaid

/-- Of `threeValidators` the last is paid in full and the first what it has to spare. Neither is paid
again by a sweep that starts at the first one. -/
theorem sweep_pays_once_threeValidators :
    let spec := Spec.ofPreset .minimal
    let ws : List Withdrawal := [⟨7, 2, Bytes.zeros 20, 7⟩, ⟨8, 0, Bytes.zeros 20, 1000000000⟩]
    let left : List Int := [32000000000, 40000000000, 0]
    threeValidators.registry.sweep (.int 7) (.int 2) (.int 10) spec = .ok ws ∧
    debit threeValidators.funds ws = left ∧ (∀ x ∈ left, 0 ≤ x) ∧
    ∃ ws', (∀ w ∈ ws, ∀ w' ∈ ws', w'.validatorIndex ≠ w.validatorIndex) ∧
      (9 + ws'.length ≤ Bytes.capacity 8 →
        { threeValidators.registry with balances := left.map .int }.sweep (.int 9) (.int 0)
          (.int 10) spec = .ok ws') := by
  intro spec ws left
  have hsweep : threeValidators.registry.sweep (.int 7) (.int 2) (.int 10) spec = .ok ws :=
    (sweep_registry threeValidators (Terms.of_ofPreset .minimal) 10 7 (by decide)).trans rfl
  obtain ⟨-, hnonneg, -, hagain⟩ := sweep_pays_once threeValidators (Terms.of_ofPreset .minimal)
    (by decide) (by decide) hsweep
  obtain ⟨ws', hothers, hruns, -⟩ := hagain 9 0 (by decide)
  exact ⟨hsweep, rfl, hnonneg, ws', hothers, hruns⟩

end BeaconHarness.Withdrawals
