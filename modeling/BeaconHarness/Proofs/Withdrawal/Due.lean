import BeaconHarness.Withdrawal.Sweep

/-!
# What is due

What a sweep pays out, said of plain numbers: the parameters that it looks at are integers, and
registry and balances hold what their layouts hold. What is due at a position then depends on the
validator and the balance there alone, and the reading of unchecked data never gets in the way.

Main statement: looking at a position that registry and balances have finds what is due there and
never fails (`dueAt_registry`).
-/

namespace BeaconHarness.Withdrawals

open Consensus (Validator Withdrawal)

/-! ## Parameters -/

/-- The integers that a sweep takes from the parameters of a network. -/
structure Terms where
  /-- The first byte of credentials that name an execution address. -/
  credential : Int
  maxEffectiveBalance : Int
  /-- The most positions that a sweep visits. -/
  sweepLimit : Nat
  /-- The most withdrawals that a payload carries. -/
  payloadLimit : Nat

/-- Whether the parameters of a network are these integers. -/
structure Terms.Of (t : Terms) (spec : Spec) : Prop where
  credential : spec.eth1AddressWithdrawalPrefix = .int t.credential
  maxEffectiveBalance : spec.maxEffectiveBalance = .int t.maxEffectiveBalance
  sweepLimit : spec.maxValidatorsPerWithdrawalsSweep = .int t.sweepLimit
  payloadLimit : spec.maxWithdrawalsPerPayload = .int t.payloadLimit

/-- The integers that a preset starts from. -/
def Terms.ofPreset (p : Preset) : Terms where
  credential := Preset.eth1AddressWithdrawalPrefix
  maxEffectiveBalance := Preset.maxEffectiveBalance
  sweepLimit := p.maxValidatorsPerWithdrawalsSweep
  payloadLimit := p.maxWithdrawalsPerPayload

theorem Terms.of_ofPreset (p : Preset) : (Terms.ofPreset p).Of (Spec.ofPreset p) :=
  ⟨rfl, rfl, rfl, rfl⟩

/-- Whether the credentials of a validator name an execution address. -/
def Terms.accepts (t : Terms) (v : Validator) : Bool :=
  v.withdrawalCredentials.head?.any fun b => (b.toNat : Int) = t.credential

/-- The amount that is due to a validator with a balance, if any: the whole balance from the
withdrawable epoch on, and otherwise what exceeds the maximal effective balance. -/
def Terms.amount? (t : Terms) (epoch : Int) (v : Validator) (balance : Nat) : Option Nat :=
  if t.accepts v then
    if v.withdrawableEpoch ≤ epoch ∧ 0 < balance then some balance
    else if v.effectiveBalance = t.maxEffectiveBalance ∧ t.maxEffectiveBalance < balance then
      some (balance - t.maxEffectiveBalance).toNat
    else none
  else none

theorem hasCredential_eq_accepts {t : Terms} {spec : Spec} (ht : t.Of spec) (v : Validator) :
    hasCredential v spec.eth1AddressWithdrawalPrefix = t.accepts v := by
  unfold hasCredential Terms.accepts
  rw [ht.credential]
  cases v.withdrawalCredentials <;> simp

theorem isFull_eq {t : Terms} {spec : Spec} (ht : t.Of spec) (v : Validator) (balance : Nat)
    (epoch : Int) :
    isFull v (.int balance) (.int epoch) spec =
      .ok (t.accepts v && decide (v.withdrawableEpoch ≤ epoch ∧ 0 < balance)) := by
  unfold isFull
  rw [hasCredential_eq_accepts ht]
  cases t.accepts v
  · rfl
  · by_cases h : (v.withdrawableEpoch : Int) ≤ epoch <;>
      simp [h, bind, Except.bind, pure, Except.pure]

theorem isPartial_eq {t : Terms} {spec : Spec} (ht : t.Of spec) (v : Validator) (balance : Nat) :
    isPartial v (.int balance) spec =
      .ok (t.accepts v &&
        decide (v.effectiveBalance = t.maxEffectiveBalance ∧ t.maxEffectiveBalance < balance)) := by
  unfold isPartial
  rw [hasCredential_eq_accepts ht, ht.maxEffectiveBalance]
  simp [bind, Except.bind, pure, Except.pure, Bool.and_assoc]

/-- What the eligibility rules find due is the amount in plain numbers. -/
theorem due?_eq {t : Terms} {spec : Spec} (ht : t.Of spec) (v : Validator) (balance : Nat)
    (epoch : Int) :
    due? v balance (.int epoch) spec =
      .ok ((t.amount? epoch v balance).map fun amount => .int amount) := by
  unfold due? Terms.amount?
  rw [isFull_eq ht, isPartial_eq ht, ht.maxEffectiveBalance]
  cases t.accepts v
  · simp [bind, Except.bind, pure, Except.pure]
  · by_cases hfull : (v.withdrawableEpoch : Int) ≤ epoch ∧ 0 < balance
    · simp [hfull, bind, Except.bind, pure, Except.pure]
    · by_cases hpartial : (v.effectiveBalance : Int) = t.maxEffectiveBalance ∧
          t.maxEffectiveBalance < balance
      · have hcast : (((balance : Int) - t.maxEffectiveBalance).toNat : Int) =
            balance - t.maxEffectiveBalance := by omega
        simp [hfull, hpartial, hcast, bind, Except.bind, pure, Except.pure]
      · simp [hfull, hpartial, bind, Except.bind, pure, Except.pure]

/-- An amount that is due is positive and never more than the balance. -/
theorem Terms.amount?_bounds {t : Terms} {epoch : Int} {v : Validator} {balance amount : Nat}
    (h : t.amount? epoch v balance = some amount) : 1 ≤ amount ∧ amount ≤ balance := by
  unfold Terms.amount? at h
  split at h
  · split at h
    · rename_i hfull
      obtain rfl : balance = amount := by simpa using h
      omega
    · split at h
      · rename_i hpartial
        obtain rfl : (balance - t.maxEffectiveBalance).toNat = amount := by simpa using h
        -- The maximal effective balance is the one of a validator, so it is no negative number.
        omega
      · cases h
  · cases h

/-! ## Registry and balances -/

/-- Validators and balances that fit their layouts. No list has more items than there are words for
its positions. -/
structure Census where
  validators : List Validator
  balances : List Nat
  /-- What a negative position means in the lists that they come from. -/
  negative : Negative := .refused
  admits_validators : ∀ v ∈ validators, Consensus.validator.admits v.toValue = true
  balances_lt : ∀ b ∈ balances, b < Bytes.capacity 8
  length_le : validators.length ≤ Bytes.capacity 8

/-- Validators and balances as a sweep goes over them. -/
def Census.registry (c : Census) : Registry where
  validators := c.validators
  balances := c.balances.map fun (b : Nat) => .int b
  negative := c.negative

/-- A payment that is due: the position of the validator, the address and the amount. -/
structure Due where
  position : Nat
  address : Bytes
  amount : Nat
  deriving DecidableEq, Repr

/-- The withdrawal that makes a payment under a number. -/
def Due.withdrawal (d : Due) (index : Nat) : Withdrawal where
  index := index
  validatorIndex := d.position
  address := d.address
  amount := d.amount

/-- What is due at a position. The address is in the last twenty bytes of the credentials. -/
def Census.due? (c : Census) (t : Terms) (epoch : Int) (position : Nat) : Option Due := do
  let v ← c.validators[position]?
  let balance ← c.balances[position]?
  let amount ← t.amount? epoch v balance
  return ⟨position, v.withdrawalCredentials.drop (v.withdrawalCredentials.length - 20), amount⟩

/-- What is due at some positions, in their order. -/
def Census.dues (c : Census) (t : Terms) (epoch : Int) (positions : List Nat) : List Due :=
  positions.filterMap (c.due? t epoch)

theorem Census.length_credentials (c : Census) {v : Validator} (hv : v ∈ c.validators) :
    v.withdrawalCredentials.length = 32 := by
  have h := c.admits_validators v hv
  simp only [Consensus.validator, Consensus.Validator.toValue, Ssz.Schema.admits,
    Ssz.Schema.admitsFields, Consensus.bytes32, Bool.and_eq_true, decide_eq_true_eq] at h
  exact h.2.1

/-- A payment names a position of registry and balances, has a whole address, and is neither empty
nor more than the balance. -/
theorem Census.due?_bounds (c : Census) {t : Terms} {epoch : Int} {position : Nat} {d : Due}
    (h : c.due? t epoch position = some d) :
    d.position = position ∧ position < c.validators.length ∧ d.address.length = 20 ∧
      ∃ b, c.balances[position]? = some b ∧ 1 ≤ d.amount ∧ d.amount ≤ b := by
  unfold Census.due? at h
  simp only [Option.bind_eq_bind, Option.bind_eq_some_iff] at h
  obtain ⟨v, hv, b, hb, amount, hamount, hd⟩ := h
  obtain rfl := Option.some.inj hd
  have hlen := c.length_credentials (List.mem_of_getElem? hv)
  have hbounds := Terms.amount?_bounds hamount
  obtain ⟨hposition, -⟩ := List.getElem?_eq_some_iff.mp hv
  refine ⟨rfl, hposition, ?_, b, hb, hbounds⟩
  simp [hlen]

/-! ## Looking at a position -/

theorem itemAt_of_lt {α : Type} (negative : Negative) (items : List α) {position : Nat} {x : α}
    (h : items[position]? = some x) : itemAt negative items position = .ok x := by
  unfold itemAt
  have hnonneg : (0 : Int) ≤ position := Int.natCast_nonneg position
  simp [h]

/-- The sweep finds at a position what is due there. -/
theorem dueAt_registry (c : Census) {t : Terms} {spec : Spec} (ht : t.Of spec) (epoch : Int)
    {position : Nat} (hvalidators : position < c.validators.length)
    (hbalances : position < c.balances.length) :
    c.registry.dueAt position (.int epoch) spec =
      .ok ((c.due? t epoch position).map fun d => (d.address, .int d.amount)) := by
  have hv : c.validators[position]? = some c.validators[position] := List.getElem?_eq_getElem _
  have hb : c.balances[position]? = some c.balances[position] := List.getElem?_eq_getElem _
  have hdatum : (c.balances.map fun (b : Nat) => Datum.int b)[position]? =
      some (.int c.balances[position]) := by simp [hb]
  have hlen := c.length_credentials (List.mem_of_getElem? hv)
  unfold Registry.dueAt Census.due?
  simp only [Census.registry, itemAt_of_lt c.negative c.validators hv,
    itemAt_of_lt c.negative _ hdatum, Datum.plainInteger, due?_eq ht, bind, Except.bind, pure,
    Except.pure, hv, hb, Option.bind_some, address, hlen]
  cases t.amount? epoch c.validators[position] c.balances[position] <;> rfl

/-- A payment becomes a withdrawal if its number fits, and is refused otherwise. -/
theorem withdrawalOf_due (c : Census) {t : Terms} {epoch : Int} {position : Nat} {d : Due}
    (hd : c.due? t epoch position = some d) (index : Nat) :
    withdrawalOf index position d.address (.int d.amount) =
      if index < Bytes.capacity 8 then .ok (d.withdrawal index) else .error .malformed := by
  obtain ⟨hposition, hlt, haddress, b, hb, -, hle⟩ := c.due?_bounds hd
  have hword : position < Bytes.capacity 8 := Nat.lt_of_lt_of_le hlt c.length_le
  have hamount : d.amount < Bytes.capacity 8 :=
    Nat.lt_of_le_of_lt hle (c.balances_lt b (List.mem_of_getElem? hb))
  unfold withdrawalOf
  by_cases hindex : index < Bytes.capacity 8
  · simp [Consensus.Withdrawal.make, Consensus.word_natCast hindex, Consensus.word_natCast hword,
      Consensus.word_natCast hamount, Consensus.exactly, haddress, hindex, bind, Except.bind, pure,
      Except.pure, Due.withdrawal, hposition]
  · have hrefused := Consensus.word_natCast_of_le (Nat.le_of_not_lt hindex)
    simp [Consensus.Withdrawal.make, hrefused, hindex, bind, Except.bind]

end BeaconHarness.Withdrawals
