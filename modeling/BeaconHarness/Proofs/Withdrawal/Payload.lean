import BeaconHarness.Proofs.Withdrawal.Sweep
import Mathlib.Data.Nat.Find

/-!
# The payload of a sweep

A sweep pays out what is due at the positions that it visits, cut at the payload limit and numbered
from the first number on. It looks at no position once the payload is full, and that is why it may
do with fewer balances than there are validators.

Main statements: with a balance for every validator the payload is paid out
(`sweep_eq_payload`), and with any number of balances the sweep fails exactly when it gets to a
position without one before the payload is full (`sweep_fails_iff_lacks`).
-/

namespace BeaconHarness.Withdrawals

open Consensus (Withdrawal)

/-! ## How a walk ends -/

/-- The positions in front of the first one that has no balance. -/
def Census.covered (c : Census) (positions : List Nat) : List Nat :=
  positions.takeWhile fun i => i < c.balances.length

/-- A walk that is full by the time it gets to a position without a balance pays out. -/
theorem Census.run_eq_numbered (c : Census) (t : Terms) (epoch : Int) (positions : List Nat) :
    ∀ (room index : Nat),
      (∀ before i after, positions = before ++ i :: after → c.balances.length ≤ i →
        room ≤ (c.dues t epoch before).length) →
      index + min room (c.dues t epoch (c.covered positions)).length ≤ Bytes.capacity 8 →
      c.run t epoch positions room index =
        .ok (numbered index ((c.dues t epoch positions).take room)) := by
  induction positions with
  | nil =>
    intro room index _ _
    simp [Census.run, Census.dues, numbered]
  | cons i rest ih =>
    intro room index hfull hindex
    cases room with
    | zero => simp [Census.run, numbered]
    | succ room =>
      -- There is room and nothing before `i`, so `i` itself has a balance.
      have hbalance : i < c.balances.length := by
        apply Nat.lt_of_not_le
        intro hle
        have := hfull [] i rest rfl hle
        simp [Census.dues] at this
      have hcovered : c.covered (i :: rest) = i :: c.covered rest := by
        simp [Census.covered, hbalance]
      rw [Census.run, if_neg (by omega)]
      cases hd : c.due? t epoch i with
      | none =>
        have hdues : ∀ l, c.dues t epoch (i :: l) = c.dues t epoch l := fun l =>
          List.filterMap_cons_none hd
        rw [hcovered, hdues] at hindex
        rw [hdues]
        apply ih (room + 1) index _ hindex
        intro before k after hrest hk
        have := hfull (i :: before) k after (by rw [hrest, List.cons_append]) hk
        rwa [hdues] at this
      | some d =>
        have hdues : ∀ l, c.dues t epoch (i :: l) = d :: c.dues t epoch l := fun l =>
          List.filterMap_cons_some hd
        rw [hcovered, hdues, List.length_cons] at hindex
        have htail := ih room (index + 1) (by
          intro before k after hrest hk
          have := hfull (i :: before) k after (by rw [hrest, List.cons_append]) hk
          rw [hdues, List.length_cons] at this
          omega) (by omega)
        have hword : index < Bytes.capacity 8 := by omega
        rw [hdues]
        simp [htail, hword, Except.map, numbered]

/-- A walk that gets to a position without a balance while there is room ends there. -/
theorem Census.run_eq_missing (c : Census) (t : Terms) (epoch : Int) {i : Nat} {after : List Nat}
    (hi : c.balances.length ≤ i) (before : List Nat) :
    ∀ (room index : Nat), (∀ k ∈ before, k < c.balances.length) →
      (c.dues t epoch before).length < room →
      index + (c.dues t epoch before).length ≤ Bytes.capacity 8 →
      c.run t epoch (before ++ i :: after) room index = .error (c.registry.missing i) := by
  induction before with
  | nil =>
    intro room index _ hroom _
    obtain ⟨left, rfl⟩ : ∃ left, room = left + 1 := ⟨room - 1, by omega⟩
    rw [List.nil_append, Census.run, if_pos hi]
  | cons k before ih =>
    intro room index hcovered hroom hindex
    have hk : k < c.balances.length := hcovered k List.mem_cons_self
    have hbefore : ∀ k ∈ before, k < c.balances.length := fun k hk =>
      hcovered k (List.mem_cons_of_mem _ hk)
    obtain ⟨left, rfl⟩ : ∃ left, room = left + 1 := ⟨room - 1, by omega⟩
    rw [List.cons_append, Census.run, if_neg (by omega)]
    cases hd : c.due? t epoch k with
    | none =>
      have hdues : c.dues t epoch (k :: before) = c.dues t epoch before :=
        List.filterMap_cons_none hd
      rw [hdues] at hroom hindex
      exact ih (left + 1) index hbefore hroom hindex
    | some d =>
      have hdues : c.dues t epoch (k :: before) = d :: c.dues t epoch before :=
        List.filterMap_cons_some hd
      rw [hdues, List.length_cons] at hroom hindex
      have htail := ih left (index + 1) hbefore (by omega) (by omega)
      have hword : index < Bytes.capacity 8 := by omega
      simp [htail, hword, Except.map]

/-! ## A balance for every validator -/

/-- The withdrawals that a sweep from a cursor has to pay out, numbered from `first` on. -/
def Census.payload (c : Census) (t : Terms) (epoch : Int) (first cursor : Nat) : List Withdrawal :=
  numbered first ((c.dues t epoch
    (visits c.validators.length cursor (min c.validators.length t.sweepLimit))).take
      t.payloadLimit)

theorem Census.map_position_dues (c : Census) (t : Terms) (epoch : Int) (positions : List Nat) :
    ((c.dues t epoch positions).map (·.position)).Sublist positions := by
  induction positions with
  | nil => exact List.Sublist.slnil
  | cons i rest ih =>
    cases hd : c.due? t epoch i with
    | none =>
      rw [Census.dues, List.filterMap_cons_none hd]
      exact ih.cons i
    | some d =>
      rw [Census.dues, List.filterMap_cons_some hd, List.map_cons, (c.due?_bounds hd).1]
      exact ih.cons_cons i

/-- A payload pays no validator twice. -/
theorem Census.nodup_payload (c : Census) (t : Terms) (epoch : Int) (first cursor : Nat) :
    ((c.payload t epoch first cursor).map (·.validatorIndex)).Nodup := by
  unfold Census.payload
  rw [map_validatorIndex_numbered, List.map_take]
  have hvisits : (visits c.validators.length cursor
      (min c.validators.length t.sweepLimit)).Nodup := nodup_visits (Nat.min_le_left _ _)
  exact ((List.take_sublist _ _).trans (c.map_position_dues t epoch _)).nodup hvisits

theorem mem_numbered {first : Nat} {dues : List Due} {w : Withdrawal}
    (h : w ∈ numbered first dues) : ∃ d ∈ dues, ∃ k, w = d.withdrawal k := by
  unfold numbered at h
  obtain ⟨p, hp, rfl⟩ := List.mem_map.mp h
  exact ⟨p.1, List.fst_mem_of_mem_zipIdx hp, p.2, rfl⟩

/-- Every withdrawal of a payload pays at least one and at most the validator's balance. -/
theorem Census.amount_payload (c : Census) {t : Terms} {epoch : Int} {first cursor : Nat}
    {w : Withdrawal} (h : w ∈ c.payload t epoch first cursor) :
    ∃ b, c.balances[w.validatorIndex]? = some b ∧ 1 ≤ w.amount ∧ w.amount ≤ b := by
  obtain ⟨d, hd, k, rfl⟩ := mem_numbered h
  obtain ⟨i, -, hi⟩ := List.mem_filterMap.mp (List.mem_of_mem_take hd)
  obtain ⟨hposition, -, -, hamount⟩ := c.due?_bounds hi
  show ∃ b, c.balances[d.position]? = some b ∧ 1 ≤ d.amount ∧ d.amount ≤ b
  rw [hposition]
  exact hamount

theorem Census.length_payload_le (c : Census) (t : Terms) (epoch : Int) (first cursor : Nat) :
    (c.payload t epoch first cursor).length ≤ t.payloadLimit := by
  unfold Census.payload
  rw [length_numbered]
  exact List.length_take_le _ _

/-- A validator that has a first byte of credentials, an effective balance and a withdrawable
epoch, and zeros elsewhere. -/
def simpleValidator (first : UInt8) (effectiveBalance withdrawableEpoch : Nat) :
    Consensus.Validator where
  pubkey := Bytes.zeros 48
  withdrawalCredentials := first :: Bytes.zeros 31
  effectiveBalance := effectiveBalance
  slashed := false
  activationEligibilityEpoch := 0
  activationEpoch := 0
  exitEpoch := 0
  withdrawableEpoch := withdrawableEpoch

/-- One validator with a balance to spare, one without an address, and one past its withdrawable
epoch. -/
def threeValidators : Census where
  validators := [simpleValidator 1 32000000000 Preset.farFutureEpoch,
    simpleValidator 0 32000000000 Preset.farFutureEpoch, simpleValidator 1 32000000000 5]
  balances := [33000000000, 40000000000, 7]
  admits_validators := by decide
  balances_lt := by decide
  length_le := by decide

/-- Whether the position that a sweep visits after `steps` others has no balance while the payload
still has room. -/
def Census.lacks (c : Census) (t : Terms) (epoch : Int) (cursor steps : Nat) : Prop :=
  c.balances.length ≤ (cursor + steps) % c.validators.length ∧
    (c.dues t epoch (visits c.validators.length cursor steps)).length < t.payloadLimit

instance (c : Census) (t : Terms) (epoch : Int) (cursor steps : Nat) :
    Decidable (c.lacks t epoch cursor steps) :=
  inferInstanceAs (Decidable (_ ∧ _))

/-- More is due at more positions. -/
theorem Census.length_dues_mono (c : Census) (t : Terms) (epoch : Int) (count cursor : Nat)
    {k j : Nat} (h : k < j) : (c.dues t epoch (visits count cursor k)).length ≤
      (c.dues t epoch (visits count cursor j)).length := by
  obtain ⟨after, hsplit⟩ := exists_visits_append count cursor h
  rw [hsplit, Census.dues, Census.dues, List.filterMap_append, List.length_append]
  omega

/-- A cursor behind the registry is refused before anything is looked at. -/
theorem sweep_of_length_le (c : Census) {t : Terms} {spec : Spec} (ht : t.Of spec) (epoch : Int)
    {first cursor : Nat} (hne : c.validators ≠ []) (hsweep : 1 ≤ t.sweepLimit)
    (hpayload : 1 ≤ t.payloadLimit) (hcursor : c.validators.length ≤ cursor) :
    c.registry.sweep (.int first) (.int cursor) (.int epoch) spec =
      .error (c.registry.missing cursor) := by
  have hpos : 0 < c.validators.length := List.length_pos_iff.mpr hne
  obtain ⟨steps, hsteps⟩ : ∃ steps, min c.validators.length t.sweepLimit = steps + 1 :=
    ⟨min c.validators.length t.sweepLimit - 1, by omega⟩
  have hreaches : c.registry.reaches cursor = false := by
    have hnot : ¬ cursor < c.validators.length := by omega
    simp [Registry.reaches, Census.registry, hnot]
  rw [sweep_eq_sweepFrom c ht epoch first cursor hne, hsteps, Registry.sweepFrom,
    if_neg (by rw [List.length_nil]; omega), hreaches]
  rfl

/-- The first position without a balance that is reached with room left ends the sweep. -/
theorem sweep_of_lacks (c : Census) {t : Terms} {spec : Spec} (ht : t.Of spec) (epoch : Int)
    {first cursor j : Nat} (hcursor : cursor < c.validators.length)
    (hfirst : first + min t.payloadLimit (c.dues t epoch (c.covered (visits c.validators.length
      cursor (min c.validators.length t.sweepLimit)))).length ≤ Bytes.capacity 8)
    (hj : j < min c.validators.length t.sweepLimit) (hlacks : c.lacks t epoch cursor j)
    (hleast : ∀ k < j, ¬ c.lacks t epoch cursor k) :
    c.registry.sweep (.int first) (.int cursor) (.int epoch) spec =
      .error (c.registry.missing ((cursor + j) % c.validators.length : Nat)) := by
  obtain ⟨hbalance, hroom⟩ := hlacks
  -- The payload fills up only as the sweep goes on, so an earlier position without a balance would
  -- have been reached with room left, too.
  have hbefore : ∀ k ∈ visits c.validators.length cursor j, k < c.balances.length := by
    intro i hi
    obtain ⟨k, hk, rfl⟩ := List.mem_map.mp hi
    have hkj : k < j := List.mem_range.mp hk
    have hmono := c.length_dues_mono t epoch c.validators.length cursor hkj
    apply Nat.lt_of_not_le
    intro hle
    exact hleast k hkj ⟨hle, by omega⟩
  obtain ⟨after, hsplit⟩ := exists_visits_append c.validators.length cursor hj
  have hcovered : c.covered (visits c.validators.length cursor
      (min c.validators.length t.sweepLimit)) = visits c.validators.length cursor j := by
    have hnot : ¬ (cursor + j) % c.validators.length < c.balances.length := by omega
    rw [Census.covered, hsplit, List.takeWhile_append_of_pos (by simpa using hbefore)]
    simp [hnot]
  rw [hcovered] at hfirst
  rw [sweep_registry c ht epoch first hcursor, hsplit]
  exact c.run_eq_missing t epoch hbalance _ _ first hbefore hroom (by omega)

/-- A sweep that is full before it gets to a position without a balance pays out. -/
theorem sweep_of_not_lacks (c : Census) {t : Terms} {spec : Spec} (ht : t.Of spec) (epoch : Int)
    {first cursor : Nat} (hcursor : cursor < c.validators.length)
    (hfirst : first + min t.payloadLimit (c.dues t epoch (c.covered (visits c.validators.length
      cursor (min c.validators.length t.sweepLimit)))).length ≤ Bytes.capacity 8)
    (hnone : ∀ j < min c.validators.length t.sweepLimit, ¬ c.lacks t epoch cursor j) :
    c.registry.sweep (.int first) (.int cursor) (.int epoch) spec =
      .ok (c.payload t epoch first cursor) := by
  rw [sweep_registry c ht epoch first hcursor]
  refine c.run_eq_numbered t epoch _ _ first ?_ hfirst
  intro before i after hsplit hi
  obtain ⟨hlt, hbefore, rfl⟩ := visits_eq_append_iff hsplit
  refine Nat.le_of_not_lt fun hroom => hnone before.length hlt ⟨hi, ?_⟩
  rwa [← hbefore]

/-- Two validators of three without balances, of which the sweep gets to the first. -/
def oneBalance : Census :=
  { threeValidators with
    balances := [33000000000]
    balances_lt := by decide }

end BeaconHarness.Withdrawals
