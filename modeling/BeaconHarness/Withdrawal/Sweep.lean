import BeaconHarness.Datum.Reading
import BeaconHarness.Withdrawal.Eligibility

/-!
# The withdrawal sweep

The withdrawals that the next block has to carry. From a cursor on, validators are visited in
registry order, wrapping around at the end, until the sweep limit or the payload limit is reached;
each eligible one yields a withdrawal. A position that registry or balances lack ends the sweep
with a failure that names it.

Registry and balances come from a state, where a negative position does not exist, or from plain
lists, where it counts from the end.
-/

namespace BeaconHarness.Withdrawals

open Consensus (Validator Withdrawal)

/-- What a negative position in a list means. -/
inductive Negative where
  /-- It counts from the end of the list. -/
  | fromEnd
  /-- It is refused. -/
  | refused
  deriving DecidableEq, Repr

/-- The item at a position below the length of a list. -/
def itemAt {α : Type} (negative : Negative) (items : List α) (position : Int) : Except Failure α :=
  let found := if 0 ≤ position then items[position.toNat]?
    else match negative with
      | .fromEnd =>
        if (-position).toNat ≤ items.length then items[items.length - (-position).toNat]? else none
      | .refused => none
  match found, negative with
  | some x, _ => .ok x
  | none, .fromEnd => .error .noElement
  | none, .refused => .error .malformed

/-- What a sweep goes over. -/
structure Registry where
  validators : List Validator
  balances : List Datum
  negative : Negative := .refused

/-- The failure of a position that registry or balances lack. -/
def Registry.missing (r : Registry) (position : Int) : Failure :=
  .validatorIndex (.int position) r.validators.length (some r.balances.length)

/-- Whether registry and balances have a position, or one that counts from the end. -/
def Registry.reaches (r : Registry) (position : Int) : Bool :=
  position < r.validators.length && position < r.balances.length

/-- The amount due at a position, if any, and the address it is due to. -/
def Registry.dueAt (r : Registry) (position : Int) (epoch : Datum) (spec : Spec) :
    Except Failure (Option (Bytes × Datum)) := do
  let v ← itemAt r.negative r.validators position
  let balance ← (← itemAt r.negative r.balances position).plainInteger
  return (← due? v balance epoch spec).map fun amount => (address v, amount)

/-- The withdrawal of an amount, which has to be an integer of its layout. -/
def withdrawalOf (index position : Int) (address : Bytes) (amount : Datum) :
    Except Failure Withdrawal :=
  match amount with
  | .int n => Withdrawal.make index position address n
  | .ssz ⟨.uint 8, .uint n⟩ => Withdrawal.make index position address n
  | _ => .error .malformed

/-- The position behind a position. -/
def Registry.next (r : Registry) (position : Int) : Int :=
  (position + 1).fmod r.validators.length

/-- Visits at most `steps` positions from `position` on, with `taken` in front, newest first; a full
payload has `room` withdrawals. -/
def Registry.sweepFrom (r : Registry) (epoch : Datum) (spec : Spec) (room : Nat) :
    (steps : Nat) → (position index : Int) → (taken : List Withdrawal) →
    Except Failure (List Withdrawal)
  | 0, _, _, taken => .ok taken.reverse
  | steps + 1, position, index, taken =>
    -- A full payload ends the sweep before the position is looked at.
    if room ≤ taken.length then .ok taken.reverse
    else if !r.reaches position then .error (r.missing position)
    else
      match r.dueAt position epoch spec with
      | .error e => .error e
      -- The number goes to the next withdrawal, the position moves on in either case.
      | .ok none => r.sweepFrom epoch spec room steps (r.next position) index taken
      | .ok (some (address, amount)) =>
        match withdrawalOf index position address amount with
        | .error e => .error e
        | .ok w => r.sweepFrom epoch spec room steps (r.next position) (index + 1) (w :: taken)

/-- How many positions a sweep visits at most. -/
def Registry.reach (r : Registry) (spec : Spec) : Except Failure Nat := do
  let count := r.validators.length
  let limit := spec.maxValidatorsPerWithdrawalsSweep
  if ← limit.isBelow (.int count) then limit.countBelow count else return count

/-- The withdrawals of the next block: from the cursor `position` on, numbered from `index`. An
empty registry has none, whatever the rest is. -/
def Registry.sweep (r : Registry) (index position epoch : Datum) (spec : Spec) :
    Except Failure (List Withdrawal) := do
  if r.validators.isEmpty then return []
  else
    let steps ← r.reach spec
    let index ← index.plainInteger
    let position ← position.plainInteger
    if steps = 0 then return []
    else
      -- No payload of a sweep is larger than the number of positions visited.
      let room ← spec.maxWithdrawalsPerPayload.countBelow steps
      r.sweepFrom epoch spec room steps position index []

end BeaconHarness.Withdrawals
