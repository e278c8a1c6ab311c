import BeaconHarness.Consensus.Records
import BeaconHarness.Datum.Arithmetic
import BeaconHarness.Network.Spec

/-!
# Eligibility for withdrawal

A validator can be paid out only if its credentials name an execution address, which their first
byte tells. Past its withdrawable epoch it is paid its whole balance; before that, a validator with
the maximal effective balance is paid what exceeds it.
-/

namespace BeaconHarness.Withdrawals

open Consensus (Validator)

/-- Whether the credentials of a validator begin with a given byte. -/
def hasCredential (v : Validator) (first : Datum) : Bool :=
  match v.withdrawalCredentials with
  | b :: _ => Datum.same (.int b.toNat) first
  | [] => false

/-- The execution address in the credentials of a validator. -/
def address (v : Validator) : Bytes := v.withdrawalCredentials.drop 12

/-- Whether a validator is paid out in full. The epoch and the balance are looked at only as far as
what comes before them allows. -/
def isFull (v : Validator) (balance epoch : Datum) (spec : Spec) : Except Failure Bool := do
  if !hasCredential v spec.eth1AddressWithdrawalPrefix then return false
  else if !(← Datum.isAtMost (.int v.withdrawableEpoch) epoch) then return false
  else Datum.isBelow (.int 0) balance

/-- Whether a validator is paid what exceeds the maximal effective balance. -/
def isPartial (v : Validator) (balance : Datum) (spec : Spec) : Except Failure Bool := do
  let exceeds ← spec.maxEffectiveBalance.isBelow balance
  return hasCredential v spec.eth1AddressWithdrawalPrefix
    && Datum.same (.int v.effectiveBalance) spec.maxEffectiveBalance && exceeds

/-- The amount that is due to a validator, if any. -/
def due? (v : Validator) (balance : Int) (epoch : Datum) (spec : Spec) :
    Except Failure (Option Datum) := do
  if ← isFull v (.int balance) epoch spec then return some (.int balance)
  else if ← isPartial v (.int balance) spec then
    return some (← Datum.less balance spec.maxEffectiveBalance)
  else return none

end BeaconHarness.Withdrawals
