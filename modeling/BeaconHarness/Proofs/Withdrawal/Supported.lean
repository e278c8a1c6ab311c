import BeaconHarness.Withdrawal.Sweep
import BeaconHarness.Network.Schedule

/-!
# What a sweep fails with

That a fork does not support an operation is for the operation itself to say. The arithmetic, the
readings and the comparisons that a sweep is made of fail in ways of their own, whatever parameters
the network has been given, and none of these can be taken for an unsupported fork.

Main statements: neither the epoch of a slot nor a sweep fails as unsupported (`slotToEpoch`,
`sweep`, both of `Supported`).
-/

namespace BeaconHarness

/-- Whether a result is not the failure of an operation that a fork does not support. -/
def Supported {α : Type} (r : Except Failure α) : Prop :=
  ∀ fork operation, r ≠ .error (.unsupported fork operation)

namespace Supported

variable {α β : Type}

/-! ## Chains -/

theorem ok (a : α) : Supported (.ok a) := nofun

/-- What a part of a computation fails with may be passed on. -/
theorem passOn {r : Except Failure α} {e : Failure} (hr : Supported r) (he : r = .error e) :
    Supported (.error e : Except Failure β) := by
  intro fork operation h
  obtain rfl := Except.error.inj h
  exact hr fork operation he

theorem bind {r : Except Failure α} {next : α → Except Failure β} (hr : Supported r)
    (hnext : ∀ a, Supported (next a)) : Supported (r >>= next) := by
  cases r with
  | error e => exact hr.passOn rfl
  | ok a => exact hnext a

theorem map {r : Except Failure α} (f : α → β) (hr : Supported r) : Supported (r.map f) := by
  cases r with
  | error e => exact hr.passOn rfl
  | ok a => exact ok (f a)

/-! ## Arithmetic -/

theorem toFloat (n : Int) : Supported (Datum.toFloat n) := by
  unfold Datum.toFloat
  split <;> nofun

theorem unsigned (width : Nat) (n : Int) : Supported (Datum.unsigned width n) := by
  unfold Datum.unsigned
  split <;> nofun

theorem floorDivide (n : Int) (d : Datum) : Supported (Datum.floorDivide n d) := by
  unfold Datum.floorDivide
  split
  · refine (toFloat n).bind fun x => ?_
    split <;> nofun
  · refine (unsigned _ n).bind fun _ => ?_
    split
    · nofun
    · exact unsigned _ _
  · split
    · split <;> nofun
    · nofun

theorem less (n : Int) (d : Datum) : Supported (Datum.less n d) := by
  unfold Datum.less
  split
  · exact (toFloat n).bind fun x => ok _
  · exact (unsigned _ n).bind fun _ => unsigned _ _
  · split <;> nofun

theorem countBelow (room : Nat) (d : Datum) : Supported (Datum.countBelow room d) := by
  unfold Datum.countBelow
  split <;> nofun

/-! ## Comparisons -/

theorem orderAtom (a b : Datum) : Supported (Datum.orderAtom a b) := by
  unfold Datum.orderAtom
  split
  · nofun
  · split
    · nofun
    · split <;> nofun

mutual
theorem order (a b : Datum) : Supported (Datum.order a b) := by
  unfold Datum.order
  split
  · exact orderAll _ _
  · exact orderAll _ _
  · exact orderAtom _ _

theorem orderAll (xs ys : List Datum) : Supported (Datum.orderAll xs ys) := by
  match xs, ys with
  | [], [] => nofun
  | [], _ :: _ => nofun
  | _ :: _, [] => nofun
  | x :: xs, y :: ys =>
    unfold Datum.orderAll
    split
    · exact orderAll xs ys
    · exact order x y
end

theorem isBelow (a b : Datum) : Supported (a.isBelow b) := (order a b).map _

theorem isAtMost (a b : Datum) : Supported (a.isAtMost b) := (order a b).map _

/-! ## Readings -/

theorem readInteger (base : Text.Integer.Base) (text : List Char) (shown : String) :
    Supported (Datum.readInteger base text shown) := by
  unfold Datum.readInteger
  split <;> nofun

theorem readIntegerBytes (b : Bytes) : Supported (Datum.readIntegerBytes b) := by
  unfold Datum.readIntegerBytes
  split
  · exact readInteger _ _ _
  · nofun

theorem plainInteger (d : Datum) : Supported d.plainInteger := by
  unfold Datum.plainInteger
  split
  · nofun
  · nofun
  · split <;> nofun
  · exact readInteger _ _ _
  · exact readIntegerBytes _
  · split
    · nofun
    · nofun
    · exact readIntegerBytes _
    · nofun
  · nofun
  · nofun

theorem word (n : Int) : Supported (Consensus.word n) := by
  unfold Consensus.word
  split <;> nofun

theorem exactly (length : Nat) (b : Bytes) : Supported (Consensus.exactly length b) := by
  unfold Consensus.exactly
  split <;> nofun

theorem makeWithdrawal (index position : Int) (address : Bytes) (amount : Int) :
    Supported (Consensus.Withdrawal.make index position address amount) :=
  (word index).bind fun _ => (word position).bind fun _ => (exactly 20 address).bind fun _ =>
    (word amount).bind fun _ => ok _

/-! ## Sweeps -/

section

open Withdrawals (Registry)

variable (r : Registry) (spec : Spec)

theorem itemAt (negative : Withdrawals.Negative) (items : List α) (position : Int) :
    Supported (Withdrawals.itemAt negative items position) := by
  simp only [Withdrawals.itemAt]
  split <;> nofun

theorem isFull (v : Consensus.Validator) (balance epoch : Datum) :
    Supported (Withdrawals.isFull v balance epoch spec) := by
  unfold Withdrawals.isFull
  split
  · exact ok _
  · refine (isAtMost _ _).bind fun isPast => ?_
    split
    · exact ok _
    · exact isBelow _ _

theorem isPartial (v : Consensus.Validator) (balance : Datum) :
    Supported (Withdrawals.isPartial v balance spec) :=
  (isBelow _ _).bind fun _ => ok _

theorem due? (v : Consensus.Validator) (balance : Int) (epoch : Datum) :
    Supported (Withdrawals.due? v balance epoch spec) := by
  unfold Withdrawals.due?
  refine (isFull spec v _ _).bind fun full => ?_
  split
  · exact ok _
  · refine (isPartial spec v _).bind fun partly => ?_
    split
    · exact (less _ _).bind fun _ => ok _
    · exact ok _

theorem dueAt (position : Int) (epoch : Datum) : Supported (r.dueAt position epoch spec) :=
  (itemAt _ _ _).bind fun v => (itemAt _ _ _).bind fun balance =>
    (plainInteger balance).bind fun n => (due? spec v n epoch).bind fun _ => ok _

theorem withdrawalOf (index position : Int) (address : Bytes) (amount : Datum) :
    Supported (Withdrawals.withdrawalOf index position address amount) := by
  unfold Withdrawals.withdrawalOf
  split
  · exact makeWithdrawal _ _ _ _
  · exact makeWithdrawal _ _ _ _
  · nofun

theorem sweepFrom (epoch : Datum) (room steps : Nat) (position index : Int)
    (taken : List Consensus.Withdrawal) :
    Supported (r.sweepFrom epoch spec room steps position index taken) := by
  induction steps generalizing position index taken with
  | zero => exact ok _
  | succ steps ih =>
    unfold Registry.sweepFrom
    split
    · exact ok _
    · split
      · nofun
      · split
        · rename_i e he
          exact (dueAt r spec position epoch).passOn he
        · exact ih _ _ _
        · split
          · rename_i e he
            exact (withdrawalOf _ _ _ _).passOn he
          · exact ih _ _ _

theorem reach : Supported (r.reach spec) := by
  unfold Registry.reach
  refine (isBelow _ _).bind fun below => ?_
  split
  · exact countBelow _ _
  · exact ok _

theorem sweep (index position epoch : Datum) : Supported (r.sweep index position epoch spec) := by
  unfold Registry.sweep
  split
  · exact ok _
  · refine (reach r spec).bind fun steps => (plainInteger index).bind fun index =>
      (plainInteger position).bind fun position => ?_
    split
    · exact ok _
    · exact (countBelow _ _).bind fun room => sweepFrom r spec epoch room steps position index []

theorem slotToEpoch (slot : Int) : Supported (spec.slotToEpoch slot) := floorDivide _ _

end

end Supported

end BeaconHarness
