import BeaconHarness.Consensus.Schemas
import BeaconHarness.Failure

/-!
# Records

The small containers that the harness reads and builds field by field, as structures. Each has a
value under its schema; a record built from unchecked numbers and byte strings is refused if that
value does not belong to the schema.

Main statements: every record is read back from its value (`ofValue?_toValue`).
-/

namespace BeaconHarness.Consensus

open Ssz (Schema Value Object)

/-! ## Unchecked numbers -/

/-- The number of an integer that a field of eight bytes can hold. -/
def word (n : Int) : Except Failure Nat :=
  if 0 ≤ n && n.toNat < Bytes.capacity 8 then .ok n.toNat else .error .malformed

/-- A byte string that has to have a given length. -/
def exactly (length : Nat) (b : Bytes) : Except Failure Bytes :=
  if b.length = length then .ok b else .error .malformed

theorem word_natCast {n : Nat} (h : n < Bytes.capacity 8) : word n = .ok n := by
  simp [word, h]

theorem word_natCast_of_le {n : Nat} (h : Bytes.capacity 8 ≤ n) : word n = .error .malformed := by
  have hnot : ¬ n < Bytes.capacity 8 := by omega
  simp [word, hnot]

theorem exactly_of_length {length : Nat} {b : Bytes} (h : b.length = length) :
    exactly length b = .ok b := by
  simp [exactly, h]

/-! ## Checkpoints -/

/-- An epoch and the root of its first block. -/
structure Checkpoint where
  epoch : Nat
  root : Bytes
  deriving DecidableEq, Repr, Inhabited

namespace Checkpoint

def toValue (c : Checkpoint) : Value := .seq [.uint c.epoch, .bytes c.root]

def toObject (c : Checkpoint) : Object := ⟨checkpoint, c.toValue⟩

def ofValue? : Value → Option Checkpoint
  | .seq [.uint epoch, .bytes root] => some ⟨epoch, root⟩
  | _ => none

theorem ofValue?_toValue (c : Checkpoint) : ofValue? c.toValue = some c := rfl

/-- A checkpoint of unchecked parts. -/
def make (epoch : Int) (root : Bytes) : Except Failure Checkpoint := do
  return ⟨← word epoch, ← exactly 32 root⟩

end Checkpoint

/-! ## Block headers -/

/-- A block with the root of its body in place of the body. -/
structure BlockHeader where
  slot : Nat
  proposerIndex : Nat
  parentRoot : Bytes
  stateRoot : Bytes
  bodyRoot : Bytes
  deriving DecidableEq, Repr, Inhabited

namespace BlockHeader

def toValue (h : BlockHeader) : Value :=
  .seq [.uint h.slot, .uint h.proposerIndex, .bytes h.parentRoot, .bytes h.stateRoot,
    .bytes h.bodyRoot]

def toObject (h : BlockHeader) : Object := ⟨beaconBlockHeader, h.toValue⟩

def ofValue? : Value → Option BlockHeader
  | .seq [.uint slot, .uint proposer, .bytes parent, .bytes state, .bytes body] =>
    some ⟨slot, proposer, parent, state, body⟩
  | _ => none

theorem ofValue?_toValue (h : BlockHeader) : ofValue? h.toValue = some h := rfl

/-- A header of unchecked parts. -/
def make (slot proposerIndex : Int) (parentRoot stateRoot bodyRoot : Bytes) :
    Except Failure BlockHeader := do
  return ⟨← word slot, ← word proposerIndex, ← exactly 32 parentRoot, ← exactly 32 stateRoot,
    ← exactly 32 bodyRoot⟩

theorem make_of_bounds {slot proposer : Nat} {parent state body : Bytes}
    (hslot : slot < Bytes.capacity 8) (hproposer : proposer < Bytes.capacity 8)
    (hparent : parent.length = 32) (hstate : state.length = 32) (hbody : body.length = 32) :
    make slot proposer parent state body = .ok ⟨slot, proposer, parent, state, body⟩ := by
  unfold make
  rw [word_natCast hslot, word_natCast hproposer, exactly_of_length hparent,
    exactly_of_length hstate, exactly_of_length hbody]
  rfl

end BlockHeader

/-- A block header and its proposer's signature. -/
structure SignedHeader where
  message : BlockHeader
  signature : Bytes
  deriving DecidableEq, Repr, Inhabited

namespace SignedHeader

def toValue (h : SignedHeader) : Value := .seq [h.message.toValue, .bytes h.signature]

def toObject (h : SignedHeader) : Object := ⟨signedBeaconBlockHeader, h.toValue⟩

def ofValue? : Value → Option SignedHeader
  | .seq [message, .bytes signature] => (BlockHeader.ofValue? message).map (⟨·, signature⟩)
  | _ => none

theorem ofValue?_toValue (h : SignedHeader) : ofValue? h.toValue = some h := rfl

/-- A signed header of unchecked parts. -/
def make (message : BlockHeader) (signature : Bytes) : Except Failure SignedHeader := do
  return ⟨message, ← exactly 96 signature⟩

end SignedHeader

/-! ## Validators -/

/-- An entry of the validator registry. -/
structure Validator where
  pubkey : Bytes
  withdrawalCredentials : Bytes
  effectiveBalance : Nat
  slashed : Bool
  activationEligibilityEpoch : Nat
  activationEpoch : Nat
  exitEpoch : Nat
  withdrawableEpoch : Nat
  deriving DecidableEq, Repr, Inhabited

namespace Validator

def toValue (v : Validator) : Value :=
  .seq [.bytes v.pubkey, .bytes v.withdrawalCredentials, .uint v.effectiveBalance,
    .boolean v.slashed, .uint v.activationEligibilityEpoch, .uint v.activationEpoch,
    .uint v.exitEpoch, .uint v.withdrawableEpoch]

def toObject (v : Validator) : Object := ⟨validator, v.toValue⟩

def ofValue? : Value → Option Validator
  | .seq [.bytes pubkey, .bytes credentials, .uint balance, .boolean slashed, .uint eligibility,
      .uint activation, .uint exit, .uint withdrawable] =>
    some ⟨pubkey, credentials, balance, slashed, eligibility, activation, exit, withdrawable⟩
  | _ => none

theorem ofValue?_toValue (v : Validator) : ofValue? v.toValue = some v := rfl

/-- A validator of unchecked parts. -/
def make (pubkey credentials : Bytes) (balance : Int) (slashed : Bool)
    (eligibility activation exit withdrawable : Int) : Except Failure Validator := do
  return ⟨← exactly 48 pubkey, ← exactly 32 credentials, ← word balance, slashed,
    ← word eligibility, ← word activation, ← word exit, ← word withdrawable⟩

end Validator

/-! ## Withdrawals -/

/-- A withdrawal that a block's payload carries. -/
structure Withdrawal where
  index : Nat
  validatorIndex : Nat
  address : Bytes
  amount : Nat
  deriving DecidableEq, Repr, Inhabited

namespace Withdrawal

def toValue (w : Withdrawal) : Value :=
  .seq [.uint w.index, .uint w.validatorIndex, .bytes w.address, .uint w.amount]

def toObject (w : Withdrawal) : Object := ⟨withdrawal, w.toValue⟩

def ofValue? : Value → Option Withdrawal
  | .seq [.uint index, .uint validatorIndex, .bytes address, .uint amount] =>
    some ⟨index, validatorIndex, address, amount⟩
  | _ => none

theorem ofValue?_toValue (w : Withdrawal) : ofValue? w.toValue = some w := rfl

/-- A withdrawal of unchecked parts. -/
def make (index validatorIndex : Int) (address : Bytes) (amount : Int) :
    Except Failure Withdrawal := do
  return ⟨← word index, ← word validatorIndex, ← exactly 20 address, ← word amount⟩

end Withdrawal

/-! ## Fork versions -/

/-- The fork versions of a state. -/
structure ForkRecord where
  previousVersion : Bytes
  currentVersion : Bytes
  epoch : Nat
  deriving DecidableEq, Repr, Inhabited

namespace ForkRecord

def toValue (r : ForkRecord) : Value :=
  .seq [.bytes r.previousVersion, .bytes r.currentVersion, .uint r.epoch]

def toObject (r : ForkRecord) : Object := ⟨forkRecord, r.toValue⟩

def ofValue? : Value → Option ForkRecord
  | .seq [.bytes previous, .bytes current, .uint epoch] => some ⟨previous, current, epoch⟩
  | _ => none

theorem ofValue?_toValue (r : ForkRecord) : ofValue? r.toValue = some r := rfl

/-- A fork record of unchecked parts. -/
def make (previous current : Bytes) (epoch : Int) : Except Failure ForkRecord := do
  return ⟨← exactly 4 previous, ← exactly 4 current, ← word epoch⟩

end ForkRecord

end BeaconHarness.Consensus
