import BeaconHarness.Consensus.Records
import BeaconHarness.Datum.Reading

/-!
# Answers of a node

What the endpoints of the Beacon API answer, read from JSON bodies. Numbers come as decimal or
hexadecimal text or as numbers, byte strings as hexadecimal text; whatever enters a container has
to fit it. Flags that a node leaves out read as false.
-/

namespace BeaconHarness.Node

open Consensus (BlockHeader SignedHeader Checkpoint Validator)

/-- The integer in an entry. -/
def integerAt (d : Datum) (key : String) : Except Failure Int := do (← d.entry key).integer

/-- The byte string in an entry. -/
def bytesAt (d : Datum) (key : String) : Except Failure Bytes := do (← d.entry key).hexBytes

/-- The truth of an entry, which may be missing. -/
def flagAt (d : Datum) (key : String) : Except Failure Bool := do
  return (← d.entryOr key (.bool false)).truthy

/-! ## Block headers -/

/-- A block header and what the node knows of its block. -/
structure HeaderInfo where
  root : Bytes
  canonical : Bool
  header : SignedHeader
  executionOptimistic : Bool
  finalized : Bool
  deriving DecidableEq, Repr, Inhabited

namespace HeaderInfo

/-- The slot of the header. -/
def slot (h : HeaderInfo) : Nat := h.header.message.slot

def ofDatum (d : Datum) : Except Failure HeaderInfo := do
  let data ← d.entry "data"
  let message ← (← data.entry "header").entry "message"
  let slot ← integerAt message "slot"
  let proposer ← integerAt message "proposer_index"
  let parent ← bytesAt message "parent_root"
  let state ← bytesAt message "state_root"
  let body ← bytesAt message "body_root"
  let message ← BlockHeader.make slot proposer parent state body
  let signature ← bytesAt (← data.entry "header") "signature"
  let header ← SignedHeader.make message signature
  let root ← bytesAt data "root"
  let canonical ← flagAt data "canonical"
  let optimistic ← flagAt d "execution_optimistic"
  let finalized ← flagAt d "finalized"
  return ⟨root, canonical, header, optimistic, finalized⟩

/-- The fields under their names. -/
def toDatum (h : HeaderInfo) : Datum := .record [
  ("root", .bytes h.root), ("canonical", .bool h.canonical), ("header", .ssz h.header.toObject),
  ("execution_optimistic", .bool h.executionOptimistic), ("finalized", .bool h.finalized)]

end HeaderInfo

/-! ## Genesis -/

/-- When and with what a network started. -/
structure Genesis where
  time : Int
  validatorsRoot : Bytes
  forkVersion : Bytes
  deriving DecidableEq, Repr, Inhabited

def Genesis.ofDatum (d : Datum) : Except Failure Genesis := do
  let time ← integerAt d "genesis_time"
  let root ← bytesAt d "genesis_validators_root"
  let version ← bytesAt d "genesis_fork_version"
  return ⟨time, root, version⟩

/-- The fields under their names. -/
def Genesis.toDatum (g : Genesis) : Datum := .record [
  ("genesis_time", .int g.time), ("genesis_validators_root", .bytes g.validatorsRoot),
  ("genesis_fork_version", .bytes g.forkVersion)]

/-! ## Finality -/

/-- The checkpoints of a state. -/
structure Finality where
  previousJustified : Checkpoint
  currentJustified : Checkpoint
  finalized : Checkpoint
  deriving DecidableEq, Repr, Inhabited

/-- The checkpoint in an answer. -/
def checkpointOf (d : Datum) : Except Failure Checkpoint := do
  let epoch ← integerAt d "epoch"
  let root ← bytesAt d "root"
  Checkpoint.make epoch root

def Finality.ofDatum (d : Datum) : Except Failure Finality := do
  let previous ← checkpointOf (← d.entry "previous_justified")
  let current ← checkpointOf (← d.entry "current_justified")
  let finalized ← checkpointOf (← d.entry "finalized")
  return ⟨previous, current, finalized⟩

/-- The fields under their names. -/
def Finality.toDatum (f : Finality) : Datum := .record [
  ("previous_justified", .ssz f.previousJustified.toObject),
  ("current_justified", .ssz f.currentJustified.toObject), ("finalized", .ssz f.finalized.toObject)]

/-! ## Validators -/

/-- A validator with its position, balance and status. -/
structure ValidatorInfo where
  index : Int
  balance : Int
  status : Datum
  validator : Validator
  deriving Inhabited

namespace ValidatorInfo

/-- The registry entry in an answer. -/
def validatorOf (d : Datum) : Except Failure Validator := do
  let pubkey ← bytesAt d "pubkey"
  let credentials ← bytesAt d "withdrawal_credentials"
  let balance ← integerAt d "effective_balance"
  let slashed ← d.entry "slashed"
  let eligibility ← integerAt d "activation_eligibility_epoch"
  let activation ← integerAt d "activation_epoch"
  let exit ← integerAt d "exit_epoch"
  let withdrawable ← integerAt d "withdrawable_epoch"
  Validator.make pubkey credentials balance slashed.truthy eligibility activation exit withdrawable

def ofDatum (d : Datum) : Except Failure ValidatorInfo := do
  let validator ← validatorOf (← d.entry "validator")
  let index ← integerAt d "index"
  let balance ← integerAt d "balance"
  let status ← d.entry "status"
  return ⟨index, balance, status, validator⟩

/-- The fields under their names. -/
def toDatum (v : ValidatorInfo) : Datum := .record [
  ("index", .int v.index), ("balance", .int v.balance), ("status", v.status),
  ("validator", .ssz v.validator.toObject)]

end ValidatorInfo

/-- The balance of a validator. -/
structure BalanceInfo where
  index : Int
  balance : Int
  deriving DecidableEq, Repr, Inhabited

def BalanceInfo.ofDatum (d : Datum) : Except Failure BalanceInfo := do
  let index ← integerAt d "index"
  let balance ← integerAt d "balance"
  return ⟨index, balance⟩

/-- The fields under their names. -/
def BalanceInfo.toDatum (b : BalanceInfo) : Datum :=
  .record [("index", .int b.index), ("balance", .int b.balance)]

/-! ## Duties -/

/-- Who proposes the block of a slot. -/
structure ProposerDuty where
  pubkey : Bytes
  validatorIndex : Int
  slot : Int
  deriving DecidableEq, Repr, Inhabited

def ProposerDuty.ofDatum (d : Datum) : Except Failure ProposerDuty := do
  let pubkey ← bytesAt d "pubkey"
  let index ← integerAt d "validator_index"
  let slot ← integerAt d "slot"
  return ⟨pubkey, index, slot⟩

/-- The fields under their names. -/
def ProposerDuty.toDatum (d : ProposerDuty) : Datum := .record [
  ("pubkey", .bytes d.pubkey), ("validator_index", .int d.validatorIndex), ("slot", .int d.slot)]

/-! ## Identity -/

/-- How a node is found by its peers. -/
structure Identity where
  peerId : Datum
  enr : Datum
  p2pAddresses : List Datum
  deriving Inhabited

def Identity.ofDatum (d : Datum) : Except Failure Identity := do
  let peerId ← d.entryOr "peer_id" (.str "")
  let enr ← d.entryOr "enr" (.str "")
  let addresses ← (← d.entryOr "p2p_addresses" (.list [])).items
  return ⟨peerId, enr, addresses⟩

/-- The fields under their names. -/
def Identity.toDatum (i : Identity) : Datum := .record [
  ("peer_id", i.peerId), ("enr", i.enr), ("p2p_addresses", .list i.p2pAddresses)]

end BeaconHarness.Node
