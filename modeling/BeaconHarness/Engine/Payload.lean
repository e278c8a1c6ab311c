import BeaconHarness.Consensus.Records
import BeaconHarness.Datum.Bytes
import BeaconHarness.Datum.Reading

/-!
# Executable payloads

An execution payload in the form in which the Engine API takes it: quantities as hexadecimal
numbers without leading zeros, byte strings as hexadecimal text. Withdrawals are missing before
the fork that introduced them, and so are the two fields for blobs.
-/

namespace BeaconHarness.Engine

open Ssz (Object Value)
open Consensus (Withdrawal)

/-- An execution payload as the Engine API sees it. -/
structure Payload where
  parentHash : Bytes
  feeRecipient : Bytes
  stateRoot : Bytes
  receiptsRoot : Bytes
  logsBloom : Bytes
  prevRandao : Bytes
  blockNumber : Nat
  gasLimit : Nat
  gasUsed : Nat
  timestamp : Nat
  extraData : Bytes
  baseFeePerGas : Nat
  blockHash : Bytes
  transactions : List Bytes
  withdrawals : Option (List Withdrawal) := none
  blobGasUsed : Option Nat := none
  excessBlobGas : Option Nat := none
  deriving DecidableEq, Repr, Inhabited

namespace Payload

/-! ## From a block -/

/-- The bytes of a list of small numbers. -/
def rawBytes (x : Object) : Bytes := x.value.parts.map fun v => UInt8.ofNat v.toNat

/-- The payload in a value under the schema of a payload. -/
def ofObject (x : Object) : Payload where
  parentHash := (x.field "parent_hash").toBytes
  feeRecipient := (x.field "fee_recipient").toBytes
  stateRoot := (x.field "state_root").toBytes
  receiptsRoot := (x.field "receipts_root").toBytes
  logsBloom := (x.field "logs_bloom").toBytes
  prevRandao := (x.field "prev_randao").toBytes
  blockNumber := (x.field "block_number").toNat
  gasLimit := (x.field "gas_limit").toNat
  gasUsed := (x.field "gas_used").toNat
  timestamp := (x.field "timestamp").toNat
  extraData := rawBytes (x.field "extra_data")
  baseFeePerGas := (x.field "base_fee_per_gas").toNat
  blockHash := (x.field "block_hash").toBytes
  transactions := (x.field "transactions").elements.map Object.encode
  withdrawals := (x.field? "withdrawals").map fun ws =>
    ws.value.parts.map fun w => (Withdrawal.ofValue? w).getD default
  blobGasUsed := (x.field? "blob_gas_used").map Object.toNat
  excessBlobGas := (x.field? "excess_blob_gas").map Object.toNat

/-- The fields that every payload has, whatever its fork. -/
def required : List String :=
  Consensus.payloadScalars.map Prod.fst ++ ["transactions"]

/-- The payload in a value under any schema, which is refused if it lacks a required field. -/
def ofObject? (x : Object) : Except Failure Payload :=
  match x.schema with
  | .container _ _ =>
    if required.all fun name => (x.field? name).isSome then .ok (ofObject x) else .error .malformed
  | _ => .error .noProperty

/-! ## The JSON form -/

/-- A quantity: a hexadecimal number without leading zeros. -/
def quantity (n : Nat) : Datum := .str (Text.Integer.hexadecimal n)

/-- A byte string. -/
def hex (b : Bytes) : Datum := .str (Text.Hex.marked b)

/-- The JSON form of a withdrawal. -/
def withdrawalJson (w : Withdrawal) : Datum := .record [
  ("index", quantity w.index), ("validatorIndex", quantity w.validatorIndex),
  ("address", hex w.address), ("amount", quantity w.amount)]

/-- An entry that is there only if its value is. -/
def optional (name : String) (d : Option Datum) : List (String × Datum) :=
  match d with
  | some d => [(name, d)]
  | none => []

/-- The entries of the JSON form of a payload. -/
def fields (p : Payload) : List (String × Datum) := [
    ("parentHash", hex p.parentHash), ("feeRecipient", hex p.feeRecipient),
    ("stateRoot", hex p.stateRoot), ("receiptsRoot", hex p.receiptsRoot),
    ("logsBloom", hex p.logsBloom), ("prevRandao", hex p.prevRandao),
    ("blockNumber", quantity p.blockNumber), ("gasLimit", quantity p.gasLimit),
    ("gasUsed", quantity p.gasUsed), ("timestamp", quantity p.timestamp),
    ("extraData", hex p.extraData), ("baseFeePerGas", quantity p.baseFeePerGas),
    ("blockHash", hex p.blockHash), ("transactions", .list (p.transactions.map hex))]
  ++ optional "withdrawals" (p.withdrawals.map fun ws => .list (ws.map withdrawalJson))
  ++ optional "blobGasUsed" (p.blobGasUsed.map quantity)
  ++ optional "excessBlobGas" (p.excessBlobGas.map quantity)

/-- The JSON form of a payload. -/
def toJson (p : Payload) : Datum := .record p.fields

end Payload

end BeaconHarness.Engine
