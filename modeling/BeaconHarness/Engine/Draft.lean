import BeaconHarness.Engine.Payload

/-!
# Drafts of executable payloads

A payload put together by hand from data of any form. Each field is rendered as the Engine API
takes it as far as its datum allows: byte strings and numbers as hexadecimal text, other data by
their display where a byte string belongs; a quantity has to be a number.
-/

namespace BeaconHarness.Engine.Draft

/-- The name of a byte field and its key in the JSON form. -/
def byteFields : List (String × String) := [
  ("parent_hash", "parentHash"), ("fee_recipient", "feeRecipient"), ("state_root", "stateRoot"),
  ("receipts_root", "receiptsRoot"), ("logs_bloom", "logsBloom"), ("prev_randao", "prevRandao"),
  ("extra_data", "extraData"), ("block_hash", "blockHash")]

/-- The name of a quantity and its key in the JSON form. -/
def quantityFields : List (String × String) := [
  ("block_number", "blockNumber"), ("gas_limit", "gasLimit"), ("gas_used", "gasUsed"),
  ("timestamp", "timestamp"), ("base_fee_per_gas", "baseFeePerGas")]

/-- The fields that may be left out. -/
def optionalFields : List String :=
  ["transactions", "withdrawals", "blob_gas_used", "excess_blob_gas"]

/-- The hexadecimal form of a number. -/
def quantity (d : Datum) : Except Failure Datum :=
  match d.exactInteger? with
  | some n => .ok (.str (Text.Integer.hexadecimal n))
  | none => .error .wrongKind

/-- The JSON form of a withdrawal. Other data lack its fields; those that are sequences have other
properties in their place. -/
def withdrawal : Datum → Except Failure Datum
  | .ssz x =>
    match x.schema, x.value with
    | .container _ _, v =>
      match Consensus.Withdrawal.ofValue? v with
      | some w => .ok (Payload.withdrawalJson w)
      | none => .error .malformed
    | _, .bytes _ | _, .seq _ | _, .bits _ => .error .wrongKind
    | _, _ => .error .noProperty
  | .str _ | .fork _ | .bytes _ | .list _ | .tuple _ => .error .wrongKind
  | _ => .error .noProperty

/-- The quantity under a key, unless it is null. -/
def optionalQuantity (key : String) : Datum → Except Failure (List (String × Datum))
  | .null => .ok []
  | d => (quantity d).map fun q => [(key, q)]

/-- The withdrawals under their key, unless they are null. -/
def withdrawals : Datum → Except Failure (List (String × Datum))
  | .null => .ok []
  | d => do return [("withdrawals", .list (← (← d.items).mapM withdrawal))]

/-- The JSON form of a draft, whose required fields have to be there and whose others known. -/
def render (fields : List (String × Datum)) : Except Failure Datum := do
  let field := fun name => (fields.find? fun f => f.1 = name).map Prod.snd
  let required := byteFields ++ quantityFields
  let known := required.map Prod.fst ++ optionalFields
  if fields.any (fun f => !known.contains f.1) || required.any (fun f => (field f.1).isNone) then
    .error .wrongKind
  else
    let bytes := byteFields.map fun f => (f.2, Datum.str ((field f.1).getD .null).toHex)
    let quantities ← quantityFields.mapM fun f =>
      (quantity ((field f.1).getD .null)).map fun q => (f.2, q)
    let transactions ← ((field "transactions").getD (.list [])).items
    let withdrawals ← withdrawals ((field "withdrawals").getD .null)
    let used ← optionalQuantity "blobGasUsed" ((field "blob_gas_used").getD .null)
    let excess ← optionalQuantity "excessBlobGas" ((field "excess_blob_gas").getD .null)
    return .record (bytes ++ quantities
      ++ [("transactions", .list (transactions.map fun t => .str t.toHex))]
      ++ withdrawals ++ used ++ excess)

end BeaconHarness.Engine.Draft
