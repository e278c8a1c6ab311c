import BeaconHarness.Engine.Payload
import BeaconHarness.Proofs.Consensus.Records

/-!
# Payloads and their values

A payload stands for a value of the schema of its fork, with a field for withdrawals and two for
blobs just where the fork has them. Every value of the schema is that of a payload, which is what is
read of the value field by field.

Main statements: every value of the schema is that of a payload (`Payload.exists_of_admits`), and
what is read of the value of a payload is the payload (`Payload.ofObject_toValue`).
-/

namespace BeaconHarness

open Ssz (Schema Value Object exists_seq_of_admits exists_cons_of_admits exists_uint_cons
  exists_bytes_cons eq_nil_of_admits)
open Consensus (Withdrawal executionPayload)

namespace Engine.Payload

/-! ## Raw bytes -/

/-- The list of small numbers that a byte string is. -/
def rawValue (b : Bytes) : Value := .seq (b.map fun c => .uint c.toNat)

theorem exists_raw_of_admits {limit : Nat} {v : Value}
    (hv : (Schema.list Consensus.uint8 limit).admits v = true) : ∃ b, v = rawValue b := by
  refine Ssz.exists_map_of_admits hv fun w hw => ?_
  obtain ⟨n, rfl, hn⟩ := Ssz.exists_uint_of_admits hw
  refine ⟨UInt8.ofNat n, congrArg Value.uint ?_⟩
  exact UInt8.toNat_ofNat_of_lt hn

theorem admits_rawValue {b : Bytes} (hb : b.length ≤ Preset.maxBytesPerTransaction) :
    Consensus.transaction.admits (rawValue b) = true := by
  have hbytes : ∀ c ∈ b, c.toNat < Bytes.capacity 1 := fun c _ => c.toNat_lt
  simpa [Consensus.transaction, Consensus.uint8, rawValue, Schema.admits] using ⟨hb, hbytes⟩

theorem rawBytes_rawValue (τ : Schema) (b : Bytes) : rawBytes ⟨τ, rawValue b⟩ = b := by
  show (b.map fun c => Value.uint c.toNat).map (fun v => UInt8.ofNat v.toNat) = b
  rw [List.map_map]
  refine (List.map_congr_left fun c _ => ?_).trans (List.map_id b)
  exact UInt8.ofNat_toNat

theorem rawValue_injective : Function.Injective rawValue := by
  have hread : Function.LeftInverse (fun v => rawBytes ⟨Consensus.transaction, v⟩) rawValue :=
    rawBytes_rawValue Consensus.transaction
  exact hread.injective

/-- The encoding of a transaction is the byte string that it is. -/
theorem encode_rawValue (b : Bytes) : Object.encode ⟨Consensus.transaction, rawValue b⟩ = b := by
  show (b.map fun c => Value.uint c.toNat).flatMap (Ssz.encode Consensus.uint8) = b
  rw [List.flatMap_map]
  have hbyte : ∀ c : UInt8, Ssz.encode Consensus.uint8 (.uint c.toNat) = [c] := by
    intro c
    show [UInt8.ofNat c.toNat] = [c]
    rw [UInt8.ofNat_toNat]
  simp only [hbyte, List.flatMap_singleton']

/-! ## Values -/

/-- The value that a payload stands for. -/
def toValue (e : Payload) : Value := .seq ([
    .bytes e.parentHash, .bytes e.feeRecipient, .bytes e.stateRoot, .bytes e.receiptsRoot,
    .bytes e.logsBloom, .bytes e.prevRandao, .uint e.blockNumber, .uint e.gasLimit,
    .uint e.gasUsed, .uint e.timestamp, rawValue e.extraData, .uint e.baseFeePerGas,
    .bytes e.blockHash, .seq (e.transactions.map rawValue)]
  ++ (e.withdrawals.map fun ws => .seq (ws.map Withdrawal.toValue)).toList
  ++ (e.blobGasUsed.map .uint).toList ++ (e.excessBlobGas.map .uint).toList)

/-- Whether a payload has the fields of a fork and no others. -/
structure Suits (e : Payload) (f : Fork) : Prop where
  withdrawals : e.withdrawals.isSome = f.atLeast .capella
  blobGasUsed : e.blobGasUsed.isSome = f.atLeast .deneb
  excessBlobGas : e.excessBlobGas.isSome = f.atLeast .deneb

/-- Every value of the schema is that of a payload. -/
theorem exists_of_admits {p : Preset} {f : Fork} {v : Value}
    (hv : (executionPayload p f).admits v = true) : ∃ e : Payload, e.toValue = v ∧ e.Suits f := by
  obtain ⟨vs, rfl, hvs⟩ := exists_seq_of_admits hv
  obtain ⟨parent, vs, rfl, -, hvs⟩ := exists_bytes_cons hvs
  obtain ⟨recipient, vs, rfl, -, hvs⟩ := exists_bytes_cons hvs
  obtain ⟨state, vs, rfl, -, hvs⟩ := exists_bytes_cons hvs
  obtain ⟨receipts, vs, rfl, -, hvs⟩ := exists_bytes_cons hvs
  obtain ⟨bloom, vs, rfl, -, hvs⟩ := exists_bytes_cons hvs
  obtain ⟨randao, vs, rfl, -, hvs⟩ := exists_bytes_cons hvs
  obtain ⟨number, vs, rfl, -, hvs⟩ := exists_uint_cons hvs
  obtain ⟨limit, vs, rfl, -, hvs⟩ := exists_uint_cons hvs
  obtain ⟨used, vs, rfl, -, hvs⟩ := exists_uint_cons hvs
  obtain ⟨time, vs, rfl, -, hvs⟩ := exists_uint_cons hvs
  obtain ⟨extra, vs, rfl, hextra, hvs⟩ := exists_cons_of_admits hvs
  obtain ⟨fee, vs, rfl, -, hvs⟩ := exists_uint_cons hvs
  obtain ⟨hash, vs, rfl, -, hvs⟩ := exists_bytes_cons hvs
  obtain ⟨txs, rest, rfl, htxs, hrest⟩ := exists_cons_of_admits hvs
  obtain ⟨extra, rfl⟩ := exists_raw_of_admits hextra
  obtain ⟨txs, rfl⟩ := Ssz.exists_map_of_admits htxs fun w hw =>
    (exists_raw_of_admits hw).imp fun b hb => hb.symm
  have hwithdrawal : ∀ w, Consensus.withdrawal.admits w = true →
      ∃ r : Withdrawal, r.toValue = w := fun w hw =>
    let ⟨r, hr, _⟩ := Withdrawal.exists_of_admits hw
    ⟨r, hr⟩
  let e : Payload := {
    parentHash := parent, feeRecipient := recipient, stateRoot := state, receiptsRoot := receipts
    logsBloom := bloom, prevRandao := randao, blockNumber := number, gasLimit := limit
    gasUsed := used, timestamp := time, extraData := extra, baseFeePerGas := fee
    blockHash := hash, transactions := txs }
  cases f with
  | phase0 | altair | bellatrix =>
    obtain rfl := eq_nil_of_admits hrest
    exact ⟨e, rfl, rfl, rfl, rfl⟩
  | capella =>
    obtain ⟨ws, rest, rfl, hws, hrest⟩ := exists_cons_of_admits hrest
    obtain rfl := eq_nil_of_admits hrest
    obtain ⟨ws, rfl⟩ := Ssz.exists_map_of_admits hws hwithdrawal
    exact ⟨{ e with withdrawals := some ws }, rfl, rfl, rfl, rfl⟩
  | deneb =>
    obtain ⟨ws, rest, rfl, hws, hrest⟩ := exists_cons_of_admits hrest
    obtain ⟨blob, rest, rfl, -, hrest⟩ := exists_uint_cons hrest
    obtain ⟨excess, rest, rfl, -, hrest⟩ := exists_uint_cons hrest
    obtain rfl := eq_nil_of_admits hrest
    obtain ⟨ws, rfl⟩ := Ssz.exists_map_of_admits hws hwithdrawal
    exact ⟨{ e with withdrawals := some ws, blobGasUsed := some blob, excessBlobGas := some excess },
      rfl, rfl, rfl, rfl⟩

theorem map_ofValue?_toValue (ws : List Withdrawal) :
    (ws.map Withdrawal.toValue).map (fun w => (Withdrawal.ofValue? w).getD default) = ws := by
  rw [List.map_map]
  refine (List.map_congr_left fun w _ => ?_).trans (List.map_id ws)
  exact congrArg (fun r => r.getD default) (Withdrawal.ofValue?_toValue w)

section

variable {e : Payload} {f : Fork}

/-- The fields that not every fork has are those that the payload has. -/
theorem optional_toValue (p : Preset) (h : e.Suits f) :
    Object.field? ⟨executionPayload p f, e.toValue⟩ "withdrawals" =
        e.withdrawals.map (fun ws =>
          ⟨Consensus.withdrawals p, .seq (ws.map Withdrawal.toValue)⟩) ∧
      Object.field? ⟨executionPayload p f, e.toValue⟩ "blob_gas_used" =
        e.blobGasUsed.map (fun n => ⟨Consensus.uint64, .uint n⟩) ∧
      Object.field? ⟨executionPayload p f, e.toValue⟩ "excess_blob_gas" =
        e.excessBlobGas.map (fun n => ⟨Consensus.uint64, .uint n⟩) := by
  obtain ⟨hws, hused, hexcess⟩ := h
  have hnone {α : Type} {x : Option α} (hx : x.isSome = false) : x = none :=
    Option.not_isSome_iff_eq_none.mp (Bool.eq_false_iff.mp hx)
  obtain ⟨_, _, _, _, _, _, _, _, _, _, _, _, _, _, ws, used, excess⟩ := e
  cases f with
  | phase0 | altair | bellatrix =>
    obtain rfl : ws = none := hnone hws
    obtain rfl : used = none := hnone hused
    obtain rfl : excess = none := hnone hexcess
    exact ⟨rfl, rfl, rfl⟩
  | capella =>
    obtain ⟨ws, rfl⟩ := Option.isSome_iff_exists.mp hws
    obtain rfl : used = none := hnone hused
    obtain rfl : excess = none := hnone hexcess
    exact ⟨rfl, rfl, rfl⟩
  | deneb =>
    obtain ⟨ws, rfl⟩ := Option.isSome_iff_exists.mp hws
    obtain ⟨used, rfl⟩ := Option.isSome_iff_exists.mp hused
    obtain ⟨excess, rfl⟩ := Option.isSome_iff_exists.mp hexcess
    exact ⟨rfl, rfl, rfl⟩

/-- What is read of the value of a payload is the payload. -/
theorem ofObject_toValue (p : Preset) (h : e.Suits f) :
    ofObject ⟨executionPayload p f, e.toValue⟩ = e := by
  have hextra : rawBytes (Object.field ⟨executionPayload p f, e.toValue⟩ "extra_data") =
      e.extraData :=
    rawBytes_rawValue _ _
  have htransactions : (Object.field ⟨executionPayload p f, e.toValue⟩ "transactions").elements.map
      Object.encode = e.transactions := by
    show ((e.transactions.map rawValue).map (⟨Consensus.transaction, ·⟩)).map Object.encode = _
    rw [List.map_map, List.map_map]
    exact (List.map_congr_left fun b _ => encode_rawValue b).trans (List.map_id _)
  obtain ⟨hws, hused, hexcess⟩ := optional_toValue p h
  have hwithdrawals : ((Object.field? ⟨executionPayload p f, e.toValue⟩ "withdrawals").map
      fun ws => ws.value.parts.map fun w => (Withdrawal.ofValue? w).getD default) =
      e.withdrawals := by
    rw [hws, Option.map_map]
    exact (congrArg (fun read => e.withdrawals.map read) (funext map_ofValue?_toValue)).trans
      Option.map_id_apply
  have hused : (Object.field? ⟨executionPayload p f, e.toValue⟩ "blob_gas_used").map
      Object.toNat = e.blobGasUsed := by
    rw [hused, Option.map_map]
    exact Option.map_id_apply
  have hexcess : (Object.field? ⟨executionPayload p f, e.toValue⟩ "excess_blob_gas").map
      Object.toNat = e.excessBlobGas := by
    rw [hexcess, Option.map_map]
    exact Option.map_id_apply
  unfold ofObject
  rw [hextra, htransactions, hwithdrawals, hused, hexcess]
  rfl

/-- The value of a payload lacks none of the fields that are read of it. -/
theorem ofObject?_toValue (p : Preset) (h : e.Suits f) :
    ofObject? ⟨executionPayload p f, e.toValue⟩ = .ok e := by
  -- All required fields stand in front of those that not every fork has.
  have hread : ofObject? ⟨executionPayload p f, e.toValue⟩ =
      .ok (ofObject ⟨executionPayload p f, e.toValue⟩) := rfl
  rw [hread, ofObject_toValue p h]

end

end Engine.Payload

end BeaconHarness
