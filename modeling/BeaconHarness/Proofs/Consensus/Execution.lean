import BeaconHarness.Proofs.Consensus.Parts

/-!
# The Engine API's view of a block

What the Engine API takes of a block is read in two ways: the withdrawals and blob gas of the payload
by the fields that the payload has, all else by the fork of the block. Both ways agree with what the
block itself answers: nothing is handed over that the block says it lacks, and nothing is left out.

Main statement: the view of every block that has one agrees with the block
(`VersionedBlock.execution_agrees`).
-/

namespace BeaconHarness

open Ssz (Object Value)
open Consensus (Withdrawal)

namespace VersionedBlock

/-- Whether the versioned hashes of commitments are given one by one: the version byte, and the
last thirty-one bytes of the digest. -/
def HashesOf (commitments hashes : List Bytes) : Prop :=
  hashes.length = commitments.length ∧
    ∀ (i : Nat) c hash, commitments[i]? = some c → hashes[i]? = some hash →
      hash.length = 32 ∧ hash = 1 :: (Sha256.digest c).drop 1

/-- Whether the Engine API's view of a block agrees with the block's other views. -/
structure Agrees (b : VersionedBlock) (x : Execution) : Prop where
  payload : b.payload = ⟨Consensus.executionPayload b.preset b.fork, x.payload.toValue⟩
  blockHash : b.payloadHash = some x.payload.blockHash
  withdrawals : b.withdrawals = x.payload.withdrawals.map fun ws =>
    ⟨Consensus.withdrawals b.preset, .seq (ws.map Withdrawal.toValue)⟩
  withdrawals_none : x.payload.withdrawals = none ↔ b.fork.atLeast .capella = false
  blobGasUsed_none : x.payload.blobGasUsed = none ↔ b.fork.atLeast .deneb = false
  excessBlobGas_none : x.payload.excessBlobGas = none ↔ b.fork.atLeast .deneb = false
  hashes_none : x.versionedHashes = none ↔ b.commitments = none
  hashes : ∀ hashes, x.versionedHashes = some hashes → ∃ cs : List Bytes,
    b.commitments = some ⟨.list Consensus.bytes48 b.preset.maxBlobCommitmentsPerBlock,
      .seq (cs.map .bytes)⟩ ∧ HashesOf cs hashes
  parentRoot_none : x.parentBeaconRoot = none ↔ b.fork.atLeast .deneb = false
  parentRoot : ∀ root, x.parentBeaconRoot = some root →
    b.parentRoot = ⟨Consensus.bytes32, .bytes root⟩
  transactions : b.payload.field "transactions" =
    ⟨Consensus.transactions, .seq (x.payload.transactions.map Engine.Payload.rawValue)⟩

theorem hashesOf_map (cs : List Bytes) :
    HashesOf cs ((cs.map Value.bytes).map fun c => Signing.versionedHash c.toBytes) := by
  rw [List.map_map]
  refine ⟨List.length_map _, fun i c hash hc hhash => ?_⟩
  rw [List.getElem?_map, hc] at hhash
  obtain rfl : Signing.versionedHash c = hash := Option.some.inj hhash
  exact ⟨Signing.length_versionedHash c, rfl⟩

theorem eq_none_iff_of_isSome {α : Type} {x : Option α} {present : Bool}
    (h : x.isSome = present) : x = none ↔ present = false := by
  rw [← h, Option.isSome_eq_false_iff, Option.isNone_iff_eq_none]

section

variable {b : VersionedBlock}

/-! ## Withdrawals -/

/-- A block answers the withdrawals of its payload, if its fork has any. -/
theorem withdrawals_of_payload {e : Engine.Payload} (he : e.Suits b.fork)
    (hpayload : b.payload = ⟨Consensus.executionPayload b.preset b.fork, e.toValue⟩) :
    b.withdrawals = e.withdrawals.map fun ws =>
      ⟨Consensus.withdrawals b.preset, .seq (ws.map Withdrawal.toValue)⟩ := by
  obtain ⟨hws, -, -⟩ := Engine.Payload.optional_toValue b.preset he
  unfold withdrawals
  rw [hpayload]
  split
  · rename_i hcapella
    obtain ⟨ws, hsome⟩ := Option.isSome_iff_exists.mp (he.withdrawals.trans hcapella)
    rw [hsome] at hws ⊢
    unfold Object.field
    rw [hws]
    rfl
  · rename_i hcapella
    rw [(eq_none_iff_of_isSome he.withdrawals).mpr (Bool.eq_false_iff.mpr hcapella)]
    rfl

/-! ## Commitments -/

/-- The commitments of a block that has any are byte strings. -/
theorem exists_commitments (hb : b.Admitted) {object : Object} (h : b.commitments = some object) :
    ∃ cs : List Bytes, object =
      ⟨.list Consensus.bytes48 b.preset.maxBlobCommitmentsPerBlock, .seq (cs.map .bytes)⟩ := by
  unfold commitments Versioned.since at h
  split at h
  · rename_i hdeneb
    have hτ : (Consensus.signedBlock b.preset b.fork).at?
        ["message", "body", "blob_kzg_commitments"] =
        some (.list Consensus.bytes48 b.preset.maxBlobCommitmentsPerBlock) := by
      cases hfork : b.fork with
      | deneb => rfl
      | _ => exact absurd hdeneb (by rw [hfork]; decide)
    obtain ⟨v, hfield, hv⟩ := Object.at?_of_admits hb hτ
    obtain ⟨cs, rfl⟩ := Ssz.exists_map_of_admits hv fun w hw =>
      (Ssz.exists_bytes_of_admits hw).imp fun c hc => hc.1.symm
    have halong : b.body.field "blob_kzg_commitments" = _ := Object.along_of_at? hfield
    exact ⟨cs, (Option.some.inj h).symm.trans halong⟩
  · exact nomatch h

theorem exists_parentRoot (hb : b.Admitted) :
    ∃ root, b.parentRoot = ⟨Consensus.bytes32, .bytes root⟩ := by
  have hτ : (Consensus.signedBlock b.preset b.fork).at? ["message", "parent_root"] =
      some Consensus.bytes32 := rfl
  obtain ⟨v, hfield, hv⟩ := Object.at?_of_admits hb hτ
  obtain ⟨root, rfl, -⟩ := Ssz.exists_bytes_of_admits hv
  exact ⟨root, Object.along_of_at? hfield⟩

end

/-! ## Main statement -/

/-- Every block from bellatrix on has a view for the Engine API, which agrees with what the block
answers by itself. -/
theorem execution_agrees {b : VersionedBlock} (hb : b.Admitted)
    (h : b.fork.atLeast .bellatrix = true) : ∃ x, b.execution = .ok x ∧ b.Agrees x := by
  obtain ⟨e, he, hfield⟩ := exists_payload hb h
  have hpayload : b.payload = ⟨Consensus.executionPayload b.preset b.fork, e.toValue⟩ :=
    Object.along_of_at? hfield
  refine ⟨_, execution_of_payload h he hpayload, ?_⟩
  constructor
  case payload => exact hpayload
  case blockHash =>
    unfold payloadHash containsPayload
    rw [if_pos h, hpayload]
    rfl
  case withdrawals => exact withdrawals_of_payload he hpayload
  case withdrawals_none => exact eq_none_iff_of_isSome he.withdrawals
  case blobGasUsed_none => exact eq_none_iff_of_isSome he.blobGasUsed
  case excessBlobGas_none => exact eq_none_iff_of_isSome he.excessBlobGas
  case hashes_none => exact Option.map_eq_none_iff
  case hashes =>
    intro hashes hhashes
    obtain ⟨object, hobject, rfl⟩ := Option.map_eq_some_iff.mp hhashes
    obtain ⟨cs, rfl⟩ := exists_commitments hb hobject
    exact ⟨cs, hobject, hashesOf_map cs⟩
  case parentRoot_none =>
    unfold containsCommitments
    cases b.fork.atLeast .deneb <;> simp
  case parentRoot =>
    obtain ⟨root, hroot⟩ := exists_parentRoot hb
    intro found (hfound : (if b.containsCommitments then some b.parentRoot.toBytes else none) =
      some found)
    rw [hroot] at hfound ⊢
    obtain ⟨-, hfound⟩ := Option.ite_none_right_eq_some.mp hfound
    obtain rfl : root = found := Option.some.inj hfound
    rfl
  case transactions =>
    rw [hpayload]
    rfl

/-- A deneb block with two commitments, a withdrawal and a transaction, which is handed over as it
is. -/
theorem execution_agrees_twoCommitments :
    let first : VersionedBlock := .initial .minimal .deneb
    let payload :=
      ((first.payload.setField "transactions" (.seq [.seq [.uint 2, .uint 255]])).setField
      "withdrawals" (.seq [.seq [.uint 0, .uint 7, .bytes (Bytes.zeros 20), .uint 9]]))
    let body := (first.body.setField "execution_payload" payload.value).setField
      "blob_kzg_commitments" (.seq [.bytes (Bytes.zeros 48), .bytes (List.replicate 48 1)])
    let b : VersionedBlock := ⟨.minimal, .deneb,
      (first.object.setField "message" (first.message.setField "body" body.value).value).value⟩
    b.Admitted ∧ ∃ x, b.execution = .ok x ∧ b.Agrees x ∧ x.payload.transactions = [[2, 255]] ∧
      ∃ hashes, x.versionedHashes = some hashes ∧ hashes.length = 2 := by
  intro first payload body b
  have hb : b.Admitted := by
    show (Consensus.signedBlock .minimal .deneb).admits b.value = true
    decide +kernel
  obtain ⟨x, hx, hagrees⟩ := execution_agrees hb rfl
  have htransactions : ⟨Consensus.transactions, .seq [.seq [.uint 2, .uint 255]]⟩ =
      (⟨Consensus.transactions, .seq (x.payload.transactions.map Engine.Payload.rawValue)⟩ : Object) :=
    hagrees.transactions
  have hcommitments : b.commitments = some ⟨.list Consensus.bytes48 32,
      .seq [.bytes (Bytes.zeros 48), .bytes (List.replicate 48 1)]⟩ := rfl
  refine ⟨hb, x, hx, hagrees, ?_, ?_⟩
  · have hraw : [[2, 255]].map Engine.Payload.rawValue =
        x.payload.transactions.map Engine.Payload.rawValue :=
      Value.seq.inj (congrArg Object.value htransactions)
    exact (List.map_injective_iff.mpr Engine.Payload.rawValue_injective hraw).symm
  · have hsome : x.versionedHashes ≠ none := by
      rw [Ne, hagrees.hashes_none, hcommitments]
      exact Option.some_ne_none _
    obtain ⟨hashes, hhashes⟩ := Option.ne_none_iff_exists'.mp hsome
    obtain ⟨cs, hcs, hlength, -⟩ := hagrees.hashes hashes hhashes
    have hobject := Option.some.inj (hcommitments.symm.trans hcs)
    have hvalues : [.bytes (Bytes.zeros 48), .bytes (List.replicate 48 1)] = cs.map Value.bytes :=
      Value.seq.inj (congrArg Object.value hobject)
    have htwo : 2 = cs.length := by simpa using congrArg List.length hvalues
    exact ⟨hashes, hhashes, hlength.trans htwo.symm⟩

end VersionedBlock

end BeaconHarness
