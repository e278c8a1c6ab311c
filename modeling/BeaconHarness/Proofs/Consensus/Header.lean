import BeaconHarness.Proofs.Consensus.Contents

/-!
# Headers stand for what they head

The header of a block has the root of the body in place of the body, and the header of an execution
payload has roots in place of the lists of the payload. Both are summaries, so they have the roots
of the block and of the payload. A proposer who signs a block therefore signs its header as well.

Main statement: headers have the roots of what they head (`headers_keep_roots`).
-/

namespace BeaconHarness

open Ssz (Schema Value Object Fields Summarizes)

namespace Consensus

/-! ## Schemas of headers -/

/-- The lists of an execution payload for which its header has roots. -/
def payloadLists : List String := ["transactions", "withdrawals"]

theorem summarizes_block (p : Preset) (f : Fork) :
    Summarizes ["body"] (block p f).fields beaconBlockHeader.fields where
  summary_eq := rfl
  names := by cases p <;> cases f <;> decide
  apart := by cases p <;> cases f <;> decide
  fits := by cases p <;> cases f <;> rfl

theorem summarizes_executionPayload (p : Preset) (f : Fork) :
    Summarizes payloadLists (executionPayload p f).fields (executionPayloadHeader f).fields where
  summary_eq := by cases f <;> rfl
  names := by cases p <;> cases f <;> decide
  apart := by cases p <;> cases f <;> decide
  fits := by cases p <;> cases f <;> rfl

/-- The header of an execution payload. -/
def payloadHeader (f : Fork) (payload : Object) : Object :=
  payload.summary payloadLists (executionPayloadHeader f)

theorem admits_payloadHeader {p : Preset} {f : Fork} {v : Value}
    (hv : (executionPayload p f).admits v = true) :
    (executionPayloadHeader f).admits (payloadHeader f ⟨executionPayload p f, v⟩).value = true :=
  Ssz.admits_summary (summarizes_executionPayload p f) hv _

/-- The header of an execution payload has the root of the payload. -/
theorem root_payloadHeader {p : Preset} {f : Fork} {v : Value}
    (hv : (executionPayload p f).admits v = true) :
    (payloadHeader f ⟨executionPayload p f, v⟩).root = Object.root ⟨executionPayload p f, v⟩ :=
  Ssz.root_summary (summarizes_executionPayload p f) hv _

theorem fitsChunks_block (p : Preset) (f : Fork) : (block p f).fitsChunks = true :=
  (summarizes_block p f).fits

end Consensus

namespace VersionedBlock

open Consensus (BlockHeader)

/-! ## Headers of blocks -/

/-- The header of a block: its fields, and the root of its body. -/
def header (b : VersionedBlock) : Except Failure BlockHeader :=
  BlockHeader.make b.slot (b.message.field "proposer_index").toNat b.parentRoot.toBytes
    (b.message.field "state_root").toBytes b.body.root

section

variable {b : VersionedBlock}

/-- The message of a well-formed block is well-formed. -/
theorem exists_message (hb : b.Admitted) :
    ∃ v, b.message = ⟨Consensus.block b.preset b.fork, v⟩ ∧
      (Consensus.block b.preset b.fork).admits v = true := by
  have hnames : ((Consensus.signedBlock b.preset b.fork).fields.map Prod.fst).Nodup := by
    show ["message", "signature"].Nodup
    decide
  have hmem : ("message", Consensus.block b.preset b.fork) ∈
      (Consensus.signedBlock b.preset b.fork).fields := List.mem_cons_self
  exact Ssz.field_of_mem hnames hb hmem

theorem exists_messageField (hb : b.Admitted) {name : String} {τ : Schema}
    (h : (name, τ) ∈ (Consensus.block b.preset b.fork).fields) :
    ∃ v, b.message.field name = ⟨τ, v⟩ ∧ τ.admits v = true := by
  obtain ⟨v, hmessage, hv⟩ := exists_message hb
  rw [hmessage]
  exact Ssz.field_of_mem (Consensus.summarizes_block b.preset b.fork).names hv h

theorem exists_messageNumber (hb : b.Admitted) (name : String)
    (h : (name, Consensus.uint64) ∈ (Consensus.block b.preset b.fork).fields) :
    ∃ n, b.message.field name = ⟨Consensus.uint64, .uint n⟩ ∧ n < Bytes.capacity 8 := by
  obtain ⟨v, hfield, hv⟩ := exists_messageField hb h
  obtain ⟨n, rfl, hn⟩ := Ssz.exists_uint_of_admits hv
  exact ⟨n, hfield, hn⟩

theorem exists_messageRoot (hb : b.Admitted) (name : String)
    (h : (name, Consensus.bytes32) ∈ (Consensus.block b.preset b.fork).fields) :
    ∃ r, b.message.field name = ⟨Consensus.bytes32, .bytes r⟩ ∧ r.length = 32 := by
  obtain ⟨v, hfield, hv⟩ := exists_messageField hb h
  obtain ⟨r, rfl, hr⟩ := Ssz.exists_bytes_of_admits hv
  exact ⟨r, hfield, hr⟩

theorem length_root_body (hb : b.Admitted) : b.body.root.length = 32 := by
  have hmem : ("body", Consensus.blockBody b.preset b.fork) ∈
      (Consensus.block b.preset b.fork).fields := by simp [Consensus.block, Schema.fields]
  have hfits : (Consensus.blockBody b.preset b.fork).fitsChunks = true :=
    Ssz.fitsChunks_of_mem (Consensus.summarizes_block b.preset b.fork).fits hmem
  obtain ⟨v, hbody, -⟩ := exists_messageField hb hmem
  unfold body
  rw [hbody]
  exact Ssz.length_hashTreeRoot hfits v

/-- The header of a well-formed block is a summary of its message. -/
theorem exists_header (hb : b.Admitted) :
    ∃ h, b.header = .ok h ∧
      h.toObject = b.message.summary ["body"] Consensus.beaconBlockHeader := by
  obtain ⟨slot, hslot, hslotlt⟩ := exists_messageNumber hb "slot"
    (by simp [Consensus.block, Schema.fields])
  obtain ⟨proposer, hproposer, hproposerlt⟩ := exists_messageNumber hb "proposer_index"
    (by simp [Consensus.block, Schema.fields])
  obtain ⟨parent, hparent, hparentlength⟩ := exists_messageRoot hb "parent_root"
    (by simp [Consensus.block, Schema.fields])
  obtain ⟨state, hstate, hstatelength⟩ := exists_messageRoot hb "state_root"
    (by simp [Consensus.block, Schema.fields])
  refine ⟨⟨slot, proposer, parent, state, b.body.root⟩, ?_, ?_⟩
  · unfold header VersionedBlock.slot parentRoot
    rw [hslot, hproposer, hparent, hstate]
    exact BlockHeader.make_of_bounds hslotlt hproposerlt hparentlength hstatelength
      (length_root_body hb)
  · -- The summary looks its fields up by name and finds them in the order of the header.
    have hvalue : b.message.summary ["body"] Consensus.beaconBlockHeader =
        ⟨Consensus.beaconBlockHeader, .seq [(b.message.field "slot").value,
          (b.message.field "proposer_index").value, (b.message.field "parent_root").value,
          (b.message.field "state_root").value, .bytes b.body.root]⟩ := rfl
    rw [hvalue, hslot, hproposer, hparent, hstate]
    rfl

/-- The header of a well-formed block has the root of the block. -/
theorem exists_header_root (hb : b.Admitted) :
    ∃ h, b.header = .ok h ∧ h.toObject.root = b.root := by
  obtain ⟨v, hmessage, hv⟩ := exists_message hb
  obtain ⟨h, hheader, hsummary⟩ := exists_header hb
  refine ⟨h, hheader, ?_⟩
  unfold root
  rw [hsummary, hmessage]
  exact Ssz.root_summary (Consensus.summarizes_block b.preset b.fork) hv _

end

end VersionedBlock

/-! ## Signing roots -/

namespace Signing

/-- A container is signed by its root. -/
theorem signingRootOf_seq (τ : Schema) (vs : List Value) {domain : Bytes}
    (hdomain : domain.length = 32) :
    signingRootOf (.ssz ⟨τ, .seq vs⟩) (.bytes domain) =
      rootUnder (Object.root ⟨τ, .seq vs⟩) domain := by
  have hread : Datum.fixedBytes 32 (.bytes domain) = .ok domain := by
    show (if domain.length = 32 then Except.ok domain else Except.error Failure.malformed) = _
    rw [if_pos hdomain]
  unfold signingRootOf
  rw [hread]
  rfl

/-- A root and a domain are never refused. -/
theorem exists_rootUnder {root domain : Bytes} (hroot : root.length = 32)
    (hdomain : domain.length = 32) : ∃ r, rootUnder root domain = .ok r := by
  have hadmits : Consensus.signingData.admits (.seq [.bytes root, .bytes domain]) = true := by
    simp [Consensus.signingData, Consensus.bytes32, Schema.admits, Schema.admitsFields, hroot,
      hdomain]
  unfold rootUnder pair Schema.make?
  rw [if_pos hadmits]
  exact ⟨_, rfl⟩

end Signing

/-! ## Main statement -/

/-- The header of every well-formed block has the root of the block, and so the two have one signing
root under every domain. The header of every execution payload belongs to its schema and has the
root of the payload. -/
theorem headers_keep_roots :
    (∀ b : VersionedBlock, b.Admitted → ∃ h, b.header = .ok h ∧ h.toObject.root = b.root ∧
      ∀ domain : Bytes, domain.length = 32 →
        ∃ r, Signing.signingRootOf (.ssz b.message) (.bytes domain) = .ok r ∧
          Signing.signingRootOf (.ssz h.toObject) (.bytes domain) = .ok r) ∧
    (∀ (p : Preset) (f : Fork) (v : Value), (Consensus.executionPayload p f).admits v = true →
      (Consensus.executionPayloadHeader f).admits
        (Consensus.payloadHeader f ⟨Consensus.executionPayload p f, v⟩).value = true ∧
      (Consensus.payloadHeader f ⟨Consensus.executionPayload p f, v⟩).root =
        Object.root ⟨Consensus.executionPayload p f, v⟩) := by
  constructor
  · intro b hb
    obtain ⟨h, hheader, hroot⟩ := VersionedBlock.exists_header_root hb
    refine ⟨h, hheader, hroot, ?_⟩
    intro domain hdomain
    obtain ⟨v, hmessage, hv⟩ := VersionedBlock.exists_message hb
    obtain ⟨vs, rfl, -⟩ := Ssz.exists_seq_of_admits hv
    have hlength : b.message.root.length = 32 := by
      rw [hmessage]
      exact Ssz.length_hashTreeRoot (Consensus.fitsChunks_block b.preset b.fork) _
    obtain ⟨r, hr⟩ := Signing.exists_rootUnder hlength hdomain
    refine ⟨r, ?_, ?_⟩
    -- Both are signed by their roots, which are equal.
    · rw [← hr, hmessage]
      exact Signing.signingRootOf_seq _ vs hdomain
    · have hsigned : Signing.signingRootOf (.ssz h.toObject) (.bytes domain) =
          Signing.rootUnder h.toObject.root domain := Signing.signingRootOf_seq _ _ hdomain
      rw [hsigned, hroot]
      exact hr
  · intro p f v hv
    exact ⟨Consensus.admits_payloadHeader hv, Consensus.root_payloadHeader hv⟩

/-- A block of the last fork with attestations and transactions, and a payload with one
transaction. -/
theorem headers_keep_roots_attested :
    let b := VersionedBlock.attested .minimal .deneb
    let payload := (Object.setField ⟨Consensus.executionPayload .mainnet .capella,
      (Consensus.executionPayload .mainnet .capella).default⟩ "transactions"
        (.seq [.seq [.uint 2, .uint 192]])).value
    (∃ h, b.header = .ok h ∧ h.toObject.root = b.root ∧
      ∃ r, Signing.signingRootOf (.ssz b.message) (.bytes (Bytes.zeros 32)) = .ok r ∧
        Signing.signingRootOf (.ssz h.toObject) (.bytes (Bytes.zeros 32)) = .ok r) ∧
    (Consensus.payloadHeader .capella
        ⟨Consensus.executionPayload .mainnet .capella, payload⟩).root =
      Object.root ⟨Consensus.executionPayload .mainnet .capella, payload⟩ := by
  intro b payload
  have hb : b.Admitted := VersionedBlock.admitted_attested .minimal rfl
  have hpayload : (Consensus.executionPayload .mainnet .capella).admits payload = true := by
    decide +kernel
  obtain ⟨hblocks, hpayloads⟩ := headers_keep_roots
  obtain ⟨h, hheader, hroot, hsigned⟩ := hblocks b hb
  exact ⟨⟨h, hheader, hroot, hsigned (Bytes.zeros 32) rfl⟩,
    (hpayloads .mainnet .capella payload hpayload).2⟩

end BeaconHarness
