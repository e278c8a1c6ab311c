import BeaconHarness.Proofs.Consensus.RoundTrip
import BeaconHarness.Proofs.Ssz.Mismatch
import BeaconHarness.Proofs.Ssz.Normal

/-!
# What is accepted under a tag

A node sends bytes and the name of a fork, and either may be wrong. Bytes that are accepted need not
be an encoding, but what they are read as is a well-formed payload of the fork that the tag names,
and its own encoding, which is no longer, is read as the same payload.

A payload of an earlier fork is never accepted under the name of a later one. Each fork added fields
to the head of the block body, so that there the first offset points into the head of the later
fork, and the same holds of the states. Only the states of capella and deneb have the same fields;
they differ in the header of the payload, which again has a longer head in deneb.

Main statements: what was accepted is normalized (`Versioned.ofBytes_normalizes`), and payloads of
earlier forks are refused (`Versioned.ofBytes_of_earlier`).
-/

namespace BeaconHarness

open Ssz (Schema Value Object Fields)
open Consensus (bytes32 bytes96 uint64 eth1Data proposerSlashing bodyFields blockBody block
  signedBlock payloadScalars executionPayloadHeader registryFields stateFields state)

/-! ## Tags and bytes -/

namespace Versioned

variable {kind : PayloadKind} {p : Preset} {tag : Datum} {b : Bytes}

/-- A payload that is accepted is what the schema of the fork makes of the bytes. -/
theorem ofBytes_eq_ok_iff {x : Versioned kind} :
    ofBytes kind p tag b = .ok x ↔ x.preset = p ∧ Fork.ofTag tag = .ok x.fork
      ∧ Ssz.decodeBytes (kind.schema p x.fork) b = some x.value := by
  obtain ⟨q, f, v⟩ := x
  unfold ofBytes
  constructor
  · intro h
    cases htag : Fork.ofTag tag with
    | error e =>
      rw [htag] at h
      exact nomatch h
    | ok g =>
      rw [htag] at h
      simp only [bind, Except.bind] at h
      split at h
      · rename_i w hw
        cases h
        exact ⟨rfl, rfl, hw⟩
      · exact nomatch h
  · rintro ⟨rfl, htag, hv⟩
    rw [htag]
    simp only [bind, Except.bind, hv]
    rfl

/-- Bytes that the schema of the fork refuses are malformed. -/
theorem ofBytes_eq_malformed {f : Fork} (htag : Fork.ofTag tag = .ok f)
    (h : Ssz.decodeBytes (kind.schema p f) b = none) :
    ofBytes kind p tag b = .error .malformed := by
  unfold ofBytes
  rw [htag]
  simp only [bind, Except.bind, h]

/-- A payload that was decoded is well-formed. -/
theorem admitted_of_ofBytes {x : Versioned kind} (h : ofBytes kind p tag b = .ok x) :
    x.Admitted ∧ x.preset = p ∧ Fork.ofTag tag = .ok x.fork := by
  obtain ⟨rfl, htag, hv⟩ := ofBytes_eq_ok_iff.mp h
  exact ⟨Ssz.decodeBytes_admits hv, rfl, htag⟩

end Versioned

theorem isFixed_schema (kind : PayloadKind) (p : Preset) (f : Fork) :
    (kind.schema p f).isFixed = false := by
  cases kind <;> cases p <;> cases f <;> rfl

/-- Whatever bytes are accepted under a tag, the payload that they are read as is a well-formed one
of the fork that the tag names. Its encoding needs no more bytes than were read, so that all its
offsets fit, and is read under the same tag as the same payload, with the same root. -/
theorem Versioned.ofBytes_normalizes {kind : PayloadKind} {p : Preset} {tag : Datum} {b : Bytes}
    {x : Versioned kind} (hlength : b.length < 0x80000000) (h : ofBytes kind p tag b = .ok x) :
    x.preset = p ∧ Fork.ofTag tag = .ok x.fork ∧ x.Admitted ∧ x.encode.length ≤ b.length
      ∧ ofBytes kind p tag x.encode = .ok x := by
  obtain ⟨rfl, htag, hv⟩ := ofBytes_eq_ok_iff.mp h
  have hvariable := isFixed_schema kind x.preset x.fork
  have hshort : b.length < Bytes.capacity Schema.offsetWidth :=
    Nat.lt_trans hlength (by decide)
  have hagain : Ssz.decodeBytes (kind.schema x.preset x.fork) x.encode = some x.value :=
    Ssz.decodeBytes_normal (separable_schema kind x.preset x.fork) hvariable hshort hv
  exact ⟨rfl, htag, Ssz.decodeBytes_admits hv, Ssz.length_encode_le_of_decodeBytes hvariable hv,
    ofBytes_eq_ok_iff.mpr ⟨rfl, htag, hagain⟩⟩

/-- A block with a gap between its head and its body, and as many bytes behind it, is read as a
block that is encoded without them. -/
theorem Versioned.ofBytes_normalizes_gap :
    let b : Bytes := 101 :: (initial .minimal .phase0 : VersionedBlock).encode.drop 1 ++ [7]
    b.length < 0x80000000 ∧ ∃ x : VersionedBlock, x.encode ≠ b
      ∧ ofBytes .block .minimal (.str "phase0") b = .ok x
      ∧ ofBytes .block .minimal (.str "phase0") x.encode = .ok x := by
  intro b
  have hlength : b.length < 0x80000000 := by decide +kernel
  have hvalue : (Ssz.decodeBytes (PayloadKind.block.schema .minimal .phase0) b).map
      (Ssz.encode (PayloadKind.block.schema .minimal .phase0))
        = some (initial .minimal .phase0 : VersionedBlock).encode := by decide +kernel
  obtain ⟨v, hv, hencode⟩ := Option.map_eq_some_iff.mp hvalue
  have hread : ofBytes .block .minimal (.str "phase0") b = .ok ⟨.minimal, .phase0, v⟩ :=
    ofBytes_eq_ok_iff.mpr ⟨rfl, rfl, hv⟩
  refine ⟨hlength, ⟨.minimal, .phase0, v⟩, ?_, hread, (ofBytes_normalizes hlength hread).2.2.2.2⟩
  exact fun h => absurd (hencode.symm.trans h) (by decide +kernel)

/-! ## Blocks of earlier forks -/

/-- The fields of a block body in front of its first list. -/
def bodyFront : Fields :=
  [("randao_reveal", bytes96), ("eth1_data", eth1Data), ("graffiti", bytes32)]

theorem bodyFields_eq (p : Preset) (f : Fork) :
    bodyFields p f = bodyFront ++ ("proposer_slashings",
      .list proposerSlashing Preset.maxProposerSlashings) :: (bodyFields p f).drop 4 := rfl

theorem headLength_bodyFields_lt (p : Preset) {f g : Fork} (hlater : f.order < g.order) :
    Schema.headLength (bodyFields p f) < Schema.headLength (bodyFields p g) := by
  cases p <;> cases f <;> cases g <;> first | exact absurd hlater (by decide) | decide +kernel

/-- Each fork added a field to the block body, so that its head grew. -/
theorem refuses_blockBody (p : Preset) {f g : Fork} (hlater : f.order < g.order) :
    (blockBody p g).Refuses (blockBody p f) := by
  have hlt := headLength_bodyFields_lt p hlater
  have hstart : Schema.headLength (bodyFields p f) < Bytes.capacity Schema.offsetWidth := by
    cases p <;> cases f <;> decide +kernel
  rw [bodyFields_eq p f] at hstart hlt
  rw [bodyFields_eq p g] at hlt
  rw [blockBody, blockBody, bodyFields_eq p f, bodyFields_eq p g]
  exact Ssz.refuses_of_headLength_lt (Ssz.readsBack_fields bodyFront rfl) rfl rfl rfl hstart hlt

/-- The fields of a block in front of its body. -/
def blockFront : Fields :=
  [("slot", uint64), ("proposer_index", uint64), ("parent_root", bytes32),
    ("state_root", bytes32)]

/-- The body lies in the block and the block in the signed block behind fixed fields alone. -/
theorem refuses_signedBlock (p : Preset) {f g : Fork} (hlater : f.order < g.order) :
    (signedBlock p g).Refuses (signedBlock p f) := by
  have hbody (h : Fork) : (blockBody p h).isFixed = false := by
    cases p <;> cases h <;> rfl
  have hblock (h : Fork) : (block p h).isFixed = false := by
    cases p <;> cases h <;> rfl
  have hfront : ∀ field ∈ blockFront, field.2.ReadsBack := Ssz.readsBack_fields blockFront rfl
  have hbodyStart : Schema.headLength (blockFront ++ [("body", blockBody p f)])
      < Bytes.capacity Schema.offsetWidth := by
    cases p <;> cases f <;> decide +kernel
  have hblockStart : Schema.headLength [("message", block p f), ("signature", bytes96)]
      < Bytes.capacity Schema.offsetWidth := by
    cases p <;> cases f <;> decide +kernel
  have hrefuses : (block p g).Refuses (block p f) :=
    Ssz.refuses_of_fixed_prefix hfront rfl (hbody f) (hbody g) (refuses_blockBody p hlater) rfl
      hbodyStart
  exact Ssz.refuses_of_fixed_prefix (Ssz.readsBack_fields [] rfl) rfl (hblock f) (hblock g)
    hrefuses rfl hblockStart

/-! ## States of earlier forks -/

/-- The fields of a state in front of its first list. -/
def stateFront (p : Preset) : Fields := (registryFields p).take 7

theorem stateFields_eq (p : Preset) (f : Fork) :
    stateFields p f = stateFront p ++ ("historical_roots",
      .list bytes32 Preset.historicalRootsLimit) :: (stateFields p f).drop 8 := rfl

/-- A state with a longer head refuses one with a shorter head. -/
theorem refuses_state {p : Preset} {f g : Fork}
    (hlt : Schema.headLength (stateFields p f) < Schema.headLength (stateFields p g)) :
    (state p g).Refuses (state p f) := by
  have hstart : Schema.headLength (stateFields p f) < Bytes.capacity Schema.offsetWidth := by
    cases p <;> cases f <;> decide +kernel
  have hfront : ∀ field ∈ stateFront p, field.2.ReadsBack := by
    refine Ssz.readsBack_fields (stateFront p) ?_
    cases p <;> decide +kernel
  rw [stateFields_eq p f] at hstart hlt
  rw [stateFields_eq p g] at hlt
  rw [state, state, stateFields_eq p f, stateFields_eq p g]
  exact Ssz.refuses_of_headLength_lt hfront rfl rfl rfl hstart hlt

/-- Only deneb left the head of the state as it was. -/
theorem headLength_stateFields_lt (p : Preset) {f g : Fork} (hlater : f.order < g.order)
    (hdeneb : ¬(f = .capella ∧ g = .deneb)) :
    Schema.headLength (stateFields p f) < Schema.headLength (stateFields p g) := by
  cases p <;> cases f <;> cases g <;>
    first | exact absurd hlater (by decide) | exact absurd ⟨rfl, rfl⟩ hdeneb | decide +kernel

/-! ### Capella and deneb -/

/-- The header of a payload has a longer head in deneb. -/
theorem refuses_executionPayloadHeader :
    (executionPayloadHeader .deneb).Refuses (executionPayloadHeader .capella) := by
  have hfront : ∀ field ∈ payloadScalars.take 10, field.2.ReadsBack :=
    Ssz.readsBack_fields _ (by decide +kernel)
  exact Ssz.refuses_of_headLength_lt hfront rfl rfl rfl (by decide +kernel) (by decide +kernel)

/-- The fields of a state between the header of the last payload and the summaries. -/
def withdrawalFields : Fields :=
  [("next_withdrawal_index", uint64), ("next_withdrawal_validator_index", uint64)]

/-- From capella on, the header of the last payload follows the fields of altair, and the summaries
come last. -/
theorem stateFields_around (p : Preset) {f : Fork} (hf : f = .capella ∨ f = .deneb) :
    stateFields p f = stateFields p .altair
      ++ ("latest_execution_payload_header", executionPayloadHeader f) :: (withdrawalFields
        ++ [("historical_summaries",
          .list Consensus.historicalSummary Preset.historicalRootsLimit)]) := by
  obtain rfl | rfl := hf <;> rfl

/-- A state of capella has the same head in deneb, but not the same header of the last payload. -/
theorem decodeBytes_capella_deneb (p : Preset) {v : Value}
    (hv : (state p .capella).admits v = true) :
    Ssz.decodeBytes (state p .deneb) (Ssz.encode (state p .capella) v) = none := by
  have hfront : ∀ field ∈ stateFields p .altair, field.2.ReadsBack :=
    Ssz.readsBack_fields _ (separable_schema .state p .altair)
  have hmax : (Schema.list Consensus.historicalSummary Preset.historicalRootsLimit).maxLength
      < Bytes.capacity Schema.offsetWidth := by
    decide +kernel
  rw [state, stateFields_around p (.inl rfl)] at hv
  rw [state, state, stateFields_around p (.inl rfl), stateFields_around p (.inr rfl)]
  exact Ssz.decodeBytes_eq_none_of_refuses hfront rfl rfl refuses_executionPayloadHeader rfl rfl
    rfl hmax hv

/-! ## Payloads of earlier forks -/

/-- A well-formed payload of a fork is refused by the schema of every later one. -/
theorem decodeBytes_of_earlier {kind : PayloadKind} (p : Preset) {f g : Fork} {v : Value}
    (hv : (kind.schema p f).admits v = true) (hlater : f.order < g.order) :
    Ssz.decodeBytes (kind.schema p g) (Ssz.encode (kind.schema p f) v) = none := by
  cases kind with
  | block => exact (refuses_signedBlock p hlater).decodeBytes hv
  | state =>
    by_cases hdeneb : f = .capella ∧ g = .deneb
    · obtain ⟨rfl, rfl⟩ := hdeneb
      exact decodeBytes_capella_deneb p hv
    · exact (refuses_state (headLength_stateFields_lt p hlater hdeneb)).decodeBytes hv

/-- The encoding of a well-formed payload of a fork is never accepted under the tag of a later one,
however long it is: it is malformed there. -/
theorem Versioned.ofBytes_of_earlier {kind : PayloadKind} (x : Versioned kind) {g : Fork}
    {tag : Datum} (hx : x.Admitted) (hlater : x.fork.order < g.order)
    (htag : Fork.ofTag tag = .ok g) : ofBytes kind x.preset tag x.encode = .error .malformed :=
  ofBytes_eq_malformed htag (decodeBytes_of_earlier x.preset hx hlater)

/-- A capella state with two validators is malformed as one of deneb, and a bellatrix block with
attestations and transactions as one of capella. -/
theorem Versioned.ofBytes_of_earlier_attested :
    ofBytes .state .mainnet (.str "Deneb") (VersionedState.registered .mainnet .capella).encode
        = .error .malformed
      ∧ ofBytes .block .minimal (.fork .capella)
          (VersionedBlock.attested .minimal .bellatrix).encode = .error .malformed :=
  ⟨ofBytes_of_earlier (VersionedState.registered .mainnet .capella)
      (VersionedState.admitted_registered _ _) (by decide) rfl,
    ofBytes_of_earlier (VersionedBlock.attested .minimal .bellatrix)
      (VersionedBlock.admitted_attested _ rfl) (by decide) rfl⟩

end BeaconHarness
