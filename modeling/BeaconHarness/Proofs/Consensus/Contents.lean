import BeaconHarness.Consensus.Block
import BeaconHarness.Consensus.State
import BeaconHarness.Proofs.Consensus.Json
import BeaconHarness.Proofs.Engine.Payload
import BeaconHarness.Proofs.Ssz.Path

/-!
# Payloads with contents

Any part of a well-formed payload can be replaced by a value of the schema that stands in its place.
A state takes a registry in this way, and a block takes attestations and transactions, each of which
has a length of its own: the encoding of such a block has tables of offsets behind offsets.

Main statements: payloads stay well-formed when a part is replaced (`Versioned.admitted_withPart`),
and so do states with a registry (`VersionedState.admitted_withRegistry`) and blocks with contents
(`VersionedBlock.admitted_withContents`).
-/

namespace BeaconHarness

open Ssz (Schema Value Object)
open Consensus (Validator)

/-! ## Replaced parts -/

namespace Versioned

variable {kind : PayloadKind} {x : Versioned kind} {path : List String} {σ : Schema} {v : Value}

theorem namesApart_schema (kind : PayloadKind) (p : Preset) (f : Fork) :
    (kind.schema p f).namesApart = true := by
  have hfork : f ∈ Fork.all := by cases f <;> decide
  have hmem : kind.schema p f ∈ Consensus.forkContainers p f := by
    cases kind <;> simp [PayloadKind.schema, Consensus.forkContainers]
  exact Consensus.namesApart_containers p _
    (List.mem_append_right _ (List.mem_flatMap.mpr ⟨f, hfork, hmem⟩))

/-- The payload with the part at the end of a path replaced. -/
def withPart (x : Versioned kind) (path : List String) (v : Value) : Versioned kind :=
  { x with value := (x.object.replaceAt path v).value }

theorem admitted_withPart (hx : x.Admitted)
    (hσ : (kind.schema x.preset x.fork).at? path = some σ) (hv : σ.admits v = true) :
    (x.withPart path v).Admitted := by
  obtain ⟨u, hu, hadmits, -⟩ :=
    Object.replaceAt_of_admits (namesApart_schema kind x.preset x.fork) hx hσ hv
  show (kind.schema x.preset x.fork).admits (x.object.replaceAt path v).value = true
  rw [object, hu]
  exact hadmits

end Versioned

/-! ## States with a registry -/

namespace VersionedState

open Versioned

/-- The state with a registry of validators, and with balances. -/
def withRegistry (s : VersionedState) (validators : List Validator) (balances : List Nat) :
    VersionedState :=
  (s.withPart ["validators"] (.seq (validators.map Validator.toValue))).withPart ["balances"]
    (.seq (balances.map .uint))

theorem admitted_withRegistry {s : VersionedState} (hs : s.Admitted) {validators : List Validator}
    {balances : List Nat} (hcount : validators.length ≤ Preset.validatorRegistryLimit)
    (hvalidators : ∀ v ∈ validators, Consensus.validator.admits v.toValue = true)
    (hlength : balances.length ≤ Preset.validatorRegistryLimit)
    (hbalances : ∀ n ∈ balances, n < Bytes.capacity 8) :
    (s.withRegistry validators balances).Admitted := by
  have hregistry :
      (s.withPart ["validators"] (.seq (validators.map Validator.toValue))).Admitted := by
    refine admitted_withPart
      (σ := .list Consensus.validator Preset.validatorRegistryLimit) hs rfl ?_
    simpa [Schema.admits] using ⟨hcount, hvalidators⟩
  refine admitted_withPart
    (σ := .list Consensus.uint64 Preset.validatorRegistryLimit) hregistry rfl ?_
  simpa [Schema.admits, Consensus.uint64] using ⟨hlength, hbalances⟩

/-- A state with an active validator and a slashed one. -/
def registered (p : Preset) (f : Fork) : VersionedState :=
  withRegistry (initial p f)
    [⟨Bytes.zeros 48, Bytes.zeros 32, 32000000000, false, 0, 0, Preset.farFutureEpoch,
        Preset.farFutureEpoch⟩,
      ⟨List.replicate 48 7, Bytes.zeros 32, 31000000000, true, 1, 2, 3, 8195⟩]
    [32000000123, 31000000000]

theorem admitted_registered (p : Preset) (f : Fork) : (registered p f).Admitted :=
  admitted_withRegistry (admitted_initial p f) (by decide) (by decide +kernel) (by decide)
    (by decide)

end VersionedState

/-! ## Blocks with contents -/

namespace VersionedBlock

open Versioned
open Engine (Payload)

/-- The block with attestations, and with transactions in its payload. -/
def withContents (b : VersionedBlock) (attestations : List Value) (transactions : List Bytes) :
    VersionedBlock :=
  (b.withPart ["message", "body", "attestations"] (.seq attestations)).withPart
    ["message", "body", "execution_payload", "transactions"]
    (.seq (transactions.map Payload.rawValue))

theorem admitted_withContents {b : VersionedBlock} (hb : b.Admitted)
    (h : b.fork.atLeast .bellatrix = true) {attestations : List Value} {transactions : List Bytes}
    (hcount : attestations.length ≤ Preset.maxAttestations)
    (hattestations : ∀ v ∈ attestations, Consensus.attestation.admits v = true)
    (hlength : transactions.length ≤ Preset.maxTransactionsPerPayload)
    (htransactions : ∀ t ∈ transactions, t.length ≤ Preset.maxBytesPerTransaction) :
    (b.withContents attestations transactions).Admitted := by
  obtain ⟨p, f, v⟩ := b
  have hattested : (withPart ⟨p, f, v⟩ ["message", "body", "attestations"] (.seq attestations) :
      VersionedBlock).Admitted := by
    refine admitted_withPart
      (σ := .list Consensus.attestation Preset.maxAttestations) hb rfl ?_
    simpa [Schema.admits] using ⟨hcount, hattestations⟩
  have hdeclared : (Consensus.signedBlock p f).at?
      ["message", "body", "execution_payload", "transactions"] = some Consensus.transactions := by
    cases f with
    | phase0 | altair => exact nomatch h
    | bellatrix | capella | deneb => rfl
  refine admitted_withPart hattested hdeclared ?_
  have hadmits : ∀ t ∈ transactions, Consensus.transaction.admits (Payload.rawValue t) = true :=
    fun t ht => Payload.admits_rawValue (htransactions t ht)
  simpa [Consensus.transactions, Schema.admits] using ⟨hlength, hadmits⟩

/-- A block with attestations of committees of different sizes, and with transactions of different
lengths. -/
def attested (p : Preset) (f : Fork) : VersionedBlock :=
  withContents (initial p f)
    ([[true, false, true], List.replicate 9 true].map fun bits =>
      .seq [.bits bits, Consensus.attestationData.default, .bytes (List.replicate 96 5)])
    [[2, 192], [], [3, 1, 4]]

theorem admitted_attested {f : Fork} (p : Preset) (h : f.atLeast .bellatrix = true) :
    (attested p f).Admitted :=
  admitted_withContents (admitted_initial p f) h (by decide) (by decide +kernel) (by decide)
    (by decide)

end VersionedBlock

end BeaconHarness
