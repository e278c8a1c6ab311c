import BeaconHarness.Fork
import BeaconHarness.Preset
import BeaconHarness.Ssz.Schema

/-!
# Schemas of the consensus layer

The containers of the five forks. Operations keep one shape from the first fork on; block bodies,
execution payloads and states grow from fork to fork by fields at their end, except that the first
fork's lists of pending attestations give way to participation flags.
-/

namespace BeaconHarness.Consensus

open Ssz (Schema Fields)

/-! ## Basic schemas -/

def uint8 : Schema := .uint 1

def uint64 : Schema := .uint 8

def uint256 : Schema := .uint 32

/-- A hash or a root. -/
def bytes32 : Schema := .byteVector 32

/-- A fork version or a domain type. -/
def bytes4 : Schema := .byteVector 4

/-- An execution address. -/
def bytes20 : Schema := .byteVector 20

/-- A public key, a commitment or a proof. -/
def bytes48 : Schema := .byteVector 48

/-- A signature. -/
def bytes96 : Schema := .byteVector 96

/-- The raw bytes of a transaction. -/
def transaction : Schema := .list uint8 Preset.maxBytesPerTransaction

/-! ## Records shared by all forks -/

/-- The fork versions of a state. -/
def forkRecord : Schema := .container "Fork" [
  ("previous_version", bytes4), ("current_version", bytes4), ("epoch", uint64)]

def forkData : Schema := .container "ForkData" [
  ("current_version", bytes4), ("genesis_validators_root", bytes32)]

def checkpoint : Schema := .container "Checkpoint" [("epoch", uint64), ("root", bytes32)]

def signingData : Schema := .container "SigningData" [
  ("object_root", bytes32), ("domain", bytes32)]

def validator : Schema := .container "Validator" [
  ("pubkey", bytes48), ("withdrawal_credentials", bytes32), ("effective_balance", uint64),
  ("slashed", .boolean), ("activation_eligibility_epoch", uint64), ("activation_epoch", uint64),
  ("exit_epoch", uint64), ("withdrawable_epoch", uint64)]

def attestationData : Schema := .container "AttestationData" [
  ("slot", uint64), ("index", uint64), ("beacon_block_root", bytes32), ("source", checkpoint),
  ("target", checkpoint)]

def attestation : Schema := .container "Attestation" [
  ("aggregation_bits", .bitlist Preset.maxValidatorsPerCommittee), ("data", attestationData),
  ("signature", bytes96)]

def indexedAttestation : Schema := .container "IndexedAttestation" [
  ("attesting_indices", .list uint64 Preset.maxValidatorsPerCommittee),
  ("data", attestationData), ("signature", bytes96)]

def attesterSlashing : Schema := .container "AttesterSlashing" [
  ("attestation_1", indexedAttestation), ("attestation_2", indexedAttestation)]

def pendingAttestation : Schema := .container "PendingAttestation" [
  ("aggregation_bits", .bitlist Preset.maxValidatorsPerCommittee), ("data", attestationData),
  ("inclusion_delay", uint64), ("proposer_index", uint64)]

def eth1Data : Schema := .container "Eth1Data" [
  ("deposit_root", bytes32), ("deposit_count", uint64), ("block_hash", bytes32)]

def beaconBlockHeader : Schema := .container "BeaconBlockHeader" [
  ("slot", uint64), ("proposer_index", uint64), ("parent_root", bytes32),
  ("state_root", bytes32), ("body_root", bytes32)]

def signedBeaconBlockHeader : Schema := .container "SignedBeaconBlockHeader" [
  ("message", beaconBlockHeader), ("signature", bytes96)]

def proposerSlashing : Schema := .container "ProposerSlashing" [
  ("signed_header_1", signedBeaconBlockHeader), ("signed_header_2", signedBeaconBlockHeader)]

def depositData : Schema := .container "DepositData" [
  ("pubkey", bytes48), ("withdrawal_credentials", bytes32), ("amount", uint64),
  ("signature", bytes96)]

def deposit : Schema := .container "Deposit" [
  ("proof", .vector bytes32 (Preset.depositContractTreeDepth + 1)), ("data", depositData)]

def voluntaryExit : Schema := .container "VoluntaryExit" [
  ("epoch", uint64), ("validator_index", uint64)]

def signedVoluntaryExit : Schema := .container "SignedVoluntaryExit" [
  ("message", voluntaryExit), ("signature", bytes96)]

def syncCommittee (p : Preset) : Schema := .container "SyncCommittee" [
  ("pubkeys", .vector bytes48 p.syncCommitteeSize), ("aggregate_pubkey", bytes48)]

def syncAggregate (p : Preset) : Schema := .container "SyncAggregate" [
  ("sync_committee_bits", .bitvector p.syncCommitteeSize), ("sync_committee_signature", bytes96)]

def withdrawal : Schema := .container "Withdrawal" [
  ("index", uint64), ("validator_index", uint64), ("address", bytes20), ("amount", uint64)]

def blsToExecutionChange : Schema := .container "BLSToExecutionChange" [
  ("validator_index", uint64), ("from_bls_pubkey", bytes48), ("to_execution_address", bytes20)]

def signedBlsToExecutionChange : Schema := .container "SignedBLSToExecutionChange" [
  ("message", blsToExecutionChange), ("signature", bytes96)]

def historicalSummary : Schema := .container "HistoricalSummary" [
  ("block_summary_root", bytes32), ("state_summary_root", bytes32)]

/-- The bytes of a blob. -/
def blob : Schema := .byteVector (Preset.fieldElementsPerBlob * Preset.bytesPerFieldElement)

def blobSidecar (p : Preset) : Schema := .container "BlobSidecar" [
  ("index", uint64), ("blob", blob), ("kzg_commitment", bytes48), ("kzg_proof", bytes48),
  ("signed_block_header", signedBeaconBlockHeader),
  ("kzg_commitment_inclusion_proof", .vector bytes32 p.kzgCommitmentInclusionProofDepth)]

/-- The sidecars of a block. -/
def blobSidecars (p : Preset) : Schema := .list (blobSidecar p) p.maxBlobCommitmentsPerBlock

/-! ## Execution payloads -/

/-- The fields that a payload and its header share. -/
def payloadScalars : Fields := [
  ("parent_hash", bytes32), ("fee_recipient", bytes20), ("state_root", bytes32),
  ("receipts_root", bytes32), ("logs_bloom", .byteVector Preset.bytesPerLogsBloom),
  ("prev_randao", bytes32), ("block_number", uint64), ("gas_limit", uint64),
  ("gas_used", uint64), ("timestamp", uint64),
  ("extra_data", .list uint8 Preset.maxExtraDataBytes), ("base_fee_per_gas", uint256),
  ("block_hash", bytes32)]

/-- The fields for blobs, which the last fork added. -/
def blobGas (f : Fork) : Fields :=
  if f.atLeast .deneb then [("blob_gas_used", uint64), ("excess_blob_gas", uint64)] else []

/-- The withdrawals of a payload. -/
def withdrawals (p : Preset) : Schema := .list withdrawal p.maxWithdrawalsPerPayload

/-- The transactions of a payload. -/
def transactions : Schema := .list transaction Preset.maxTransactionsPerPayload

/-- The execution payload of a fork from bellatrix on. -/
def executionPayload (p : Preset) (f : Fork) : Schema :=
  .container ("ExecutionPayload" ++ f.title) (payloadScalars ++ [("transactions", transactions)]
    ++ (if f.atLeast .capella then [("withdrawals", withdrawals p)] else []) ++ blobGas f)

/-- The header of an execution payload: roots stand for its lists. -/
def executionPayloadHeader (f : Fork) : Schema :=
  .container ("ExecutionPayloadHeader" ++ f.title)
    (payloadScalars ++ [("transactions_root", bytes32)]
      ++ (if f.atLeast .capella then [("withdrawals_root", bytes32)] else []) ++ blobGas f)

/-! ## Blocks -/

/-- The fields of a block body. -/
def bodyFields (p : Preset) (f : Fork) : Fields :=
  [("randao_reveal", bytes96), ("eth1_data", eth1Data), ("graffiti", bytes32),
    ("proposer_slashings", .list proposerSlashing Preset.maxProposerSlashings),
    ("attester_slashings", .list attesterSlashing Preset.maxAttesterSlashings),
    ("attestations", .list attestation Preset.maxAttestations),
    ("deposits", .list deposit Preset.maxDeposits),
    ("voluntary_exits", .list signedVoluntaryExit Preset.maxVoluntaryExits)]
  ++ (if f.atLeast .altair then [("sync_aggregate", syncAggregate p)] else [])
  ++ (if f.atLeast .bellatrix then [("execution_payload", executionPayload p f)] else [])
  ++ (if f.atLeast .capella then
        [("bls_to_execution_changes",
          .list signedBlsToExecutionChange Preset.maxBlsToExecutionChanges)]
      else [])
  ++ (if f.atLeast .deneb then
        [("blob_kzg_commitments", .list bytes48 p.maxBlobCommitmentsPerBlock)]
      else [])

def blockBody (p : Preset) (f : Fork) : Schema :=
  .container (f.title ++ "BeaconBlockBody") (bodyFields p f)

def block (p : Preset) (f : Fork) : Schema :=
  .container (f.title ++ "BeaconBlock") [
    ("slot", uint64), ("proposer_index", uint64), ("parent_root", bytes32),
    ("state_root", bytes32), ("body", blockBody p f)]

def signedBlock (p : Preset) (f : Fork) : Schema :=
  .container ("Signed" ++ f.title ++ "BeaconBlock") [
    ("message", block p f), ("signature", bytes96)]

/-! ## States -/

/-- The fields of a state up to the slashings, which all forks have. -/
def registryFields (p : Preset) : Fields := [
  ("genesis_time", uint64), ("genesis_validators_root", bytes32), ("slot", uint64),
  ("fork", forkRecord), ("latest_block_header", beaconBlockHeader),
  ("block_roots", .vector bytes32 p.slotsPerHistoricalRoot),
  ("state_roots", .vector bytes32 p.slotsPerHistoricalRoot),
  ("historical_roots", .list bytes32 Preset.historicalRootsLimit),
  ("eth1_data", eth1Data),
  ("eth1_data_votes", .list eth1Data (p.epochsPerEth1VotingPeriod * p.slotsPerEpoch)),
  ("eth1_deposit_index", uint64),
  ("validators", .list validator Preset.validatorRegistryLimit),
  ("balances", .list uint64 Preset.validatorRegistryLimit),
  ("randao_mixes", .vector bytes32 p.epochsPerHistoricalVector),
  ("slashings", .vector uint64 p.epochsPerSlashingsVector)]

/-- What a state records of attestations: the attestations themselves in the first fork, flags
per validator in the later ones. -/
def attestationFields (p : Preset) (f : Fork) : Fields :=
  if f = .phase0 then [
    ("previous_epoch_attestations",
      .list pendingAttestation (Preset.maxAttestations * p.slotsPerEpoch)),
    ("current_epoch_attestations",
      .list pendingAttestation (Preset.maxAttestations * p.slotsPerEpoch))]
  else [
    ("previous_epoch_participation", .list uint8 Preset.validatorRegistryLimit),
    ("current_epoch_participation", .list uint8 Preset.validatorRegistryLimit)]

/-- What a state records of finality. -/
def finalityFields : Fields := [
  ("justification_bits", .bitvector Preset.justificationBitsLength),
  ("previous_justified_checkpoint", checkpoint), ("current_justified_checkpoint", checkpoint),
  ("finalized_checkpoint", checkpoint)]

/-- The fields of a state. -/
def stateFields (p : Preset) (f : Fork) : Fields :=
  registryFields p ++ attestationFields p f ++ finalityFields
  ++ (if f.atLeast .altair then
        [("inactivity_scores", .list uint64 Preset.validatorRegistryLimit),
          ("current_sync_committee", syncCommittee p), ("next_sync_committee", syncCommittee p)]
      else [])
  ++ (if f.atLeast .bellatrix then
        [("latest_execution_payload_header", executionPayloadHeader f)]
      else [])
  ++ (if f.atLeast .capella then
        [("next_withdrawal_index", uint64), ("next_withdrawal_validator_index", uint64),
          ("historical_summaries", .list historicalSummary Preset.historicalRootsLimit)]
      else [])

def state (p : Preset) (f : Fork) : Schema :=
  .container (f.title ++ "BeaconState") (stateFields p f)

/-! ## Catalogue -/

/-- The schemas with a name of their own that are not containers. -/
def plainSchemas : List (String × Schema) := [
  ("uint8", uint8), ("uint64", uint64), ("uint256", uint256), ("boolean", .boolean),
  ("Bytes4", bytes4), ("Bytes20", bytes20), ("Bytes32", bytes32), ("Bytes48", bytes48),
  ("Bytes96", bytes96), ("Slot", uint64), ("Epoch", uint64), ("CommitteeIndex", uint64),
  ("ValidatorIndex", uint64), ("Gwei", uint64), ("Root", bytes32), ("Hash32", bytes32),
  ("Version", bytes4), ("DomainType", bytes4), ("Domain", bytes32), ("BLSPubkey", bytes48),
  ("BLSSignature", bytes96), ("ExecutionAddress", bytes20), ("WithdrawalIndex", uint64),
  ("ParticipationFlags", uint8), ("KZGCommitment", bytes48), ("KZGProof", bytes48),
  ("Transaction", transaction), ("Blob", blob)]

/-- The containers that do not change from fork to fork. -/
def sharedContainers (p : Preset) : List Schema := [
  forkRecord, forkData, checkpoint, signingData, validator, attestationData, attestation,
  indexedAttestation, attesterSlashing, pendingAttestation, eth1Data, beaconBlockHeader,
  signedBeaconBlockHeader, proposerSlashing, depositData, deposit, voluntaryExit,
  signedVoluntaryExit, syncCommittee p, syncAggregate p, withdrawal, blsToExecutionChange,
  signedBlsToExecutionChange, historicalSummary, blobSidecar p]

/-- The containers of one fork. -/
def forkContainers (p : Preset) (f : Fork) : List Schema :=
  [blockBody p f, block p f, signedBlock p f, state p f]
  ++ (if f.atLeast .bellatrix then [executionPayload p f, executionPayloadHeader f] else [])

/-- The schema with a given name. -/
def schemaNamed? (p : Preset) (name : String) : Option Schema :=
  match plainSchemas.find? (fun s => s.1 = name) with
  | some s => some s.2
  | none =>
    (sharedContainers p ++ Fork.all.flatMap (forkContainers p)).find? fun τ => τ.typeName = name

/-- What holds of all schemas of the catalogue holds of each named one. -/
theorem of_named {P : Schema → Prop} {p : Preset} {name : String} {τ : Schema}
    (hplain : ∀ s ∈ plainSchemas, P s.2)
    (hcontainers : ∀ σ ∈ sharedContainers p ++ Fork.all.flatMap (forkContainers p), P σ)
    (h : schemaNamed? p name = some τ) : P τ := by
  unfold schemaNamed? at h
  split at h
  · rename_i s hs
    obtain rfl : s.2 = τ := Option.some.inj h
    exact hplain s (List.mem_of_find?_eq_some hs)
  · exact hcontainers τ (List.mem_of_find?_eq_some h)

end BeaconHarness.Consensus
