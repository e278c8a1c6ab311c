/-!
# Presets

Sizes that shape the schemas and the withdrawal sweep. There are two sets of them, one for the
main network and one, much smaller, for test networks. What does not depend on the set is a
constant.
-/

namespace BeaconHarness

/-- A set of sizes. -/
inductive Preset where
  | mainnet
  | minimal
  deriving DecidableEq, Repr, Inhabited

namespace Preset

/-- The name of a preset. -/
def name : Preset → String
  | mainnet => "mainnet"
  | minimal => "minimal"

/-- The preset with a given name. -/
def ofName? (s : String) : Option Preset :=
  if s = "mainnet" then some mainnet else if s = "minimal" then some minimal else none

/-- The sizes that go with any name: those of the main network for its own name, and the smaller
ones for every other. -/
def sizesFor (s : String) : Preset := if s = "mainnet" then mainnet else minimal

/-- A size that differs between the two sets. -/
def pick (p : Preset) (onMainnet onMinimal : Nat) : Nat :=
  match p with
  | mainnet => onMainnet
  | minimal => onMinimal

/-! ## Sizes that depend on the preset -/

def slotsPerEpoch (p : Preset) : Nat := p.pick 32 8

def epochsPerHistoricalVector (p : Preset) : Nat := p.pick 65536 64

def epochsPerSlashingsVector (p : Preset) : Nat := p.pick 8192 64

def epochsPerEth1VotingPeriod (p : Preset) : Nat := p.pick 64 4

def slotsPerHistoricalRoot (p : Preset) : Nat := p.pick 8192 64

def syncCommitteeSize (p : Preset) : Nat := p.pick 512 32

def maxValidatorsPerWithdrawalsSweep (p : Preset) : Nat := p.pick 16384 16

def maxWithdrawalsPerPayload (p : Preset) : Nat := p.pick 16 4

def maxBlobCommitmentsPerBlock (p : Preset) : Nat := p.pick 4096 32

def kzgCommitmentInclusionProofDepth (p : Preset) : Nat := p.pick 17 10

/-- The default slot duration. It belongs to a network's configuration, but each preset comes with
one. -/
def secondsPerSlot (p : Preset) : Nat := p.pick 12 6

/-! ## Constants -/

def genesisSlot : Nat := 0

def farFutureEpoch : Nat := 0xffffffffffffffff

def justificationBitsLength : Nat := 4

def historicalRootsLimit : Nat := 0x1000000

def validatorRegistryLimit : Nat := 0x10000000000

def maxValidatorsPerCommittee : Nat := 2048

def maxProposerSlashings : Nat := 16

def maxAttesterSlashings : Nat := 2

def maxAttestations : Nat := 128

def maxDeposits : Nat := 16

def maxVoluntaryExits : Nat := 16

def maxEffectiveBalance : Nat := 32000000000

def depositContractTreeDepth : Nat := 32

def bytesPerLogsBloom : Nat := 256

def maxExtraDataBytes : Nat := 32

def maxBytesPerTransaction : Nat := 0x40000000

def maxTransactionsPerPayload : Nat := 0x100000

def maxBlsToExecutionChanges : Nat := 16

/-- The first byte of withdrawal credentials that name an execution address. -/
def eth1AddressWithdrawalPrefix : Nat := 1

def fieldElementsPerBlob : Nat := 4096

def bytesPerFieldElement : Nat := 32

/-- The first byte of a versioned hash. -/
def versionedHashVersionKzg : Nat := 1

/-- The domain type of a voluntary exit. -/
def domainVoluntaryExit : List UInt8 := [4, 0, 0, 0]

/-- The domain type of a change of withdrawal credentials. -/
def domainBlsToExecutionChange : List UInt8 := [10, 0, 0, 0]

/-! ## Catalogue -/

/-- What a named size is. -/
inductive Entry where
  /-- A number of the network. -/
  | number (n : Nat)
  /-- A byte string of the network. -/
  | bytes (b : List UInt8)
  /-- A number that the preset in use decides. -/
  | byPreset (size : Preset → Nat)
  /-- A number that the preset in use decides, or one asked for by name. -/
  | byName (size : Preset → Nat)

/-- The published names of sizes and constants. -/
def catalogue : List (String × Entry) := [
  ("GENESIS_SLOT", .number genesisSlot),
  ("FAR_FUTURE_EPOCH", .number farFutureEpoch),
  ("SLOTS_PER_EPOCH", .byName slotsPerEpoch),
  ("EPOCHS_PER_HISTORICAL_VECTOR", .byPreset epochsPerHistoricalVector),
  ("EPOCHS_PER_SLASHINGS_VECTOR", .byPreset epochsPerSlashingsVector),
  ("EPOCHS_PER_ETH1_VOTING_PERIOD", .byPreset epochsPerEth1VotingPeriod),
  ("SLOTS_PER_HISTORICAL_ROOT", .byPreset slotsPerHistoricalRoot),
  ("JUSTIFICATION_BITS_LENGTH", .number justificationBitsLength),
  ("HISTORICAL_ROOTS_LIMIT", .number historicalRootsLimit),
  ("VALIDATOR_REGISTRY_LIMIT", .number validatorRegistryLimit),
  ("MAX_VALIDATORS_PER_COMMITTEE", .number maxValidatorsPerCommittee),
  ("MAX_PROPOSER_SLASHINGS", .number maxProposerSlashings),
  ("MAX_ATTESTER_SLASHINGS", .number maxAttesterSlashings),
  ("MAX_ATTESTATIONS", .number maxAttestations),
  ("MAX_DEPOSITS", .number maxDeposits),
  ("MAX_VOLUNTARY_EXITS", .number maxVoluntaryExits),
  ("MAX_EFFECTIVE_BALANCE", .number maxEffectiveBalance),
  ("DEPOSIT_CONTRACT_TREE_DEPTH", .number depositContractTreeDepth),
  ("DOMAIN_VOLUNTARY_EXIT", .bytes domainVoluntaryExit),
  ("SYNC_COMMITTEE_SIZE", .byPreset syncCommitteeSize),
  ("BYTES_PER_LOGS_BLOOM", .number bytesPerLogsBloom),
  ("MAX_EXTRA_DATA_BYTES", .number maxExtraDataBytes),
  ("MAX_BYTES_PER_TRANSACTION", .number maxBytesPerTransaction),
  ("MAX_TRANSACTIONS_PER_PAYLOAD", .number maxTransactionsPerPayload),
  ("MAX_BLS_TO_EXECUTION_CHANGES", .number maxBlsToExecutionChanges),
  ("MAX_VALIDATORS_PER_WITHDRAWALS_SWEEP", .byName maxValidatorsPerWithdrawalsSweep),
  ("MAX_WITHDRAWALS_PER_PAYLOAD", .byName maxWithdrawalsPerPayload),
  ("DOMAIN_BLS_TO_EXECUTION_CHANGE", .bytes domainBlsToExecutionChange),
  ("ETH1_ADDRESS_WITHDRAWAL_PREFIX", .number eth1AddressWithdrawalPrefix),
  ("MAX_BLOB_COMMITMENTS_PER_BLOCK", .byPreset maxBlobCommitmentsPerBlock),
  ("KZG_COMMITMENT_INCLUSION_PROOF_DEPTH", .byPreset kzgCommitmentInclusionProofDepth),
  ("FIELD_ELEMENTS_PER_BLOB", .number fieldElementsPerBlob),
  ("BYTES_PER_FIELD_ELEMENT", .number bytesPerFieldElement),
  ("VERSIONED_HASH_VERSION_KZG", .number versionedHashVersionKzg)]

theorem ofName?_name (p : Preset) : ofName? p.name = some p := by cases p <;> decide

end Preset

end BeaconHarness
