import BeaconHarness.Failure
import BeaconHarness.Preset

/-!
# Network parameters

What a client has to know of a network: its timing, its fork schedule, and the limits of the
withdrawal sweep. A node publishes them under the names of the fields in capitals. Each field has a
default, and each preset comes with defaults of its own for the fields that it decides.

A configuration gives a field an integer, a fork version of four bytes or a text. A field that is
set by hand takes any datum as it is, and what does not fit shows only where the field is used. The
table `fields` lists all fields in their order together with the way to set them.
-/

namespace BeaconHarness

/-- The parameters of a network. -/
structure Spec where
  configName : Datum := .str "mainnet"
  presetBase : Datum := .str "mainnet"
  secondsPerSlot : Datum := .int Preset.mainnet.secondsPerSlot
  slotsPerEpoch : Datum := .int Preset.mainnet.slotsPerEpoch
  maxEffectiveBalance : Datum := .int Preset.maxEffectiveBalance
  maxValidatorsPerWithdrawalsSweep : Datum := .int Preset.mainnet.maxValidatorsPerWithdrawalsSweep
  maxWithdrawalsPerPayload : Datum := .int Preset.mainnet.maxWithdrawalsPerPayload
  eth1AddressWithdrawalPrefix : Datum := .int Preset.eth1AddressWithdrawalPrefix
  genesisForkVersion : Datum := .bytes [0, 0, 0, 0]
  altairForkVersion : Datum := .bytes [1, 0, 0, 0]
  altairForkEpoch : Datum := .int Preset.farFutureEpoch
  bellatrixForkVersion : Datum := .bytes [2, 0, 0, 0]
  bellatrixForkEpoch : Datum := .int Preset.farFutureEpoch
  capellaForkVersion : Datum := .bytes [3, 0, 0, 0]
  capellaForkEpoch : Datum := .int Preset.farFutureEpoch
  denebForkVersion : Datum := .bytes [4, 0, 0, 0]
  denebForkEpoch : Datum := .int Preset.farFutureEpoch
  deriving Inhabited

namespace Spec

/-- The parameters a preset starts from. -/
def ofPreset (p : Preset) : Spec where
  configName := .str p.name
  presetBase := .str p.name
  secondsPerSlot := .int p.secondsPerSlot
  slotsPerEpoch := .int p.slotsPerEpoch
  maxValidatorsPerWithdrawalsSweep := .int p.maxValidatorsPerWithdrawalsSweep
  maxWithdrawalsPerPayload := .int p.maxWithdrawalsPerPayload

/-! ## Fields -/

/-- What a configuration gives a field. -/
inductive Form where
  | text
  | number
  | version
  deriving DecidableEq, Repr

/-- A field: its name, what a configuration gives it, and the ways to get and to set it. -/
structure Field where
  name : String
  form : Form
  get : Spec → Datum
  set : Spec → Datum → Spec

/-- All fields in their order. -/
def fields : List Field := [
  ⟨"config_name", .text, configName, fun s v => { s with configName := v }⟩,
  ⟨"preset_base", .text, presetBase, fun s v => { s with presetBase := v }⟩,
  ⟨"seconds_per_slot", .number, secondsPerSlot, fun s v => { s with secondsPerSlot := v }⟩,
  ⟨"slots_per_epoch", .number, slotsPerEpoch, fun s v => { s with slotsPerEpoch := v }⟩,
  ⟨"max_effective_balance", .number, maxEffectiveBalance,
    fun s v => { s with maxEffectiveBalance := v }⟩,
  ⟨"max_validators_per_withdrawals_sweep", .number, maxValidatorsPerWithdrawalsSweep,
    fun s v => { s with maxValidatorsPerWithdrawalsSweep := v }⟩,
  ⟨"max_withdrawals_per_payload", .number, maxWithdrawalsPerPayload,
    fun s v => { s with maxWithdrawalsPerPayload := v }⟩,
  ⟨"eth1_address_withdrawal_prefix", .number, eth1AddressWithdrawalPrefix,
    fun s v => { s with eth1AddressWithdrawalPrefix := v }⟩,
  ⟨"genesis_fork_version", .version, genesisForkVersion,
    fun s v => { s with genesisForkVersion := v }⟩,
  ⟨"altair_fork_version", .version, altairForkVersion,
    fun s v => { s with altairForkVersion := v }⟩,
  ⟨"altair_fork_epoch", .number, altairForkEpoch, fun s v => { s with altairForkEpoch := v }⟩,
  ⟨"bellatrix_fork_version", .version, bellatrixForkVersion,
    fun s v => { s with bellatrixForkVersion := v }⟩,
  ⟨"bellatrix_fork_epoch", .number, bellatrixForkEpoch,
    fun s v => { s with bellatrixForkEpoch := v }⟩,
  ⟨"capella_fork_version", .version, capellaForkVersion,
    fun s v => { s with capellaForkVersion := v }⟩,
  ⟨"capella_fork_epoch", .number, capellaForkEpoch, fun s v => { s with capellaForkEpoch := v }⟩,
  ⟨"deneb_fork_version", .version, denebForkVersion, fun s v => { s with denebForkVersion := v }⟩,
  ⟨"deneb_fork_epoch", .number, denebForkEpoch, fun s v => { s with denebForkEpoch := v }⟩]

/-- The parameters as a mapping from the names of the fields. -/
def toDatum (s : Spec) : Datum := .record (fields.map fun f => (f.name, f.get s))

/-- The parameters with some fields set by name; an unknown name is refused. -/
def override (s : Spec) : List (String × Datum) → Except Failure Spec
  | [] => .ok s
  | (name, d) :: rest =>
    match fields.find? (fun f => f.name = name) with
    | none => .error .wrongKind
    | some f => (f.set s d).override rest

end Spec

end BeaconHarness
