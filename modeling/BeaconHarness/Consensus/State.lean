import BeaconHarness.Versioned

/-!
# Beacon states

One view of the states of all forks. A field that the state's fork does not have is absent; the
withdrawal cursors then read as zero and the hash of the last payload as the zero root. Asking for
the next withdrawals before there are execution payloads is a failure.
-/

namespace BeaconHarness.VersionedState

open Ssz (Object)
open Consensus (Validator Withdrawal)

/-- The forks at which a field of the state can be read. -/
inductive Presence where
  | always
  | before (f : Fork)
  | since (f : Fork)
  deriving DecidableEq, Repr

/-- Whether a field can be read at a fork. -/
def Presence.holdsAt (p : Presence) (f : Fork) : Bool :=
  match p with
  | always => true
  | before g => !f.atLeast g
  | since g => f.atLeast g

/-- The fields of a state and the forks that have them. -/
def presence : List (String × Presence) := [
  ("genesis_time", .always), ("genesis_validators_root", .always), ("slot", .always),
  ("fork", .always), ("latest_block_header", .always), ("block_roots", .always),
  ("state_roots", .always), ("historical_roots", .always), ("eth1_data", .always),
  ("eth1_data_votes", .always), ("eth1_deposit_index", .always), ("validators", .always),
  ("balances", .always), ("randao_mixes", .always), ("slashings", .always),
  ("justification_bits", .always), ("previous_justified_checkpoint", .always),
  ("current_justified_checkpoint", .always), ("finalized_checkpoint", .always),
  ("previous_epoch_attestations", .before .altair),
  ("current_epoch_attestations", .before .altair),
  ("previous_epoch_participation", .since .altair),
  ("current_epoch_participation", .since .altair), ("inactivity_scores", .since .altair),
  ("current_sync_committee", .since .altair), ("next_sync_committee", .since .altair),
  ("latest_execution_payload_header", .since .bellatrix),
  ("historical_summaries", .since .capella)]

/-- The field of a state, absent where the state's fork does not have it. -/
def field? (s : VersionedState) (name : String) : Option Object :=
  match presence.find? (fun e => e.1 = name) with
  | some e => if e.2.holdsAt s.fork then some (s.object.field name) else none
  | none => none

/-- The root of the state. -/
def root (s : VersionedState) : Bytes := s.object.root

/-- The slot of the state. -/
def slot (s : VersionedState) : Nat := (s.object.field "slot").toNat

/-- The version of the state's fork. -/
def currentVersion (s : VersionedState) : Object := (s.object.field "fork").field "current_version"

/-- The version of the fork before it. -/
def previousVersion (s : VersionedState) : Object :=
  (s.object.field "fork").field "previous_version"

/-- The validator registry. -/
def validators (s : VersionedState) : List Validator :=
  (s.object.field "validators").value.parts.map fun v => (Validator.ofValue? v).getD default

/-- The balances of the registry. -/
def balances (s : VersionedState) : List Nat :=
  (s.object.field "balances").value.parts.map Ssz.Value.toNat

/-- The balance at a position. -/
def balance (s : VersionedState) (index : Int) : Except Failure Nat :=
  let balances := s.balances
  if index < 0 || (balances.length : Int) ≤ index then
    .error (.validatorIndex (.int index) s.validators.length (some balances.length))
  else .ok (balances.getD index.toNat 0)

/-- The balance at a position that is yet to be checked. Any number is compared with the ends of the
registry, and only then has to be an integer. -/
def balanceAt (s : VersionedState) (index : Datum) : Except Failure Nat :=
  match index.number? with
  | none => .error .wrongKind
  | some (.int n) => s.balance n
  | some (.float x) => do
    let count := s.balances.length
    if (← index.isBelow (.int 0)) || (← Datum.isAtMost (.int count) index) then
      .error (.validatorIndex (.float x) s.validators.length (some count))
    else .error .malformed

/-- The hash of the last execution payload, or the zero root. -/
def latestPayloadHash (s : VersionedState) : Bytes :=
  match s.since .bellatrix s.object "latest_execution_payload_header" with
  | some header => (header.field "block_hash").toBytes
  | none => Signing.zeroRoot

/-- The number of the next withdrawal. -/
def nextWithdrawalIndex (s : VersionedState) : Nat :=
  match s.since .capella s.object "next_withdrawal_index" with
  | some x => x.toNat
  | none => 0

/-- The position where the next withdrawal sweep starts. -/
def nextWithdrawalValidatorIndex (s : VersionedState) : Nat :=
  match s.since .capella s.object "next_withdrawal_validator_index" with
  | some x => x.toNat
  | none => 0

/-- What a withdrawal sweep over the state goes over. -/
def registry (s : VersionedState) : Withdrawals.Registry where
  validators := s.validators
  balances := s.balances.map fun (n : Nat) => Datum.int n

/-- The withdrawals that a block at a slot built on the state has to carry. -/
def nextWithdrawals (s : VersionedState) (slot : Int) (spec : Spec) :
    Except Failure (List Withdrawal) := do
  s.require .bellatrix "next_withdrawals"
  let epoch ← spec.slotToEpoch slot
  s.registry.sweep (.int s.nextWithdrawalIndex) (.int s.nextWithdrawalValidatorIndex) epoch spec

/-- The withdrawals at a slot that is yet to be checked. -/
def nextWithdrawalsAt (s : VersionedState) (slot : Datum) (spec : Spec) :
    Except Failure (List Withdrawal) := do
  s.require .bellatrix "next_withdrawals"
  s.nextWithdrawals (← slot.plainInteger) spec

/-! ## Parts by name -/

/-- The names of all parts of a state, in the order of its fields. -/
def partNames : List String := [
  "genesis_time", "genesis_validators_root", "fork", "current_version", "previous_version", "slot",
  "latest_block_header", "block_roots", "state_roots", "historical_roots", "eth1_data",
  "eth1_data_votes", "eth1_deposit_index", "validators", "balances", "randao_mixes", "slashings",
  "justification_bits", "previous_justified_checkpoint", "current_justified_checkpoint",
  "finalized_checkpoint", "previous_epoch_attestations", "current_epoch_attestations",
  "previous_epoch_participation", "current_epoch_participation", "inactivity_scores",
  "current_sync_committee", "next_sync_committee", "latest_execution_payload_header",
  "latest_execution_payload_header_hash", "next_withdrawal_index",
  "next_withdrawal_validator_index", "historical_summaries"]

/-- A part of a state by name; null stands for a field that the state's fork does not have. -/
def part (s : VersionedState) (name : String) : Except Failure Datum :=
  match name with
  | "version" => .ok (.fork s.fork)
  | "root" => .ok (.bytes s.root)
  | "encode_bytes" => .ok (.bytes s.encode)
  | "data" => .ok (.ssz s.object)
  | "current_version" => .ok (.ssz s.currentVersion)
  | "previous_version" => .ok (.ssz s.previousVersion)
  | "latest_execution_payload_header_hash" => .ok (.bytes s.latestPayloadHash)
  | "next_withdrawal_index" => .ok (.int s.nextWithdrawalIndex)
  | "next_withdrawal_validator_index" => .ok (.int s.nextWithdrawalValidatorIndex)
  | name =>
    if partNames.contains name then .ok (.orNull .ssz (s.field? name)) else .error .noProperty

/-- The text that identifies a state in messages. -/
def describe (s : VersionedState) : String :=
  PayloadKind.state.title ++ "(" ++ s.fork.name ++ ", slot=" ++ toString s.slot ++ ")"

end BeaconHarness.VersionedState
