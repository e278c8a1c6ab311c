import BeaconHarness.Engine.Payload
import BeaconHarness.Versioned

/-!
# Signed beacon blocks

One view of the signed blocks of all forks. A part that the block's fork does not have is absent,
and handing over an execution payload before there are any is a failure.
-/

namespace BeaconHarness.VersionedBlock

open Ssz (Object)

/-! ## Parts -/

def message (b : VersionedBlock) : Object := b.object.field "message"

def body (b : VersionedBlock) : Object := b.message.field "body"

/-- The root of the block, which is that of its message. -/
def root (b : VersionedBlock) : Bytes := b.message.root

def slot (b : VersionedBlock) : Nat := (b.message.field "slot").toNat

def parentRoot (b : VersionedBlock) : Object := b.message.field "parent_root"

/-- Whether the block has an execution payload. -/
def containsPayload (b : VersionedBlock) : Bool := b.fork.atLeast .bellatrix

/-- Whether the block has commitments to blobs. -/
def containsCommitments (b : VersionedBlock) : Bool := b.fork.atLeast .deneb

/-- The execution payload of a block that has one. -/
def payload (b : VersionedBlock) : Object := b.body.field "execution_payload"

def syncAggregate (b : VersionedBlock) : Option Object := b.since .altair b.body "sync_aggregate"

/-- The hash of the block's execution payload. -/
def payloadHash (b : VersionedBlock) : Option Bytes :=
  if b.containsPayload then some (b.payload.field "block_hash").toBytes else none

/-- Whether the block's execution payload exists and is not the empty one. -/
def isFilled (b : VersionedBlock) : Bool :=
  match b.payloadHash with
  | some h => h ≠ Signing.zeroRoot
  | none => false

def commitments (b : VersionedBlock) : Option Object :=
  b.since .deneb b.body "blob_kzg_commitments"

def withdrawals (b : VersionedBlock) : Option Object :=
  if b.fork.atLeast .capella then some (b.payload.field "withdrawals") else none

def blsToExecutionChanges (b : VersionedBlock) : Option Object :=
  b.since .capella b.body "bls_to_execution_changes"

/-! ## Parts by name -/

/-- The names of the parts of a block, apart from its message and body. -/
def partNames : List String := [
  "state_root", "parent_root", "slot", "proposer_index", "signature", "graffiti",
  "voluntary_exits", "sync_aggregate", "contains_execution_payload", "contains_kzg_commitments",
  "execution_payload_block_hash", "kzg_commitments", "withdrawals", "bls_to_execution_changes"]

/-- A part of a block by name; null stands for one that the block's fork does not have. -/
def part (b : VersionedBlock) (name : String) : Except Failure Datum :=
  match name with
  | "version" => .ok (.fork b.fork)
  | "root" => .ok (.bytes b.root)
  | "encode_bytes" => .ok (.bytes b.encode)
  | "data" => .ok (.ssz b.object)
  | "message" => .ok (.ssz b.message)
  | "body" => .ok (.ssz b.body)
  | "state_root" | "parent_root" | "slot" | "proposer_index" => .ok (.ssz (b.message.field name))
  | "signature" => .ok (.ssz (b.object.field "signature"))
  | "graffiti" | "voluntary_exits" => .ok (.ssz (b.body.field name))
  | "sync_aggregate" => .ok (.orNull .ssz b.syncAggregate)
  | "contains_execution_payload" => .ok (.bool b.containsPayload)
  | "contains_kzg_commitments" => .ok (.bool b.containsCommitments)
  | "execution_payload_block_hash" => .ok (.orNull .bytes b.payloadHash)
  | "kzg_commitments" => .ok (.orNull .ssz b.commitments)
  | "withdrawals" => .ok (.orNull .ssz b.withdrawals)
  | "bls_to_execution_changes" => .ok (.orNull .ssz b.blsToExecutionChanges)
  | _ => .error .noProperty

/-! ## The Engine API's view -/

/-- What the Engine API takes of a block: its payload and, from the fork that introduced blobs,
the versioned hashes of its commitments and its parent's root. -/
structure Execution where
  payload : Engine.Payload
  versionedHashes : Option (List Bytes)
  parentBeaconRoot : Option Bytes

/-- The Engine API's view of the block. -/
def execution (b : VersionedBlock) : Except Failure Execution := do
  b.require .bellatrix "execution_payload"
  return {
    payload := Engine.Payload.ofObject b.payload
    versionedHashes := b.commitments.map fun cs =>
      cs.value.parts.map fun c => Signing.versionedHash c.toBytes
    parentBeaconRoot := if b.containsCommitments then some b.parentRoot.toBytes else none }

/-- The text that identifies a block in messages. -/
def describe (b : VersionedBlock) : String :=
  PayloadKind.block.title ++ "(" ++ b.fork.name ++ ", slot=" ++ toString b.slot ++ ")"

end BeaconHarness.VersionedBlock
