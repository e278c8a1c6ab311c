import BeaconHarness.Node.Client

/-!
# Walks along the chain

Searches for blocks by slot and by payload hash, a count of blocks per epoch, and the summary of a
node's head. A search goes over one slot after another; slots whose block is missing, or fails
to come for a while where the search allows for that, are passed over.
-/

namespace BeaconHarness.Client

open Node (Link Line HeaderInfo)

/-! ## Searches -/

/-- The block of a slot, if it comes and is the one sought. A failure of the given kinds passes
over the slot. -/
def blockIf (c : Client) (passOver : List FailureKind) (sought : VersionedBlock → Bool)
    (slot : Nat) : Job (Option VersionedBlock) := do
  match ← Work.attempt (c.endpoint.block (.int slot)) with
  | .error e => if e.isOneOf passOver then return none else Work.fail e
  | .ok block => return if sought block then some block else none

/-- The first block sought among the slots from `slot` down to 1. -/
def searchDown (c : Client) (passOver : List FailureKind) (sought : VersionedBlock → Bool) :
    (slot : Nat) → Job (Option VersionedBlock)
  | 0 => return none
  | slot + 1 => do
    match ← c.blockIf passOver sought (slot + 1) with
    | some block => return some block
    | none => c.searchDown passOver sought slot

/-- The first block sought among `count` slots from `slot` upwards. -/
def searchUp (c : Client) (passOver : List FailureKind) (sought : VersionedBlock → Bool) :
    (count slot : Nat) → Job (Option VersionedBlock)
  | 0, _ => return none
  | count + 1, slot => do
    match ← c.blockIf passOver sought slot with
    | some block => return some block
    | none => c.searchUp passOver sought count (slot + 1)

/-- The latest block with a payload, from the head back. Only a missing block is passed over. -/
def latestExecutionBlock (c : Client) : Job (Option VersionedBlock) := do
  let head ← c.endpoint.header (.str "head")
  c.searchDown [.notFound] VersionedBlock.isFilled head.slot

/-- The earliest block with a payload, up to the slot at the time of day. -/
def firstExecutionBlock (c : Client) : Job (Option VersionedBlock) := do
  match (← c.currentSlot).exactInteger? with
  | some last => c.searchUp transientKinds VersionedBlock.isFilled (last + 1).toNat 0
  -- A slot that is no whole number by its sort ends no range.
  | none => Work.fail .wrongKind

/-- The block whose payload has a given hash, from the head back. -/
def blockByExecutionHash (c : Client) (hash : Datum) : Job (Option VersionedBlock) := do
  let head ← c.endpoint.header (.str "head")
  let hash ← Work.ofExcept hash.toBytes
  c.searchDown transientKinds (fun block => block.payloadHash = some hash) head.slot

/-! ## Blocks per epoch -/

/-- Counts one more under a number, which is put behind the others when it is new. -/
def countMore (epoch : Datum) : List (Datum × Nat) → List (Datum × Nat)
  | [] => [(epoch, 1)]
  | (e, n) :: rest => if e.same epoch then (e, n + 1) :: rest else (e, n) :: countMore epoch rest

/-- Counts a header and its ancestors by epoch. -/
def countAncestors (c : Client) (spec : Spec) :
    (rounds : Nat) → List (Datum × Nat) → HeaderInfo → Job (List (Datum × Nat))
  | 0, _, _ => Work.unsettled
  | rounds + 1, counts, header => do
    let message := header.header.message
    let epoch ← Work.ofExcept (spec.slotToEpoch message.slot)
    let counts := countMore epoch counts
    -- The root of zeros stands for "no parent".
    if message.parentRoot = Signing.zeroRoot then return counts
    else
      let parent ← c.endpoint.header (.bytes message.parentRoot)
      c.countAncestors spec rounds counts parent

/-- How many headers a chain can have before it repeats itself: between two replies that are used
up, no route is asked twice. -/
def longestChain (remote : Node.Remote) : Nat :=
  (remote.replyCount + 1) * (remote.routes.length + 1) + 1

/-- The number of blocks in each epoch, from the head back to the block without a parent. -/
def blocksPerEpoch (c : Client) : Job (List (Datum × Nat)) := do
  let spec ← c.spec
  let link ← Work.world
  let head ← c.endpoint.header (.str "head")
  c.countAncestors spec (longestChain link.remote) [] head

/-! ## Status -/

/-- What work ends with, or another value after a failure that may pass. -/
def orWhenTransient {α : Type} (otherwise : α) (work : Job α) : Job α := do
  match ← Work.attempt work with
  | .ok a => return a
  | .error e => if e.isTransient then return otherwise else Work.fail e

/-- Slot and root of the head as the summary shows them. -/
def headStatus (c : Client) : Job (Nat × String) := do
  let header ← c.endpoint.header (.str "head")
  return (header.slot, shortenBytes header.root)

/-- The roots of the checkpoints as the summary shows them. -/
def finalityStatus (c : Client) : Job (String × String) := do
  let checkpoints ← c.blockFinality (.str "head")
  return (shortenBytes checkpoints.currentJustified.root, shortenBytes checkpoints.finalized.root)

/-- The abbreviated hash of a payload that is not there. -/
def noPayload : String := "0x0000..0000"

/-- Fork and payload hash of the head block as the summary shows them. -/
def blockStatus (c : Client) : Job (String × String) := do
  let block ← c.endpoint.block (.str "head")
  return (block.fork.name, (block.payloadHash.map shortenBytes).getD noPayload)

/-- A summary of the node's head in one line. A part that does not come for a while stays blank. -/
def statusLine (c : Client) : Job String := do
  let (slot, head) ← orWhenTransient (0, "") c.headStatus
  let (justified, finalized) ← orWhenTransient ("", "") c.finalityStatus
  let (fork, execution) ← orWhenTransient ("", noPayload) c.blockStatus
  return "fork=" ++ fork ++ ", slot=" ++ toString slot ++ ", head=" ++ head ++ ", exec_payload="
    ++ execution ++ ", justified=" ++ justified ++ ", finalized=" ++ finalized

end BeaconHarness.Client
