import BeaconHarness.Network.Config
import BeaconHarness.Node.Address
import BeaconHarness.Node.Api
import BeaconHarness.Node.ClientConfig
import BeaconHarness.Settings
import BeaconHarness.Wait.Poll
import BeaconHarness.Wait.Together

/-!
# Clients

A client speaks to one node, together with what it knows of the node's network: the parameters and
the genesis. What it was not told it fetches from the node before anything else; whatever depends
on time or on the network fails until then.

Waits ask once per slot. A wait that is not bounded by a deadline goes on as long as replies of the
node may still differ from those it has had; from then on it could only go on for ever.
-/

namespace BeaconHarness

/-- A client of one node. -/
structure Client where
  endpoint : Node.Endpoint
  name : Datum := .str "beacon"
  settings : Settings := {}
  /-- The time of day at the start of the clock, in ticks. -/
  timeOfDay : Int := 0
  deriving Inhabited

namespace Client

open Node (Link Line logInfo HeaderInfo)

/-- Work of a client. -/
abbrev Job (α : Type) := Node.Job ClientConfig α

variable {α : Type}

/-! ## What the client knows -/

/-- The configuration as it is. -/
def config : Job ClientConfig := do return (← Work.world).own

/-- How messages name the client. -/
def labelOf (c : Client) (cfg : ClientConfig) : String :=
  "beacon " ++ cfg.clientIndex.display ++ " (" ++ c.name.display ++ ")"

/-- How messages name the client as it is. -/
def label (c : Client) : Job String := do return c.labelOf (← config)

/-- What has been resolved, or the failure that tells what has not. -/
def resolved (c : Client) (missing : String) : Option α → Job α
  | some a => return a
  | none => do
    let label ← c.label
    Work.fail (.notInitialized (label ++ ": " ++ missing ++ " not resolved, call init() first"))

/-- The network parameters. -/
def spec (c : Client) : Job Spec := do c.resolved "spec" (← config).spec

/-- The genesis time. -/
def genesisTime (c : Client) : Job Datum := do c.resolved "genesis" (← config).genesisTime

/-- The genesis validators root. -/
def genesisValidatorsRoot (c : Client) : Job Bytes := do
  c.resolved "genesis" (← config).genesisValidatorsRoot

/-- The time of day in whole seconds, by a clock of floating-point seconds. -/
def wallClock (c : Client) : Job Datum := do
  let seconds := secondsOfTicks (c.timeOfDay + (← Work.clock))
  return .int (seconds.truncate?.getD 0)

/-- The slot at the time of day. -/
def currentSlot (c : Client) : Job Datum := do
  let spec ← c.spec
  let time ← c.wallClock
  let genesisTime ← c.genesisTime
  Work.ofExcept (spec.timeToSlot time genesisTime)

/-! ## Rounds -/

/-- Hands over how many rounds are enough: one for each reply that is set up, one for each tick up
to the last alarm or the deadline, and two for the ends. -/
def withRounds (limit : Option Work.Limit) (work : Nat → Job α) : Job α := fun alarms s =>
  let deadline := match limit with
    | some l => s.now + l.span
    | none => 0
  let waiting := alarms.foldr (fun a time => max a.time time) deadline - s.now
  work (s.world.remote.replyCount + waiting + 2) alarms s

/-! ## Initialization -/

/-- Fetches the parameters, which have to be of the preset in use. -/
def resolveSpec (c : Client) : Job Unit := do
  let data ← withRounds none fun rounds =>
    Work.retryUntilReady rounds (Work.sleepFor c.settings.initPollInterval) transientKinds do
      let data ← c.endpoint.spec
      return if data.truthy then some data else none
  let spec ← Work.ofExcept (Spec.ofConfig data)
  let preset := c.endpoint.preset.name
  if !spec.presetBase.same (.str preset) then
    Work.fail (.config (.presetMismatch (← c.label) spec.presetBase.display preset))
  else Work.change fun link => { link with own := { link.own with spec := some spec } }

/-- Fetches the genesis. -/
def resolveGenesis (c : Client) : Job Unit := do
  let genesis ← withRounds none fun rounds =>
    Work.retryUntilReady rounds (Work.sleepFor c.settings.initPollInterval) transientKinds do
      return some (← c.endpoint.genesis)
  -- Time and root always come from one answer, also when only one of them was missing.
  Work.change fun link => { link with own := { link.own with
    genesisTime := some (.int genesis.time)
    genesisValidatorsRoot := some genesis.validatorsRoot } }

/-- The message after a successful initialization. -/
def initMessage (label : String) (cfg : ClientConfig) : String :=
  label ++ ": initialized, config=" ++ ((cfg.spec.map fun s => s.configName.display).getD "")
    ++ ", genesis_time=" ++ cfg.shownGenesisTime

/-- Fetches what the client was not told, both parts together. -/
def init (c : Client) (limit : Datum) : Job Unit := do
  let cfg ← config
  let label ← c.label
  let tasks := (if cfg.spec.isNone then [c.resolveSpec] else [])
    ++ (if cfg.genesisTime.isNone || cfg.genesisValidatorsRoot.isNone then [c.resolveGenesis]
        else [])
  if tasks.isEmpty then return
  else
    let _ ← Work.resolveAll limit.limit (label ++ " init") tasks
    logInfo (initMessage label (← config))

/-! ## Waits -/

/-- Lets one slot pass. -/
def awaitSlot (spec : Spec) : Job Unit := Work.sleepFor spec.secondsPerSlot

/-- The hash of a block's payload, or the zero root. -/
def payloadHashOf (block : VersionedBlock) : Bytes :=
  block.payloadHash.getD Signing.zeroRoot

/-- The message of a look at the head. -/
def headMessage (label : String) (head : HeaderInfo) (slot : Datum) (execution : Bytes) : String :=
  "WaitForExecutionPayload: " ++ label ++ ": slot=" ++ toString head.slot ++ ", realTimeSlot="
    ++ slot.display ++ ", head=" ++ shortenBytes head.root ++ ", exec=" ++ shortenBytes execution

/-- Looks whether the canonical head has a payload, and gives its hash. -/
def checkHead (c : Client) (spec : Spec) (genesisTime : Datum) : Job (Option Bytes) := do
  let slot ← Work.ofExcept (spec.timeToSlot (← c.wallClock) genesisTime)
  -- A head that does not come ends the wait; a block that does not is asked for again.
  let head ← c.endpoint.header (.str "head")
  if !head.canonical then return none
  else
    match ← Work.attempt (c.endpoint.block (.bytes head.root)) with
    | .error e => if e.isTransient then return none else Work.fail e
    | .ok block =>
      let execution := payloadHashOf block
      logInfo (headMessage (← c.label) head slot execution)
      return if execution ≠ Signing.zeroRoot then some execution else none

/-- Waits until the canonical head has a payload, and gives its hash. -/
def waitForExecutionPayload (c : Client) (limit : Datum) : Job Bytes := do
  let spec ← c.spec
  let genesisTime ← c.genesisTime
  let label ← c.label
  logInfo ("Waiting for execution payload on " ++ label)
  let limit ← Work.ofExcept limit.limit
  withRounds limit fun rounds =>
    Work.pollUntil rounds (awaitSlot spec) limit ("execution payload on " ++ label) []
      (c.checkHead spec genesisTime)

/-- The kinds of failure after which a flag is asked for again. -/
def flagKinds : List FailureKind := transientKinds ++ [.unreadable]

/-- Looks whether the flag of a block is the wanted one, and gives the block's header. -/
def checkFlag (c : Client) (id wanted : Datum) : Job (Option HeaderInfo) := do
  match ← Work.attempt (c.endpoint.isOptimistic id) with
  | .error e => if e.isOneOf flagKinds then return none else Work.fail e
  | .ok flag =>
    if wanted.same (.bool (flag.getD false)) then return some (← c.endpoint.header id)
    else return none

/-- Waits until the flag of a block is the wanted one, and gives the block's header. -/
def waitForOptimisticState (c : Client) (id wanted limit : Datum) : Job HeaderInfo := do
  let spec ← c.spec
  let label ← c.label
  logInfo ("Waiting for optimistic sync on " ++ label)
  let what := "optimistic=" ++ wanted.display ++ " for block " ++ id.display ++ " on " ++ label
  let limit ← Work.ofExcept limit.limit
  withRounds limit fun rounds =>
    Work.pollUntil rounds (awaitSlot spec) limit what [] (c.checkFlag id wanted)

/-! ## Lookups -/

/-- The state after a block, found by the state root in the block's header. -/
def stateByBlock (c : Client) (id : Datum) : Job VersionedState := do
  let header ← c.endpoint.header id
  c.endpoint.state (.bytes header.header.message.stateRoot)

/-- The checkpoints of the state after a block. Nodes that do not find states by their root are
asked for the slot. -/
def blockFinality (c : Client) (id : Datum) : Job Node.Finality := do
  let header ← c.endpoint.header id
  let message := header.header.message
  match ← Work.attempt (c.endpoint.finality (.bytes message.stateRoot)) with
  | .ok checkpoints => return checkpoints
  | .error e =>
    if e.isTransient then c.endpoint.finality (.int message.slot) else Work.fail e

/-- The withdrawals that a block at a slot built on a state has to carry. -/
def nextWithdrawals (c : Client) (id slot : Datum) : Job (List Consensus.Withdrawal) := do
  let spec ← c.spec
  let id ← Work.ofExcept id.shown
  let state ← c.endpoint.state id
  Work.ofExcept (state.nextWithdrawalsAt slot spec)

/-- The position of the validator that proposes the block of a slot. -/
def proposerIndex (c : Client) (slot : Datum) : Job Int := do
  let spec ← c.spec
  let epoch ← Work.ofExcept (do spec.slotToEpoch (← slot.plainInteger))
  let duties ← c.endpoint.proposerDuties epoch
  match duties.find? fun duty => slot.same (.int duty.slot) with
  | some duty => return duty.validatorIndex
  | none => Work.fail (.notFound ("no proposer duty found for slot " ++ slot.display))

/-- The domain of a type on the node's network; without a fork version, that of the head state is
taken. -/
def domain (c : Client) (type version : Datum) : Job Bytes := do
  let root ← c.genesisValidatorsRoot
  let version ← match version with
    | .null => do
      let state ← c.stateByBlock (.str "head")
      pure (Datum.bytes state.currentVersion.toBytes)
    | d => pure d
  Work.ofExcept (Signing.domainOf type version (.bytes root))

/-- The node's record for peers. -/
def enr (c : Client) : Job Datum := do return (← c.endpoint.identity).enr

/-- The address at which the node is reached by its peers. -/
def p2pAddress (c : Client) : Job String := do
  let identity ← c.endpoint.identity
  let host ← Work.ofExcept (Node.Address.host c.endpoint.address)
  let cfg ← config
  return "/ip4/" ++ host.getD "None" ++ "/tcp/" ++ cfg.p2pPort.display ++ "/p2p/"
    ++ identity.peerId.display

/-- The text that shows the client. -/
def describe (c : Client) (cfg : ClientConfig) : String :=
  "BeaconClient(" ++ c.labelOf cfg ++ ", " ++ c.endpoint.address ++ ")"

end Client

end BeaconHarness
