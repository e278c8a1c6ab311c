import BeaconHarness.Consensus.Block
import BeaconHarness.Consensus.State
import BeaconHarness.Datum.Body
import BeaconHarness.Node.Answers
import BeaconHarness.Node.Request

/-!
# The Beacon API

The endpoints of the Beacon API as work on a link: each makes one request and reads the answer.
Arguments are read before anything is sent. States and blocks come as bytes with the name of their
fork, without which they cannot be decoded.
-/

namespace BeaconHarness.Node.Endpoint

variable {κ : Type}

/-! ## Configuration and genesis -/

/-- The configuration of the network, whatever the node serves as such. -/
def spec (e : Endpoint) : Job κ Datum := do
  let answer ← e.getJson "/eth/v1/config/spec" []
  Work.ofExcept (answer.entryOr "data" (.dict []))

/-- When and with what the network started. -/
def genesis (e : Endpoint) : Job κ Genesis := do
  let answer ← e.getJson "/eth/v1/beacon/genesis" []
  Work.ofExcept (do Genesis.ofDatum (← answer.entry "data"))

/-! ## Blocks -/

/-- The failure of a reply that names no fork. -/
def missingVersion (path : String) : Failure :=
  .unknownSchema ("<missing Eth-Consensus-Version header on " ++ path ++ ">")

/-- A payload with its fork. -/
def payload (kind : PayloadKind) (e : Endpoint) (path : String) : Job κ (Versioned kind) := do
  let (version, body) ← e.getBytes path
  match version with
  | none => Work.fail (missingVersion path)
  | some tag => Work.ofExcept (Versioned.ofBytes kind e.preset (.str tag) body)

/-- A signed block. -/
def block (e : Endpoint) (id : Datum) : Job κ VersionedBlock :=
  payload .block e ("/eth/v2/beacon/blocks/" ++ id.pathText)

/-- Whether the execution layer has yet to check a block, if the node says so. -/
def isOptimistic (e : Endpoint) (id : Datum) : Job κ (Option Bool) := do
  let answer ← e.getJson ("/eth/v2/beacon/blocks/" ++ id.pathText) []
  match ← Work.ofExcept (answer.entryOr "execution_optimistic" .null) with
  | .null => return none
  | d => return some d.truthy

/-- The root of a block. -/
def blockRoot (e : Endpoint) (id : Datum) : Job κ Bytes := do
  let answer ← e.getJson ("/eth/v1/beacon/blocks/" ++ id.pathText ++ "/root") []
  Work.ofExcept (do (← (← answer.entry "data").entry "root").hexBytesPastMark)

/-- The header of a block. -/
def header (e : Endpoint) (id : Datum) : Job κ HeaderInfo := do
  let answer ← e.getJson ("/eth/v1/beacon/headers/" ++ id.pathText) []
  Work.ofExcept (HeaderInfo.ofDatum answer)

/-- The blobs that came with a block. -/
def blobSidecars (e : Endpoint) (id : Datum) : Job κ (List Ssz.Object) := do
  let (_, body) ← e.getBytes ("/eth/v1/beacon/blob_sidecars/" ++ id.pathText)
  let τ := Ssz.Schema.list (Consensus.blobSidecar e.preset) e.preset.maxBlobCommitmentsPerBlock
  match Ssz.decodeBytes τ body with
  | some v => return Ssz.Object.elements ⟨τ, v⟩
  | none => Work.fail .malformed

/-! ## States -/

/-- The path of a state. -/
def statePath (id : Datum) (rest : String) : String :=
  "/eth/v1/beacon/states/" ++ id.pathText ++ rest

/-- A full state. -/
def state (e : Endpoint) (id : Datum) : Job κ VersionedState :=
  payload .state e ("/eth/v2/debug/beacon/states/" ++ id.pathText)

/-- The items under `data`; none if it is missing. -/
def dataItems (answer : Datum) : Except Failure (List Datum) := do
  (← answer.entryOr "data" (.list [])).items

/-- One parameter of a query, unless it is left out. -/
def parameter (name : String) : Option String → List (String × String)
  | some text => [(name, text)]
  | none => []

/-- One validator of a state. -/
def validator (e : Endpoint) (id validatorId : Datum) : Job κ ValidatorInfo := do
  let answer ← e.getJson (statePath id ("/validators/" ++ validatorId.pathText)) []
  Work.ofExcept (do ValidatorInfo.ofDatum (← answer.entry "data"))

/-- Validators of a state, with given ids and statuses or all of them. -/
def validators (e : Endpoint) (id ids statuses : Datum) : Job κ (List ValidatorInfo) := do
  let idTexts ← Work.ofExcept ids.joinIds
  let statusTexts ← Work.ofExcept statuses.joinIds
  let answer ← e.getJson (statePath id "/validators")
    (parameter "id" idTexts ++ parameter "status" statusTexts)
  Work.ofExcept (do (← dataItems answer).mapM ValidatorInfo.ofDatum)

/-- Balances of validators of a state, with given ids or all of them. -/
def balances (e : Endpoint) (id ids : Datum) : Job κ (List BalanceInfo) := do
  let idTexts ← Work.ofExcept ids.joinIds
  let answer ← e.getJson (statePath id "/validator_balances") (parameter "id" idTexts)
  Work.ofExcept (do (← dataItems answer).mapM BalanceInfo.ofDatum)

/-- The checkpoints of a state. -/
def finality (e : Endpoint) (id : Datum) : Job κ Finality := do
  let answer ← e.getJson (statePath id "/finality_checkpoints") []
  Work.ofExcept (do Finality.ofDatum (← answer.entry "data"))

/-- The fork record in an answer. -/
def forkRecordOf (answer : Datum) : Except Failure Consensus.ForkRecord := do
  let data ← answer.entry "data"
  let previous ← (← data.entry "previous_version").hexBytesPastMark
  let current ← (← data.entry "current_version").hexBytesPastMark
  let epoch ← (← data.entry "epoch").plainInteger
  Consensus.ForkRecord.make previous current epoch

/-- The fork versions of a state. -/
def forkRecord (e : Endpoint) (id : Datum) : Job κ Consensus.ForkRecord := do
  let answer ← e.getJson (statePath id "/fork") []
  Work.ofExcept (forkRecordOf answer)

/-- The mix of randomness of a state, at an epoch or at the state's own. -/
def randao (e : Endpoint) (id epoch : Datum) : Job κ Bytes := do
  -- The query is put together by the session.
  e.openSession
  let text ← Work.ofExcept epoch.displayedOrNull
  let answer ← e.getJson (statePath id "/randao") (parameter "epoch" text)
  Work.ofExcept (do (← (← answer.entry "data").entry "randao").hexBytesPastMark)

/-- The withdrawal in an item of an answer. -/
def withdrawalOf (d : Datum) : Except Failure Consensus.Withdrawal := do
  let index ← (← d.entry "index").plainInteger
  let validatorIndex ← (← d.entry "validator_index").plainInteger
  let address ← (← d.entry "address").hexBytesPastMark
  let amount ← (← d.entry "amount").plainInteger
  Consensus.Withdrawal.make index validatorIndex address amount

/-- The withdrawals that the node expects of the block built on a state. -/
def expectedWithdrawals (e : Endpoint) (id : Datum) : Job κ (List Consensus.Withdrawal) := do
  let answer ← e.getJson
    ("/eth/v1/builder/states/" ++ id.pathText ++ "/expected_withdrawals") []
  Work.ofExcept (do (← dataItems answer).mapM withdrawalOf)

/-! ## Duties, identity and submissions -/

/-- Who proposes the blocks of an epoch. -/
def proposerDuties (e : Endpoint) (epoch : Datum) : Job κ (List ProposerDuty) := do
  let text ← Work.ofExcept epoch.displayed
  let answer ← e.getJson ("/eth/v1/validator/duties/proposer/" ++ text) []
  Work.ofExcept (do (← dataItems answer).mapM ProposerDuty.ofDatum)

/-- How the node is found by its peers. -/
def identity (e : Endpoint) : Job κ Identity := do
  let answer ← e.getJson "/eth/v1/node/identity" []
  Work.ofExcept (do Identity.ofDatum (← answer.entry "data"))

/-- Hands over a signed voluntary exit. -/
def submitExit (e : Endpoint) (exit : Datum) : Job κ Unit := do
  let body ← Work.ofExcept exit.toBody
  e.post "/eth/v1/beacon/pool/voluntary_exits" body

/-- Hands over signed changes of withdrawal credentials. -/
def submitChanges (e : Endpoint) (changes : Datum) : Job κ Unit := do
  let bodies ← Work.ofExcept (do (← changes.items).mapM Datum.toBody)
  e.post "/eth/v1/beacon/pool/bls_to_execution_changes" (.list bodies)

end BeaconHarness.Node.Endpoint
