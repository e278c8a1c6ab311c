import BeaconHarness.Node.Fleet

/-!
# Calls by name

What an endpoint, a client and a fleet can be asked, under the names by which a script asks: each
call names its parameters, the optional ones last, and gives its answer as a datum. Arguments are
bound to parameters first by position and then by name.

Main statement: arguments that are all given by position are bound in order
(`bind_of_length_eq`).
-/

namespace BeaconHarness

open Node (Link Line)

/-- A call by name, made on a world `σ`. -/
structure Call (σ : Type) where
  name : String
  /-- The parameters that every call has to give. -/
  required : List String := []
  /-- The parameters that may be left out, and are null then. -/
  optional : List String := []
  /-- The work of the call; it finds its arguments under the names of the parameters. -/
  answer : (String → Datum) → Work σ Line Datum

namespace Call

/-! ## Arguments -/

/-- The arguments of parameters that were not given by position. -/
def bindNamed (required : List String) (named : List (String × Datum)) :
    List String → Except Failure (List (String × Datum))
  | [] => .ok []
  | p :: rest =>
    match named.lookup p with
    | none => if required.contains p then .error .wrongKind else bindNamed required named rest
    | some d => (bindNamed required named rest).map ((p, d) :: ·)

/-- The arguments under the names of the parameters. Too many arguments, a name that belongs to no
parameter left, and a required parameter without argument are refused. -/
def bind (required optional : List String) (args : List Datum) (named : List (String × Datum)) :
    Except Failure (List (String × Datum)) :=
  let parameters := required ++ optional
  let late := parameters.drop args.length
  if parameters.length < args.length || named.any (fun a => !late.contains a.1) then
    .error .wrongKind
  else (bindNamed required named late).map (parameters.zip args ++ ·)

/-- Makes the call of a given name. -/
def make {σ : Type} (calls : List (Call σ)) (name : String) (args : List Datum)
    (named : List (String × Datum)) : Work σ Line Datum :=
  match calls.find? fun call => call.name = name with
  | none => Work.fail .noProperty
  | some call =>
    match bind call.required call.optional args named with
    | .error e => Work.fail e
    | .ok bound => call.answer fun p => (bound.lookup p).getD .null

theorem bind_of_length_eq {required optional : List String} {args : List Datum}
    (h : args.length = (required ++ optional).length) :
    bind required optional args [] = .ok ((required ++ optional).zip args) := by
  simp [bind, h, bindNamed, Except.map]

/-- A call that is found by its name gets the arguments that are bound to its parameters. -/
theorem make_of_bound {σ : Type} {calls : List (Call σ)} {name : String} {call : Call σ}
    {args : List Datum} {named bound : List (String × Datum)}
    (hfind : calls.find? (fun call => call.name = name) = some call)
    (hbound : bind call.required call.optional args named = .ok bound) :
    make calls name args named = call.answer fun p => (bound.lookup p).getD .null := by
  rw [make, hfind]
  dsimp only
  rw [hbound]

/-! ## Answers -/

/-- A block as an answer. -/
def ofBlock (b : VersionedBlock) : Datum :=
  .record [("version", .str b.fork.name), ("root", .bytes b.root)]

/-- A state as an answer. -/
def ofState (s : VersionedState) : Datum :=
  .record [("version", .str s.fork.name), ("root", .bytes s.root)]

/-- A list as an answer. -/
def ofList {α : Type} (f : α → Datum) (xs : List α) : Datum := .list (xs.map f)

/-- A withdrawal as an answer. -/
def ofWithdrawal (w : Consensus.Withdrawal) : Datum := .ssz w.toObject

/-- Nothing as an answer. -/
def ofUnit (_ : Unit) : Datum := .null

end Call

/-! ## Endpoints -/

open Call

/-- Work on an id, which needs a text first. -/
def Call.onId {σ α : Type} (id : Datum) (work : Datum → Work σ Line α) : Work σ Line α := do
  work (← Work.ofExcept id.shown)

/-- What an endpoint can be asked. -/
def Node.Endpoint.calls {κ : Type} (e : Node.Endpoint) : List (Call (Link κ)) := [
  { name := "get_spec", answer := fun _ => e.spec },
  { name := "get_genesis", answer := fun _ => Node.Genesis.toDatum <$> e.genesis },
  { name := "get_block", required := ["block_id"]
    answer := fun a => ofBlock <$> onId (a "block_id") e.block },
  { name := "get_block_is_optimistic", required := ["block_id"]
    answer := fun a => Datum.orNull .bool <$> onId (a "block_id") e.isOptimistic },
  { name := "get_block_root", required := ["block_id"]
    answer := fun a => .bytes <$> onId (a "block_id") e.blockRoot },
  { name := "get_header", required := ["block_id"]
    answer := fun a => Node.HeaderInfo.toDatum <$> onId (a "block_id") e.header },
  { name := "get_blob_sidecars", required := ["block_id"]
    answer := fun a => ofList .ssz <$> onId (a "block_id") e.blobSidecars },
  { name := "get_state", required := ["state_id"]
    answer := fun a => ofState <$> onId (a "state_id") e.state },
  { name := "get_state_validator", required := ["state_id", "validator_id"]
    answer := fun a => Node.ValidatorInfo.toDatum <$>
      onId (a "state_id") fun id => onId (a "validator_id") (e.validator id) },
  { name := "get_state_validators", required := ["state_id"], optional := ["ids", "statuses"]
    answer := fun a => ofList Node.ValidatorInfo.toDatum <$>
      onId (a "state_id") fun id => e.validators id (a "ids") (a "statuses") },
  { name := "get_state_validator_balances", required := ["state_id"], optional := ["ids"]
    answer := fun a => ofList Node.BalanceInfo.toDatum <$>
      onId (a "state_id") fun id => e.balances id (a "ids") },
  { name := "get_finality_checkpoints", required := ["state_id"]
    answer := fun a => Node.Finality.toDatum <$> onId (a "state_id") e.finality },
  { name := "get_fork", required := ["state_id"]
    answer := fun a => (fun r => .ssz r.toObject) <$> onId (a "state_id") e.forkRecord },
  { name := "get_randao", required := ["state_id"], optional := ["epoch"]
    answer := fun a => .bytes <$> onId (a "state_id") fun id => e.randao id (a "epoch") },
  { name := "get_expected_withdrawals", required := ["state_id"]
    answer := fun a => ofList ofWithdrawal <$> onId (a "state_id") e.expectedWithdrawals },
  { name := "get_proposer_duties", required := ["epoch"]
    answer := fun a => ofList Node.ProposerDuty.toDatum <$> e.proposerDuties (a "epoch") },
  { name := "get_identity", answer := fun _ => Node.Identity.toDatum <$> e.identity },
  { name := "submit_voluntary_exit", required := ["signed_exit"]
    answer := fun a => ofUnit <$> e.submitExit (a "signed_exit") },
  { name := "submit_bls_to_execution_changes", required := ["changes"]
    answer := fun a => ofUnit <$> e.submitChanges (a "changes") },
  { name := "close", answer := fun _ => ofUnit <$> Node.Endpoint.close },
  { name := "with", answer := fun _ => do Node.Endpoint.close; return .bool true },
  { name := "base_url", answer := fun _ => return .str e.address },
  { name := "rpc_timeout", answer := fun _ => return e.rpcTimeout }]

/-! ## Clients -/

/-- The calls that a client passes on to its endpoint: its own name of each, and the endpoint's. -/
def Client.passedOn : List (String × String) := [
  ("block", "get_block"), ("block_root", "get_block_root"), ("block_header", "get_header"),
  ("block_is_optimistic", "get_block_is_optimistic"), ("blob_sidecars", "get_blob_sidecars"),
  ("state", "get_state"), ("state_validator", "get_state_validator"),
  ("state_validators", "get_state_validators"),
  ("state_validator_balances", "get_state_validator_balances"),
  ("state_finality_checkpoints", "get_finality_checkpoints"), ("state_fork", "get_fork"),
  ("state_randao_mix", "get_randao"), ("expected_withdrawals", "get_expected_withdrawals"),
  ("submit_voluntary_exit", "submit_voluntary_exit"),
  ("submit_pool_bls_to_execution_change", "submit_bls_to_execution_changes"),
  ("close", "close"), ("with", "with")]

/-- A count under each epoch, as an answer. -/
def Call.ofCounts (counts : List (Datum × Nat)) : Datum :=
  .dict (counts.map fun e => (.str e.1.display, .int e.2))

/-- What a client can be asked of its own. -/
def Client.ownCalls (c : Client) : List (Call (Link ClientConfig)) := [
  { name := "label", answer := fun _ => .str <$> c.label },
  { name := "client_name", answer := fun _ => return c.name },
  { name := "settings", answer := fun _ => return c.settings.toDatum },
  { name := "repr", answer := fun _ => do return .str (c.describe (← Client.config)) },
  { name := "config", answer := fun _ => ClientConfig.toDatum <$> Client.config },
  { name := "spec", answer := fun _ => Spec.toDatum <$> c.spec },
  { name := "genesis_time", answer := fun _ => c.genesisTime },
  { name := "genesis_validators_root", answer := fun _ => .bytes <$> c.genesisValidatorsRoot },
  { name := "current_slot", answer := fun _ => c.currentSlot },
  { name := "init", optional := ["timeout"], answer := fun a => ofUnit <$> c.init (a "timeout") },
  { name := "wait_for_execution_payload", optional := ["timeout"]
    answer := fun a => .bytes <$> c.waitForExecutionPayload (a "timeout") },
  { name := "wait_for_optimistic_state", required := ["block_id", "optimistic"]
    optional := ["timeout"]
    answer := fun a => Node.HeaderInfo.toDatum <$>
      c.waitForOptimisticState (a "block_id") (a "optimistic") (a "timeout") },
  { name := "state_by_block", required := ["block_id"]
    answer := fun a => ofState <$> onId (a "block_id") c.stateByBlock },
  { name := "block_finality_checkpoints", required := ["block_id"]
    answer := fun a => Node.Finality.toDatum <$> onId (a "block_id") c.blockFinality },
  { name := "compute_next_withdrawals", required := ["state_id", "slot"]
    answer := fun a => ofList ofWithdrawal <$> c.nextWithdrawals (a "state_id") (a "slot") },
  { name := "proposer_index", required := ["slot"]
    answer := fun a => .int <$> c.proposerIndex (a "slot") },
  { name := "compute_domain", required := ["domain_type"], optional := ["version"]
    answer := fun a => .bytes <$> c.domain (a "domain_type") (a "version") },
  { name := "enr", answer := fun _ => c.enr },
  { name := "p2p_addr", answer := fun _ => .str <$> c.p2pAddress },
  { name := "get_latest_execution_beacon_block"
    answer := fun _ => Datum.orNull ofBlock <$> c.latestExecutionBlock },
  { name := "get_first_execution_beacon_block"
    answer := fun _ => Datum.orNull ofBlock <$> c.firstExecutionBlock },
  { name := "get_beacon_block_by_execution_hash", required := ["block_hash"]
    answer := fun a => Datum.orNull ofBlock <$> c.blockByExecutionHash (a "block_hash") },
  { name := "get_filled_slots_count_per_epoch", answer := fun _ => ofCounts <$> c.blocksPerEpoch },
  { name := "status_line", answer := fun _ => .str <$> c.statusLine }]

/-- What a client can be asked. -/
def Client.calls (c : Client) : List (Call (Link ClientConfig)) :=
  let passed := passedOn.filterMap fun (name, inner) =>
    (c.endpoint.calls.find? fun call => call.name = inner).map fun call => { call with name }
  passed ++ c.ownCalls

/-! ## Fleets -/

/-- The clients of a fleet on a subnet, and whether they are the fleet itself. -/
def Fleet.subnetAnswer (clients : List Client) (name : Datum) : Fleet.Job Datum := do
  let fleet ← Work.world
  let labels := (fleet.subnet name).map fun i =>
    Datum.str ((clients.getD i default).labelOf (fleet.members.getD i {}).config)
  return .list [.list labels, .bool !name.truthy]

/-- What a fleet can be asked. It is not entered and left as a client is. -/
def Fleet.calls (clients : List Client) : List (Call Fleet) := [
  { name := "subnet", required := ["name"], answer := fun a => subnetAnswer clients (a "name") },
  { name := "enrs", answer := fun _ => .str <$> enrs clients },
  { name := "p2p_addrs", answer := fun _ => .str <$> p2pAddresses clients },
  { name := "get_beacon_block_by_execution_hash", required := ["block_hash"]
    answer := fun a => Datum.orNull ofBlock <$> blockByExecutionHash clients (a "block_hash") },
  { name := "submit_pool_bls_to_execution_change", required := ["changes"]
    answer := fun a => ofUnit <$> submitChanges clients (a "changes") },
  { name := "repr", answer := fun _ => do return .str ((← Work.world).describe clients) },
  { name := "print_status", answer := fun _ => ofUnit <$> logStatus clients },
  { name := "close", answer := fun _ => ofUnit <$> close clients },
  { name := "with", answer := fun _ => Work.fail .wrongKind }]

end BeaconHarness
