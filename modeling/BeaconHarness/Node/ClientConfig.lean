import BeaconHarness.Network.Spec

/-!
# What a client knows of its node

A client may be told the network's parameters and genesis, or fetch them from the node; it is told
under which number and subnet the node goes, and at which port the node's peers reach it. Numbers
and names are kept as they were given.
-/

namespace BeaconHarness

/-- What a client knows of its node. -/
structure ClientConfig where
  clientIndex : Datum := .int 0
  subnet : Datum := .str ""
  spec : Option Spec := none
  genesisTime : Option Datum := none
  genesisValidatorsRoot : Option Bytes := none
  p2pPort : Datum := .int 9000
  deriving Inhabited

namespace ClientConfig

/-- The fields under their names. -/
def toDatum (cfg : ClientConfig) : Datum := .record [
  ("client_index", cfg.clientIndex), ("subnet", cfg.subnet),
  ("spec", .orNull Spec.toDatum cfg.spec), ("genesis_time", cfg.genesisTime.getD .null),
  ("genesis_validators_root", .orNull .bytes cfg.genesisValidatorsRoot),
  ("p2p_port", cfg.p2pPort)]

/-- The configuration with some of its plain fields set by name; an unknown name is refused. -/
def override (cfg : ClientConfig) : List (String × Datum) → Except Failure ClientConfig
  | [] => .ok cfg
  | (name, d) :: rest =>
    match name, d with
    | "client_index", d => { cfg with clientIndex := d }.override rest
    | "subnet", d => { cfg with subnet := d }.override rest
    | "genesis_time", .null => { cfg with genesisTime := none }.override rest
    | "genesis_time", d => { cfg with genesisTime := some d }.override rest
    | "p2p_port", d => { cfg with p2pPort := d }.override rest
    | _, _ => .error .wrongKind

/-- The genesis time as a message shows it. -/
def shownGenesisTime (cfg : ClientConfig) : String := (cfg.genesisTime.getD .null).display

end ClientConfig

end BeaconHarness
