import BeaconHarness.Datum.Reading
import BeaconHarness.Preset
import BeaconHarness.Text.Case

/-!
# Settings of the harness

The settings that all clients share: how long a request may take, how often a client asks again
while it comes up, the preset of the schemas and the verbosity of the log. They come from
environment variables, and applying them sets up the log and the preset of the process.
-/

namespace BeaconHarness

/-- The settings that all clients share. -/
structure Settings where
  /-- The most seconds to wait for a single request. -/
  rpcTimeout : Datum := .float (Decimal.Binary64.ofInt 5)
  /-- The seconds between two attempts to resolve the network at the start. -/
  initPollInterval : Datum := .float (Decimal.Binary64.ofInt 1)
  preset : Datum := .str "mainnet"
  logLevel : Datum := .str "INFO"
  deriving Inhabited

namespace Settings

/-- All settings under their names. -/
def toDatum (s : Settings) : Datum := .record [
  ("rpc_timeout", s.rpcTimeout), ("init_poll_interval", s.initPollInterval),
  ("preset", s.preset), ("log_level", s.logLevel)]

/-- The settings with some of them set by name; an unknown name is refused. -/
def override (s : Settings) : List (String × Datum) → Except Failure Settings
  | [] => .ok s
  | (name, d) :: rest =>
    match name with
    | "rpc_timeout" => { s with rpcTimeout := d }.override rest
    | "init_poll_interval" => { s with initPollInterval := d }.override rest
    | "preset" => { s with preset := d }.override rest
    | "log_level" => { s with logLevel := d }.override rest
    | _ => .error .wrongKind

/-! ## Environment -/

/-- The number of seconds in a variable, or another one if it is not set. -/
def seconds (env : List (String × String)) (name : String) (otherwise : Datum) :
    Except Failure Datum :=
  match env.lookup name with
  | none => .ok otherwise
  | some text =>
    match Decimal.Binary64.read text.toList with
    | some x => .ok (.float x)
    | none => .error (.unreadable .other)

/-- The text in a variable, or another one if it is not set. -/
def text (env : List (String × String)) (name : String) (otherwise : Datum) : Datum :=
  ((env.lookup name).map Datum.str).getD otherwise

/-- The settings in environment variables. -/
def ofEnvironment (env : List (String × String)) : Except Failure Settings := do
  let s : Settings := {}
  let rpcTimeout ← seconds env "ETH_CLIENTS_RPC_TIMEOUT" s.rpcTimeout
  let initPollInterval ← seconds env "ETH_CLIENTS_INIT_POLL_INTERVAL" s.initPollInterval
  return {
    rpcTimeout, initPollInterval
    preset := text env "ETH_CLIENTS_PRESET" s.preset
    logLevel := text env "ETH_CLIENTS_LOG_LEVEL" s.logLevel }

/-! ## Application -/

/-- What settings act on: the levels of the log and of the log of HTTP accesses, and the preset. -/
structure Process where
  rootLevel : String := "WARNING"
  accessLevel : String := "NOTSET"
  preset : Preset
  deriving Repr, Inhabited

/-- The levels of the log; two of them go by another name. -/
def levels : List (String × String) := [
  ("CRITICAL", "CRITICAL"), ("FATAL", "CRITICAL"), ("ERROR", "ERROR"), ("WARNING", "WARNING"),
  ("WARN", "WARNING"), ("INFO", "INFO"), ("DEBUG", "DEBUG"), ("NOTSET", "NOTSET")]

/-- The level that a text names. Two texts name something that is no level. -/
def levelOf (name : String) : Except Failure String :=
  match levels.lookup name with
  | some level => .ok level
  | none =>
    if name = "BASIC_FORMAT" then .error (.unreadable .other)
    else if name = "_STYLES" then .error .wrongKind
    else .error .noProperty

/-- Sets the log up. HTTP accesses are logged only when everything is. -/
def setLevel (process : Process) : Datum → Except Failure Process
  | .str s => do
    let name := Text.upper s
    let level ← levelOf name
    return { process with
      rootLevel := level
      accessLevel := if name = "DEBUG" then process.accessLevel else "WARNING" }
  | .bytes _ | .ssz ⟨_, .bytes _⟩ => .error .wrongKind
  | d => .error d.lack

/-- The preset that a datum names. -/
def presetNamed : Datum → Except Failure Preset
  | .str s =>
    match Preset.ofName? s with
    | some p => .ok p
    | none => .error (.unreadable (.unknownPreset s))
  | .ssz ⟨_, .seq _⟩ | .ssz ⟨_, .bits _⟩ => .error .malformed
  | d => .error (.unreadable (.unknownPreset d.display))

/-- Applies settings: first the log, then the preset. What was done before a failure stays. -/
def apply (s : Settings) (process : Process) : Process × Except Failure Unit :=
  match setLevel process s.logLevel with
  | .error e => (process, .error e)
  | .ok process =>
    match presetNamed s.preset with
    | .error e => (process, .error e)
    | .ok preset => ({ process with preset }, .ok ())

end Settings

end BeaconHarness
