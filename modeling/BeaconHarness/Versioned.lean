import BeaconHarness.Network.Schedule
import BeaconHarness.Signing
import BeaconHarness.Ssz.Decoding
import BeaconHarness.Text.Case
import BeaconHarness.Withdrawal.Sweep

/-!
# Payloads with their fork

A node tags every state and signed block with the fork whose schema encodes it. The tag stays next
to the decoded value, and questions about the payload are answered for all forks alike.

A payload is well-formed if its value belongs to the schema of its fork, as that of the payload with
nothing in it does (`admitted_initial`).
-/

namespace BeaconHarness

open Ssz (Schema Value Object)

/-- The fork that a tag names, in any letter case. -/
def Fork.ofTag : Datum → Except Failure Fork
  | .fork f => .ok f
  | d =>
    match Fork.ofName? (Text.lower d.display) with
    | some f => .ok f
    | none => .error (.unknownSchema d.display)

/-- The payloads that a node tags with a fork. -/
inductive PayloadKind where
  | state
  | block
  deriving DecidableEq, Repr, Inhabited

/-- The schema of a payload at a fork. -/
def PayloadKind.schema (k : PayloadKind) (p : Preset) (f : Fork) : Schema :=
  match k with
  | state => Consensus.state p f
  | block => Consensus.signedBlock p f

/-- The name of a kind of payload together with its fork. -/
def PayloadKind.title : PayloadKind → String
  | state => "VersionedBeaconState"
  | block => "VersionedSignedBeaconBlock"

/-- A payload with the fork whose schema encodes it. -/
structure Versioned (kind : PayloadKind) where
  preset : Preset
  fork : Fork
  value : Value
  deriving Inhabited

/-- A beacon state of any fork. -/
abbrev VersionedState := Versioned .state

/-- A signed beacon block of any fork. -/
abbrev VersionedBlock := Versioned .block

namespace Versioned

variable {kind : PayloadKind}

/-- The payload as a value under its schema. -/
def object (x : Versioned kind) : Object := ⟨kind.schema x.preset x.fork, x.value⟩

/-- Wraps a datum under a tag, if it is a value of that fork's schema. -/
def ofTagged (kind : PayloadKind) (p : Preset) (tag data : Datum) :
    Except Failure (Versioned kind) := do
  let f ← Fork.ofTag tag
  match data with
  | .ssz x =>
    if x.schema.typeName = (kind.schema p f).typeName then return ⟨p, f, x.value⟩
    else .error (.unknownSchema (f.name ++ "/" ++ data.kind))
  | data => .error (.unknownSchema (f.name ++ "/" ++ data.kind))

/-- Wraps a datum under the fork whose schema it has. -/
def ofDatum (kind : PayloadKind) (p : Preset) (data : Datum) : Except Failure (Versioned kind) :=
  match data with
  | .ssz x =>
    match Fork.all.find? (fun f => x.schema.typeName = (kind.schema p f).typeName) with
    | some f => .ok ⟨p, f, x.value⟩
    | none => .error (.unknownSchema data.kind)
  | data => .error (.unknownSchema data.kind)

/-- Decodes a byte string under a tag. -/
def ofBytes (kind : PayloadKind) (p : Preset) (tag : Datum) (b : Bytes) :
    Except Failure (Versioned kind) := do
  let f ← Fork.ofTag tag
  match Ssz.decodeBytes (kind.schema p f) b with
  | some v => return ⟨p, f, v⟩
  | none => .error .malformed

/-- The encoding of the payload. -/
def encode (x : Versioned kind) : Bytes := x.object.encode

/-- A part of an object, from a fork on. -/
def since (x : Versioned kind) (f : Fork) (part : Object) (name : String) : Option Object :=
  if x.fork.atLeast f then some (part.field name) else none

/-- Refuses an operation before a fork. -/
def require (x : Versioned kind) (f : Fork) (operation : String) : Except Failure Unit :=
  if x.fork.atLeast f then .ok () else .error (.unsupported x.fork.name operation)

/-! ## Well-formed payloads -/

/-- Whether the value of a payload belongs to the schema of its fork. -/
def Admitted (x : Versioned kind) : Prop := (kind.schema x.preset x.fork).admits x.value = true

/-- The payload of a fork with nothing in it. -/
def initial (p : Preset) (f : Fork) : Versioned kind := ⟨p, f, (kind.schema p f).default⟩

theorem admitted_initial (p : Preset) (f : Fork) : (initial p f : Versioned kind).Admitted :=
  Schema.admits_default (kind.schema p f)

end Versioned

end BeaconHarness
