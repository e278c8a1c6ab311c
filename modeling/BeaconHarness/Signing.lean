import BeaconHarness.Consensus.Schemas
import BeaconHarness.Datum.Bytes
import BeaconHarness.Datum.Reading
import BeaconHarness.Ssz.Merkle

/-!
# Domains and signing roots

What is signed is never a message itself but the root of the message and a domain. A domain ties
a signature to its purpose, by four bytes of type, and to a network, by the root of its fork
version and genesis validators root. Signing itself belongs to the holder of the keys.

A domain is its type followed by the first twenty-eight bytes of that root, and a commitment is
known to the execution layer by a versioned hash, as long as a digest (`length_versionedHash`).
-/

namespace BeaconHarness.Signing

open Ssz (Object Value)

/-- The root that stands for "nothing". -/
def zeroRoot : Bytes := Bytes.zeros 32

/-! ## Roots -/

/-- A container of two byte strings, if they have the lengths of its fields. -/
def pair (τ : Ssz.Schema) (x y : Bytes) : Except Failure Object :=
  match τ.make? (.seq [.bytes x, .bytes y]) with
  | some obj => .ok obj
  | none => .error .malformed

/-- The root of a fork version and a genesis validators root. -/
def forkDataRoot (version validatorsRoot : Bytes) : Except Failure Bytes :=
  (pair Consensus.forkData version validatorsRoot).map Object.root

/-- The root of a datum: that of a value under a schema, or a byte string that already is one. -/
def rootOf : Datum → Except Failure Bytes
  | .bytes b | .ssz ⟨_, .bytes b⟩ =>
    if b.length = 32 then .ok b else .error (.unreadable (.rootLength b.length))
  | .ssz x => .ok x.root
  | _ => .error .wrongKind

/-- The root that is signed for an object root under a domain. -/
def rootUnder (objectRoot domain : Bytes) : Except Failure Bytes :=
  (pair Consensus.signingData objectRoot domain).map Object.root

/-! ## Domains -/

/-- The domain of a type of any length on a network; a missing version or root counts as zeros. -/
def domainOfBytes (type : Bytes) (version validatorsRoot : Option Bytes) : Except Failure Bytes :=
  (forkDataRoot (version.getD (Bytes.zeros 4)) (validatorsRoot.getD zeroRoot)).map
    fun root => type ++ root.take 28

/-! ## Versioned hashes -/

/-- The hash by which the execution layer knows a commitment: a version byte and the last
thirty-one bytes of its digest. -/
def versionedHash (commitment : Bytes) : Bytes :=
  UInt8.ofNat Preset.versionedHashVersionKzg :: (Sha256.digest commitment).drop 1

@[simp] theorem length_versionedHash (commitment : Bytes) :
    (versionedHash commitment).length = 32 := by
  simp [versionedHash]

/-! ## Unchecked arguments -/

/-- A byte string of fixed length that may be left out. -/
def optionalBytes (length : Nat) : Datum → Except Failure (Option Bytes)
  | .null => .ok none
  | d => (d.fixedBytes length).map some

/-- The root of a fork version and a genesis validators root that are yet to be checked. -/
def forkDataRootOf (version validatorsRoot : Datum) : Except Failure Bytes := do
  let version ← version.fixedBytes 4
  let validatorsRoot ← validatorsRoot.fixedBytes 32
  forkDataRoot version validatorsRoot

/-- The count of items of a domain type that is yet to be checked. -/
def typeLength : Datum → Except Failure Nat
  | .bytes b | .ssz ⟨_, .bytes b⟩ => .ok b.length
  | .ssz ⟨.container _ _, _⟩ => .error .wrongKind
  | .ssz ⟨_, .seq vs⟩ => .ok vs.length
  | .ssz ⟨_, .bits bs⟩ => .ok bs.length
  | .str s => .ok s.length
  | .fork f => .ok f.name.length
  | .list xs | .tuple xs => .ok xs.length
  | .dict entries => .ok entries.length
  | _ => .error .wrongKind

/-- The domain of arguments that are yet to be checked. A type of the right count of items that
is no byte string is noticed only when the domain is put together. -/
def domainOf (type version validatorsRoot : Datum) : Except Failure Bytes := do
  let length ← typeLength type
  if length ≠ 4 then .error (.unreadable (.domainTypeLength length))
  else
    let version ← optionalBytes 4 version
    let validatorsRoot ← optionalBytes 32 validatorsRoot
    match type with
    | .str _ | .fork _ | .dict _ => .error .wrongKind
    | type => domainOfBytes (← type.toBytes) version validatorsRoot

/-- The signing root of arguments that are yet to be checked. -/
def signingRootOf (message domain : Datum) : Except Failure Bytes := do
  let root ← rootOf message
  rootUnder root (← domain.fixedBytes 32)

/-- The versioned hash of an argument that is yet to be checked. -/
def versionedHashOf (commitment : Datum) : Except Failure Bytes :=
  commitment.toBytes.map versionedHash

/-- The versioned hashes of a list of commitments that is yet to be checked. -/
def versionedHashesOf (commitments : Datum) : Except Failure (List Bytes) := do
  (← commitments.items).mapM versionedHashOf

/-- The digest of an argument that is yet to be checked. -/
def digestOf : Datum → Except Failure Bytes
  | .bytes b | .ssz ⟨_, .bytes b⟩ => .ok (Sha256.digest b)
  | _ => .error .wrongKind

end BeaconHarness.Signing
