import BeaconHarness.Consensus.Schemas
import BeaconHarness.Ssz.Reading

/-!
# Schemas by name

A schema is written down as its name or, for sequences, as the kind, the element and the bound in
an array. A value under a schema is written down as the two together.
-/

namespace BeaconHarness.Consensus

/-- The schema that a datum names. Vectors have at least one element. -/
def schemaOf (p : Preset) : Datum → Except Failure Ssz.Schema
  | .str name =>
    match schemaNamed? p name with
    | some τ => .ok τ
    | none => .error .malformed
  | .list [.str "bitlist", .int n] => .ok (.bitlist n.toNat)
  | .list [.str "bitvector", .int n] => .ok (.bitvector n.toNat)
  | .list [.str "bytevector", .int n] => .ok (.byteVector n.toNat)
  | .list [.str kind, element, .int n] =>
    match schemaOf p element with
    | .error e => .error e
    | .ok τ =>
      if kind = "list" then .ok (.list τ n.toNat)
      else if kind = "vector" && 0 < n then .ok (.vector τ n.toNat)
      else .error .malformed
  | _ => .error .malformed

/-- The value under a named schema that a datum stands for. -/
def objectOf (p : Preset) (name value : Datum) : Except Failure Ssz.Object := do
  (← schemaOf p name).read value

end BeaconHarness.Consensus
