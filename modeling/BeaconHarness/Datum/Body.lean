import BeaconHarness.Datum.Reading
import BeaconHarness.Ssz.Json

/-!
# Request bodies

A body that is sent to a node is built from values under a schema, byte strings, and lists of
these. Anything else has no form in the Beacon API, plain numbers and texts included, and is refused
with a message that shows it.
-/

namespace BeaconHarness.Datum

mutual
/-- The JSON form of a datum in a request body. -/
def toBody : Datum → Except Failure Datum
  | ssz x => .ok x.toJson
  | bytes b => .ok (str (Text.Hex.marked b))
  | list xs | tuple xs =>
    match toBodies xs with
    | .ok bodies => .ok (list bodies)
    | .error e => .error e
  | d => if d.isTooLong then .error (.unreadable .other) else .error .wrongKind

/-- The JSON forms of the items of a list. -/
def toBodies : List Datum → Except Failure (List Datum)
  | [] => .ok []
  | d :: rest =>
    match toBody d with
    | .error e => .error e
    | .ok body =>
      match toBodies rest with
      | .error e => .error e
      | .ok bodies => .ok (body :: bodies)
end

end BeaconHarness.Datum
