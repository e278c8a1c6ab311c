import BeaconHarness.Failure

/-!
# Failures described by their arguments

A failure can be described before any work has run into it: by its kind and arguments of any sort.
The kinds that carry something take a fixed number of arguments, name each and word their text from
them; every other kind shows what it is given.
-/

namespace BeaconHarness.FailureKind

/-- The text of a failure of this kind with these arguments, and what it then carries. -/
def describe (k : FailureKind) (args : List Datum) : Option (String × List (String × Datum)) :=
  match k, args with
  | .api, [status, message] =>
    some (Wording.api status.display message.display, [("status", status), ("message", message)])
  | .notFound, [message] =>
    some (Wording.api "404" message.display, [("status", .int 404), ("message", message)])
  | .unsupported, [fork, operation] =>
    some (Wording.unsupported fork.display operation.display,
      [("fork", fork), ("operation", operation)])
  | .unknownSchema, [version] =>
    some (Wording.unknownSchema version.quoted, [("version", version)])
  | .validatorIndex, [index, validators] => some (ofIndex index validators .null)
  | .validatorIndex, [index, validators, balances] => some (ofIndex index validators balances)
  | .pollTimeout, [what, timeout] =>
    some (Wording.pollTimeout what.display timeout.display, [("what", what), ("timeout", timeout)])
  | .api, _ | .notFound, _ | .unsupported, _ | .unknownSchema, _ | .validatorIndex, _
  | .pollTimeout, _ => none
  | _, [] => some ("", [])
  | _, [x] => some (x.display, [])
  | _, xs => some ((Datum.tuple xs).display, [])
where
  /-- The description of a position outside the registry, which may do without the balances. -/
  ofIndex (index validators balances : Datum) : String × List (String × Datum) :=
    let shown := match balances with
      | .null => none
      | d => some d.display
    (Wording.validatorIndex index.display validators.display shown,
      [("index", index), ("validator_count", validators), ("balance_count", balances)])

end BeaconHarness.FailureKind
