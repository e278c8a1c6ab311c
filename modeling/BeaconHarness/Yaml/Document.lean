import BeaconHarness.Yaml.Node

/-!
# Documents

The value of a document is that of its node. A mapping first takes over the entries of the mappings
that it merges, and its own entries win over those; of several entries with the same key the last
value counts. A key must not be a collection.

If several parts of a document have no value, the failure of the one that lies least deep shows,
and of two of the same depth that of the earlier.
-/

namespace BeaconHarness.Yaml

open Scalar (noValue)

/-! ## Values and failures -/

/-- A value, or a failure with the depth of the part that has none. -/
abbrev Valued (α : Type) := Except (Nat × Failure) α

namespace Valued

/-- Gives a failure a depth. -/
def atDepth {α : Type} (depth : Nat) (r : Except Failure α) : Valued α :=
  r.mapError fun e => (depth, e)

/-- Two values. Of two failures the less deep one shows, or else the first. -/
def both {α β : Type} : Valued α → Valued β → Valued (α × β)
  | .ok a, .ok b => .ok (a, b)
  | .error e, .ok _ => .error e
  | .ok _, .error e => .error e
  | .error e, .error f => .error (if f.1 < e.1 then f else e)

/-- All values of a list. -/
def all {α : Type} : List (Valued α) → Valued (List α)
  | [] => .ok []
  | v :: rest => (both v (all rest)).map fun (a, more) => a :: more

@[simp] theorem all_ok {α : Type} (items : List α) : all (items.map .ok) = .ok items := by
  induction items with
  | nil => rfl
  | cons a rest ih => simp [all, ih, both, Except.map]

end Valued

/-! ## Mappings -/

/-- The entries of a mapping in two parts: those that it takes over, and its own. -/
structure Parts where
  merged : List (Valued (Datum × Datum)) := []
  own : List (Valued (Datum × Datum)) := []

/-- All entries. Those that are taken over come first. -/
def Parts.toList (p : Parts) : List (Valued (Datum × Datum)) := p.merged ++ p.own

namespace Node

/-- The kind of a node. One that lies inside itself is a collection. -/
def kind : Node → Kind
  | scalar kind _ | sequence kind _ | mapping kind _ => kind
  | enclosing isMapping => if isMapping then .map else .seq

/-- The text of the scalar that a mapping stands for. -/
def scalarText : List (Node × Node) → Except Failure String
  | [] => .error noValue
  | (key, value) :: rest =>
    if key.kind = .value then
      match value with
      | scalar _ text => .ok text
      | mapping _ entries => scalarText entries
      | _ => .error noValue
    else scalarText rest

/-! ## Values of nodes -/

mutual
/-- The value of a node at a depth. -/
def value (depth : Nat) : Node → Valued Datum
  | enclosing isMapping => .ok (.enclosing isMapping)
  | scalar kind text =>
    .atDepth (if kind.isCollection then depth + 1 else depth) (Scalar.read kind text)
  | sequence kind items =>
    match kind with
    | .seq => (Valued.all (values (depth + 1) items)).map .list
    | .omap | .pairs => (Valued.all (pairs (depth + 1) items)).map .list
    | .map | .set => .error (depth + 1, noValue)
    | _ => .error (depth, noValue)
  | mapping kind entries =>
    match kind with
    | .map | .set => do
      let parts ← .atDepth (depth + 1) (parts (depth + 1) entries)
      let entries := Datum.collect (← Valued.all parts.toList)
      return if kind = .map then .dict entries else .set (entries.map fun e => e.1)
    | .seq | .omap | .pairs => .error (depth + 1, noValue)
    | .merge | .value | .unknown => .error (depth, noValue)
    | kind => .atDepth depth do
      let text ← scalarText entries
      if kind = .timestamp then .error .wrongKind else Scalar.read kind text

/-- The values of nodes. -/
def values (depth : Nat) : List Node → List (Valued Datum)
  | [] => []
  | node :: rest => value depth node :: values depth rest

/-- The values of mappings of one entry each. -/
def pairs (depth : Nat) : List Node → List (Valued Datum)
  | [] => []
  | mapping _ [(key, v)] :: rest =>
    ((Valued.both (value depth key) (value depth v)).map fun (k, v) => .tuple [k, v])
      :: pairs depth rest
  | _ => [.error (depth, noValue)]

/-- The value of an entry. The key of a mapping's own scalar is a text here. -/
def entry (depth : Nat) : Node × Node → Valued (Datum × Datum)
  | (key, v) =>
    if key.kind.isCollection then .error (depth, noValue)
    else
      let k := match key with
        | scalar .value text => .ok (.str text)
        | key => value depth key
      Valued.both k (value depth v)

/-- The values of the entries of a mapping. -/
def parts (depth : Nat) : List (Node × Node) → Except Failure Parts
  | [] => .ok {}
  | (key, v) :: rest =>
    if key.kind = .merge then do
      let taken ← merged depth v
      let p ← parts depth rest
      return { p with merged := taken ++ p.merged }
    else do
      let p ← parts depth rest
      return { p with own := entry depth (key, v) :: p.own }

/-- The values of the entries to take over from a mapping, or from the mappings in a sequence. -/
def merged (depth : Nat) : Node → Except Failure (List (Valued (Datum × Datum)))
  | mapping _ entries => (parts depth entries).map Parts.toList
  | sequence _ items => mergedAll depth items
  | _ => .error noValue

/-- The values of the entries to take over from mappings. The earlier ones win, so that they come
last. -/
def mergedAll (depth : Nat) : List Node → Except Failure (List (Valued (Datum × Datum)))
  | [] => .ok []
  | mapping _ entries :: rest => do
    let p ← parts depth entries
    let later ← mergedAll depth rest
    return later ++ p.toList
  | _ => .error noValue
end

end Node

/-! ## Documents -/

/-- The node in a document's text; none if there is nothing in it. -/
def readNode (text : String) : Except Failure (Option Node) :=
  let text := normalize text.toList
  if text.all isAllowed then Node.ofTokens (Token.divide text)
  else .error (.ofKind .documentCharacter)

/-- The value of a document; an empty one stands for null. -/
def readDocument (text : String) : Except Failure Datum := do
  match ← readNode text with
  | none => return .null
  | some node => (node.value 0).mapError fun e => e.2

end BeaconHarness.Yaml
