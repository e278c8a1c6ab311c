import BeaconHarness.Yaml.Scalar
import BeaconHarness.Yaml.Token

/-!
# Nodes

The tokens of a document form a tree of nodes: scalars, sequences and mappings, each with its kind.
An alias stands for the node that bears its name, which may be one of those around it.

A node between brackets ends at a bracket or comma, one in a block at the end of the block. The
items of a sequence that is the value of a key may stand as far to the left as the key; such a
sequence has neither beginning nor end of its own.
-/

namespace BeaconHarness.Yaml

/-- A node of a document. -/
inductive Node where
  | scalar (kind : Kind) (text : String)
  | sequence (kind : Kind) (items : List Node)
  | mapping (kind : Kind) (entries : List (Node × Node))
  /-- A sequence or mapping in the place where it lies inside itself. -/
  | enclosing (isMapping : Bool)
  deriving Inhabited

namespace Node

/-! ## What is left of a document -/

/-- The tokens that are still to come, what happens behind them, and the names known so far. -/
structure Supply where
  tokens : List Token
  fault : Failure
  /-- What the handles of tags stand for. -/
  handles : List (String × String) := []
  /-- The nodes that have a name, latest first. -/
  anchors : List (String × Node) := []
  /-- How many collections are being read. -/
  depth : Nat := 0

/-- A step that takes tokens. -/
abbrev Step := StateT Supply (Except Failure)

/-- The failure of tokens that form no structure. -/
def unstructured : Failure := .ofKind .documentStructure

/-- The failure of names that do not fit together. -/
def unresolved : Failure := .ofKind .documentReference

/-- The next token. -/
def peek : Step Token := fun s =>
  match s.tokens with
  | [] => .error s.fault
  | t :: _ => .ok (t, s)

/-- Takes the next token. -/
def skip : Step Unit := modify fun s => { s with tokens := s.tokens.tail }

/-- Takes the next token if it is the given one, and says whether it was. -/
def accept (t : Token) : Step Bool := do
  if (← peek) = t then do skip; return true
  else return false

/-- Takes the next token, which has to be the given one. -/
def expect (t : Token) : Step Unit := do
  if !(← accept t) then throw unstructured

/-! ## Properties -/

/-- What stands in front of a node: its name and its tag. -/
structure Properties where
  anchor : Option String := none
  tag : Option WrittenTag := none

/-- Takes an anchor, if one comes next. -/
def takeAnchor : Step (Option String) := do
  match ← peek with
  | .anchor name => do skip; return some name
  | _ => return none

/-- Takes a tag, if one comes next. -/
def takeTag : Step (Option WrittenTag) := do
  match ← peek with
  | .tag t => do skip; return some t
  | _ => return none

/-- Takes anchor and tag, in either order. -/
def takeProperties : Step Properties := do
  match ← takeAnchor with
  | some name => return ⟨some name, ← takeTag⟩
  | none =>
    match ← takeTag with
    | some t => return ⟨← takeAnchor, some t⟩
    | none => return {}

/-- The tag in full. -/
def resolveTag (t : WrittenTag) : Step String := do
  match t.handle with
  | none => return t.suffix
  | some handle =>
    match (← get).handles.lookup handle with
    | some stem => return stem ++ t.suffix
    | none => throw unstructured

/-- The tag that asks for the kind of a node to be seen from its form. -/
def openTag : String := "!"

/-- The kind of a collection with a given tag. -/
def kindOfCollection (tag : Option String) (usual : Kind) : Kind :=
  match tag with
  | none => usual
  | some tag => if tag = openTag then usual else Kind.ofTag tag

/-- The kind of a scalar with a given tag. -/
def kindOfScalar (tag : Option String) (text : String) (isPlain : Bool) : Kind :=
  match tag with
  | none => if isPlain then Scalar.kindOf text.toList else .str
  | some tag => if tag = openTag then Scalar.kindOf text.toList else Kind.ofTag tag

/-! ## Names -/

/-- Refuses a name that another node has. -/
def checkAnchor : (anchor : Option String) → Step Unit
  | none => return ()
  | some name => do
    if ((← get).anchors.lookup name).isSome then throw unresolved

/-- Gives a node a name. -/
def bindAnchor : (anchor : Option String) → Node → Step Unit
  | none, _ => return ()
  | some name, node => modify fun s => { s with anchors := (name, node) :: s.anchors }

/-- The node that an alias stands for. -/
def resolveAlias (name : String) : Step Node := do
  match (← get).anchors.lookup name with
  | some node => return node
  | none => throw unresolved

/-- A scalar under its name. -/
def named (anchor : Option String) (node : Node) : Step Node := do
  checkAnchor anchor
  bindAnchor anchor node
  return node

/-- The most collections that lie inside each other. -/
def deepest : Nat := 485

/-- Reads the parts of a collection, which must not lie too deep. -/
def deeper (parts : Step Node) : Step Node := do
  let depth := (← get).depth
  if deepest < depth + 1 then throw (.ofKind .nesting)
  modify fun s => { s with depth := depth + 1 }
  let node ← parts
  modify fun s => { s with depth }
  return node

/-- A collection under its name, which it has already while its parts are read. -/
def namedWhile (anchor : Option String) (isMapping : Bool) (parts : Step Node) : Step Node := do
  checkAnchor anchor
  bindAnchor anchor (.enclosing isMapping)
  let node ← deeper parts
  bindAnchor anchor node
  return node

/-! ## Nodes -/

/-- Where a node stands. -/
inductive Place where
  /-- Between brackets. -/
  | flow
  /-- In a block. -/
  | block
  /-- At the key or value of a block mapping. -/
  | entry
  deriving DecidableEq, Repr

/-- The node of an empty scalar. -/
def empty : Node := .scalar .null ""

mutual
/-- Reads a node. -/
def read : (fuel : Nat) → Place → Step Node
  | 0, _ => throw unstructured
  | fuel + 1, place => do
    if let .alias name := ← peek then
      skip
      resolveAlias name
    else
      let p ← takeProperties
      let tag ← p.tag.mapM resolveTag
      let sequence := fun (items : Step (List Node)) =>
        namedWhile p.anchor false
          (return .sequence (kindOfCollection tag .seq) (← items))
      let mapping := fun (entries : Step (List (Node × Node))) =>
        namedWhile p.anchor true
          (return .mapping (kindOfCollection tag .map) (← entries))
      match ← peek, place with
      | .blockEntry, .entry => sequence (readOpenItems fuel)
      | .scalar text isPlain, _ => do
        skip
        named p.anchor (.scalar (kindOfScalar tag text isPlain) text)
      | .flowSequenceStart, _ => sequence (do skip; readFlowItems fuel true)
      | .flowMappingStart, _ => mapping (do skip; readFlowEntries fuel true)
      | .blockSequenceStart, .block | .blockSequenceStart, .entry =>
        sequence (do skip; readItems fuel)
      | .blockMappingStart, .block | .blockMappingStart, .entry =>
        mapping (do skip; readEntries fuel)
      | _, _ =>
        if p.anchor.isSome || p.tag.isSome then
          named p.anchor (.scalar (kindOfScalar tag "" true) "")
        else throw unstructured

/-- Reads a node, or an empty scalar in front of one of the given tokens. -/
def readUnless : (fuel : Nat) → Place → List Token → Step Node
  | 0, _, _ => throw unstructured
  | fuel + 1, place, ends => do
    if ends.contains (← peek) then return empty
    else read fuel place

/-- Reads the items of a block sequence. -/
def readItems : (fuel : Nat) → Step (List Node)
  | 0 => throw unstructured
  | fuel + 1 => do
    if ← accept .blockEntry then
      let item ← readUnless fuel .block [.blockEntry, .blockEnd]
      return item :: (← readItems fuel)
    else
      expect .blockEnd
      return []

/-- Reads the items of a sequence that stands as far to the left as its key. -/
def readOpenItems : (fuel : Nat) → Step (List Node)
  | 0 => throw unstructured
  | fuel + 1 => do
    if ← accept .blockEntry then
      let item ← readUnless fuel .block [.blockEntry, .key, .value, .blockEnd]
      return item :: (← readOpenItems fuel)
    else return []

/-- Reads the entries of a block mapping. -/
def readEntries : (fuel : Nat) → Step (List (Node × Node))
  | 0 => throw unstructured
  | fuel + 1 => do
    if ← accept .key then
      let ends := [.key, .value, .blockEnd]
      let key ← readUnless fuel .entry ends
      let value ← if ← accept .value then readUnless fuel .entry ends else pure empty
      return (key, value) :: (← readEntries fuel)
    else
      expect .blockEnd
      return []

/-- Reads the key behind its mark and the value of an entry between brackets; `close` is the
bracket that closes them. -/
def readPair : (fuel : Nat) → (close : Token) → Step (Node × Node)
  | 0, _ => throw unstructured
  | fuel + 1, close => do
    let key ← readUnless fuel .flow [.value, .flowEntry, close]
    let value ← if ← accept .value then readUnless fuel .flow [.flowEntry, close] else pure empty
    return (key, value)

/-- Reads the items of a sequence between brackets. A pair is a mapping of one entry. -/
def readFlowItems : (fuel : Nat) → (first : Bool) → Step (List Node)
  | 0, _ => throw unstructured
  | fuel + 1, first => do
    if ← accept .flowSequenceEnd then return []
    else
      if !first then expect .flowEntry
      if ← accept .flowSequenceEnd then return []
      else
        let item ← if ← accept .key then do
            let pair ← readPair fuel .flowSequenceEnd
            pure (Node.mapping .map [pair])
          else read fuel .flow
        return item :: (← readFlowItems fuel false)

/-- Reads the entries of a mapping between brackets. -/
def readFlowEntries : (fuel : Nat) → (first : Bool) → Step (List (Node × Node))
  | 0, _ => throw unstructured
  | fuel + 1, first => do
    if ← accept .flowMappingEnd then return []
    else
      if !first then expect .flowEntry
      if ← accept .flowMappingEnd then return []
      else
        let entry ← if ← accept .key then readPair fuel .flowMappingEnd
          else do
            let key ← read fuel .flow
            pure (key, empty)
        return entry :: (← readFlowEntries fuel false)
end

/-! ## Documents -/

/-- Takes all ends of documents that come next. -/
def skipEnds : (fuel : Nat) → Step Unit
  | 0 => return ()
  | fuel + 1 => do if ← accept .documentEnd then skipEnds fuel

/-- The handles that need no directive. -/
def usualHandles : List (String × String) := [("!", "!"), ("!!", Kind.stem)]

/-- Takes the directives at the head of a document, which must not contradict each other. -/
def readHead : (fuel : Nat) → (versioned : Bool) → Step Unit
  | 0, _ => throw unstructured
  | fuel + 1, versioned => do
    match ← peek with
    | .directive (.version major _) => do
      skip
      if versioned || major ≠ 1 then throw unstructured
      readHead fuel true
    | .directive (.handle name stem) => do
      skip
      if ((← get).handles.lookup name).isSome then throw unstructured
      modify fun s => { s with handles := s.handles ++ [(name, stem)] }
      readHead fuel versioned
    | .directive (.other _) => do
      skip
      readHead fuel versioned
    | _ => do
      expect .documentStart
      modify fun s => { s with handles := s.handles ++ usualHandles }

/-- Reads the head of a document and whether there is one. -/
def nextDocument (fuel : Nat) : Step Bool := do
  skipEnds fuel
  if (← peek) = .streamEnd then return false
  else
    modify fun s => { s with handles := [] }
    readHead fuel false
    return true

/-- Whether the content of a document behind its mark is empty. -/
def isEmptyDocument (t : Token) : Bool :=
  match t with
  | .directive _ | .documentStart | .documentEnd | .streamEnd => true
  | _ => false

/-- Reads a document's content. Its mark may be missing if there are no directives. -/
def readContent (fuel : Nat) : Step (Option Node) := do
  match ← peek with
  | .directive _ | .documentStart | .streamEnd => do
    if ← nextDocument fuel then
      if isEmptyDocument (← peek) then return some empty
      else return some (← read fuel .block)
    else return none
  | _ => do
    modify fun s => { s with handles := usualHandles }
    return some (← read fuel .block)

/-- Reads the only document. -/
def readOnly (fuel : Nat) : Step (Option Node) := do
  let node ← readContent fuel
  if node.isSome then
    let _ ← accept .documentEnd
    if ← nextDocument fuel then throw unresolved
  return node

/-- The node of a divided document; none if there is nothing in it. -/
def ofTokens (d : Token.Division) : Except Failure (Option Node) :=
  (readOnly (4 * d.tokens.length + 8)).run' { tokens := d.tokens, fault := d.fault }

end Node

end BeaconHarness.Yaml
