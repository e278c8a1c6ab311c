import BeaconHarness.Ssz.Encoding

/-!
# Decoding

A decoder reads a value from the front of a stream and leaves the rest. It is told the *scope*
of the value, the bytes that the surrounding layout gives it, and refuses a scope that does not
suit the schema. Offsets are checked for order and for the bounds of the parts they delimit, but
the stream is never moved by them: the parts are read one after the other, so a gap between two
parts shifts what is read.

Reading past the end of a stream gives the bytes that are left. A number is then smaller than its
width allows; byte strings and bit strings insist on all their bytes.
-/

namespace BeaconHarness.Ssz

/-- What a decoder gives: a value and the rest of the stream, or a refusal. -/
abbrev Read (α : Type) := Option (α × Bytes)

/-! ## Basic parts -/

/-- Takes `n` bytes off a stream, or as many as there are. -/
def takeBytes (n : Nat) (stream : Bytes) : Bytes × Bytes := (stream.take n, stream.drop n)

/-- Takes exactly `n` bytes off a stream. -/
def takeExactly (n : Nat) (stream : Bytes) : Read Bytes :=
  let (b, rest) := takeBytes n stream
  if b.length = n then some (b, rest) else none

/-- Reads an offset. -/
def takeOffset (stream : Bytes) : Nat × Bytes :=
  let (b, rest) := takeBytes Schema.offsetWidth stream
  (Bytes.ofLittleEndian b, rest)

/-- The bits of a bit string of `length` bits, unless a bit behind them is set. -/
def unpackBits (length : Nat) (b : Bytes) : Option (List Bool) :=
  let n := Bytes.ofLittleEndian b
  if n < Nat.pow 2 length then some (bitsOfNat length n) else none

/-- The bits in front of the closing bit, unless the last byte is zero or they are too many. -/
def unpackDelimited (limit : Nat) (b : Bytes) : Option (List Bool) :=
  match b.getLast? with
  | none => none
  | some last =>
    let n := Bytes.ofLittleEndian b
    let length := Nat.log2 n
    if last = 0 then none
    else if length ≤ limit then some (bitsOfNat length n) else none

/-! ## Sequences -/

/-- Reads `count` parts of equal scope. -/
def decodeMany (step : Bytes → Read Value) : (count : Nat) → List Value → Bytes → Read (List Value)
  | 0, read, stream => some (read.reverse, stream)
  | count + 1, read, stream =>
    match step stream with
    | none => none
    | some (v, rest) => decodeMany step count (v :: read) rest

/-- Reads parts of the given scopes. -/
def decodeScopes (step : Nat → Bytes → Read Value) :
    List Nat → List Value → Bytes → Read (List Value)
  | [], read, stream => some (read.reverse, stream)
  | scope :: scopes, read, stream =>
    match step scope stream with
    | none => none
    | some (v, rest) => decodeScopes step scopes (v :: read) rest

/-- Reads `count` offsets. -/
def takeOffsets : (count : Nat) → List Nat → Bytes → List Nat × Bytes
  | 0, read, stream => (read.reverse, stream)
  | count + 1, read, stream =>
    let (offset, rest) := takeOffset stream
    takeOffsets count (offset :: read) rest

/-- The scopes between offsets, the last one reaching to `stop`: none may be negative or lie
outside the bounds. -/
def scopesOf (least greatest stop : Nat) : List Nat → Option (List Nat)
  | [] => some []
  | offset :: rest =>
    let next := rest.headD stop
    if offset ≤ next && least ≤ next - offset && next - offset ≤ greatest then
      (scopesOf least greatest stop rest).map fun scopes => (next - offset) :: scopes
    else none

/-- Whether a sequence schema takes `count` elements. -/
def countFits (exact : Bool) (bound count : Nat) : Bool :=
  if exact then count = bound else count ≤ bound

/-- Reads a sequence with fixed elements: the scope holds a whole number of them. Elements without
any bytes cannot be told apart, so that a sequence of them has no reading. -/
def decodeFixedSeq (step : Bytes → Read Value) (size : Nat) (exact : Bool) (bound scope : Nat)
    (stream : Bytes) : Read (List Value) :=
  if size ≠ 0 && scope % size = 0 && countFits exact bound (scope / size) then
    decodeMany step (scope / size) [] stream
  else none

/-- Reads a sequence with variable elements: a table of offsets, whose first entry tells how many
there are, and the elements behind it. -/
def decodeVariableSeq (step : Nat → Bytes → Read Value) (least greatest : Nat) (exact : Bool)
    (bound scope : Nat) (stream : Bytes) : Read (List Value) :=
  if scope = 0 then
    if countFits exact bound 0 then some ([], stream) else none
  else
    -- The first body stands right behind the table, so its offset is the length of the table.
    let (first, rest) := takeOffset stream
    let count := first / Schema.offsetWidth
    if first = 0 || scope < first || first % Schema.offsetWidth ≠ 0
        || !countFits exact bound count then
      none
    else
      let (offsets, rest) := takeOffsets (count - 1) [first] rest
      match scopesOf least greatest scope offsets with
      | none => none
      | some scopes => decodeScopes step scopes [] rest

/-! ## Containers -/

/-- What the head of a container holds for a field. -/
inductive Head where
  | value (v : Value)
  | offset (o : Nat)

/-- The first offset among heads. -/
def firstOffset? : List Head → Option Nat
  | [] => none
  | .offset o :: _ => some o
  | .value _ :: rest => firstOffset? rest

/-- Whether the bodies of a container may start where its heads say: not inside the head. -/
def headsFit (fields : Fields) (heads : List Head) : Bool :=
  match firstOffset? heads with
  | some o => Schema.headLength fields ≤ o
  | none => true

mutual
/-- Reads a value of a schema from the front of a stream, within its scope. -/
def decode : Schema → (scope : Nat) → Bytes → Read Value
  | .uint width, scope, stream =>
    if scope = width then
      let (b, rest) := takeBytes width stream
      some (.uint (Bytes.ofLittleEndian b), rest)
    else none
  | .boolean, _, stream =>
    let (b, rest) := takeBytes 1 stream
    some (.boolean (b != [0]), rest)
  | .byteVector length, scope, stream =>
    if scope = length then
      (takeExactly length stream).map fun (b, rest) => (.bytes b, rest)
    else none
  | .bitvector length, scope, stream =>
    if scope = Schema.bitBytes length then
      match takeExactly scope stream with
      | none => none
      | some (b, rest) => (unpackBits length b).map fun bs => (.bits bs, rest)
    else none
  | .bitlist limit, scope, stream =>
    if 1 ≤ scope && scope ≤ (limit + 8) / 8 then
      match takeExactly scope stream with
      | none => none
      | some (b, rest) => (unpackDelimited limit b).map fun bs => (.bits bs, rest)
    else none
  | .vector element length, scope, stream =>
    (if element.isFixed then
      decodeFixedSeq (decode element element.minLength) element.minLength true length scope stream
    else
      decodeVariableSeq (decode element) element.minLength element.maxLength true length scope
        stream).map fun (vs, rest) => (.seq vs, rest)
  | .list element limit, scope, stream =>
    (if element.isFixed then
      decodeFixedSeq (decode element element.minLength) element.minLength false limit scope stream
    else
      decodeVariableSeq (decode element) element.minLength element.maxLength false limit scope
        stream).map fun (vs, rest) => (.seq vs, rest)
  | .container _ fields, scope, stream =>
    match decodeHeads fields stream with
    | none => none
    | some (heads, rest) =>
      if headsFit fields heads then
        (decodeBodies fields heads scope rest).map fun (vs, rest) => (.seq vs, rest)
      else none

/-- Reads the head of a container: its fixed fields, and the offsets of the variable ones. -/
def decodeHeads : Fields → Bytes → Read (List Head)
  | [], stream => some ([], stream)
  | (_, τ) :: fields, stream =>
    if τ.isFixed then
      match decode τ τ.minLength stream with
      | none => none
      | some (v, rest) =>
        (decodeHeads fields rest).map fun (heads, rest) => (.value v :: heads, rest)
    else
      let (o, rest) := takeOffset stream
      (decodeHeads fields rest).map fun (heads, rest) => (.offset o :: heads, rest)

/-- Reads the bodies of a container in order and puts them into their places among the heads. -/
def decodeBodies : Fields → List Head → (scope : Nat) → Bytes → Read (List Value)
  | (_, τ) :: fields, head :: heads, scope, stream =>
    match head with
    | .value v =>
      (decodeBodies fields heads scope stream).map fun (vs, rest) => (v :: vs, rest)
    | .offset o =>
      -- The offset tells only how long the body is; the body is read where the stream stands.
      let next := (firstOffset? heads).getD scope
      if o ≤ next && τ.minLength ≤ next - o && next - o ≤ τ.maxLength then
        match decode τ (next - o) stream with
        | none => none
        | some (v, rest) =>
          (decodeBodies fields heads scope rest).map fun (vs, rest) => (v :: vs, rest)
      else none
  | _, _, _, stream => some ([], stream)
end

/-! ## Whole byte strings -/

/-- Reads a value from a whole byte string. A number takes all bytes and has to fit, a boolean is
false only for the one byte `00`; any other schema reads from the front with the length as its
scope. -/
def decodeBytes (τ : Schema) (b : Bytes) : Option Value :=
  match τ with
  | .uint width =>
    let n := Bytes.ofLittleEndian b
    if n < Bytes.capacity width then some (.uint n) else none
  | .boolean => some (.boolean (b != [0]))
  | τ => (decode τ b.length b).map Prod.fst

end BeaconHarness.Ssz
