import BeaconHarness.Datum.Reading
import BeaconHarness.Network.Spec
import BeaconHarness.Text.Case
import BeaconHarness.Yaml.Document

/-!
# Network configurations

A configuration is a mapping from field names, in any letter case, to values: integers as numbers
or as decimal or hexadecimal text, fork versions as byte strings, big-endian numbers or
hexadecimal text. It has to name its preset, whose defaults stand for all fields that it leaves
out. Names that belong to no field are ignored.

A node serves its configuration over the Beacon API; the same configuration may come from a file.
-/

namespace BeaconHarness.Spec

/-! ## Values -/

/-- Reads an integer from the text of a value, stripped of blanks. -/
def readNumberText (d : Datum) : Except Failure Int := do
  let text := Text.strip (← d.displayed).toList
  let shown := Text.Quoted.ofString (String.ofList text)
  if Datum.isMarked text then Datum.readInteger .hexadecimal text shown
  else Datum.readInteger .decimal text shown

/-- Reads an integer. What is one already stays as it is, apart from a truth value. -/
def readNumber : Datum → Except Failure Datum
  | .bool b => .error (.unreadable (.notInteger (Datum.bool b).quoted))
  | .int n => .ok (.int n)
  | .bytes b | .ssz ⟨_, .bytes b⟩ => .ok (.int (Bytes.ofBigEndian b))
  | .ssz ⟨τ, .uint n⟩ => .ok (.ssz ⟨τ, .uint n⟩)
  | .ssz ⟨τ, .boolean b⟩ => .ok (.ssz ⟨τ, .boolean b⟩)
  | d => (readNumberText d).map .int

/-- A text without any occurrence of the mark `0x`. -/
def unmarkAll : List Char → List Char
  | '0' :: 'x' :: rest => unmarkAll rest
  | c :: rest => c :: unmarkAll rest
  | [] => []

/-- The bytes of a number, most significant byte first. -/
def versionOfInt (n : Int) : Except Failure Bytes :=
  if 0 ≤ n && n.toNat < Bytes.capacity 4 then .ok (Bytes.bigEndian 4 n.toNat)
  else .error .outOfRange

/-- The bytes that stand for a fork version, of whatever length. -/
def versionBytes : Datum → Except Failure Bytes
  | .bytes b | .ssz ⟨_, .bytes b⟩ => .ok b
  | .int n => versionOfInt n
  | .bool b => versionOfInt (if b then 1 else 0)
  | .ssz ⟨_, .uint n⟩ => versionOfInt n
  | .ssz ⟨_, .boolean b⟩ => versionOfInt (if b then 1 else 0)
  | d => do Datum.readHex (String.ofList (unmarkAll (Text.strip (← d.displayed).toList)))

/-- Reads a fork version. -/
def readVersion (d : Datum) : Except Failure Bytes :=
  match versionBytes d with
  | .error e => .error e
  | .ok b => if b.length = 4 then .ok b else .error (.unreadable (.wrongLength 4 b.length))

/-! ## Configurations -/

/-- The value of the last entry whose key has a given name, in any letter case. -/
def named (name : String) (entries : List (Datum × Datum)) : Option Datum :=
  (entries.reverse.find? fun e => Text.lower e.1.display = name).map Prod.snd

/-- A text without the quotes at its two ends. -/
def unquote (text : List Char) : List Char :=
  let isQuote := fun c => c = Text.Quoted.single || c = Text.Quoted.double
  ((text.dropWhile isQuote).reverse.dropWhile isQuote).reverse

/-- The preset that a configuration names. -/
def presetOf (entries : List (Datum × Datum)) : Except Failure Preset := do
  let written ← ((named "preset_base" entries).getD (.str "")).displayed
  let found := String.ofList (unquote written.toList)
  match Preset.ofName? found with
  | some p => return p
  | none => throw (.config (.presetBase found))

/-- The value of a configuration in the form that a field takes. -/
def Form.read (form : Form) (d : Datum) : Except Failure Datum :=
  match form with
  | text => d.displayed.map .str
  | number => readNumber d
  | version => (readVersion d).map .bytes

/-- Names the field and the value in whose reading a text failed, if the value can be shown. -/
def blame (name : String) (d : Datum) : Failure → Failure
  | .unreadable cause =>
    if d.isTooLong then .unreadable cause
    else .config (.value (Text.upper name) d.quoted cause)
  | e => e

/-- Sets those fields that a configuration has values for, in the order of the fields. -/
def readFields (entries : List (Datum × Datum)) :
    List Field → Spec → Except Failure Spec
  | [], s => .ok s
  | f :: rest, s =>
    -- The preset has been read before all fields; the entry is not read a second time.
    if f.name = "preset_base" then readFields entries rest s
    else match named f.name entries with
      | none => readFields entries rest s
      | some d =>
        match f.form.read d with
        | .error e => .error (blame f.name d e)
        | .ok v => readFields entries rest (f.set s v)

/-- The parameters that a configuration describes. -/
def ofConfig : Datum → Except Failure Spec
  | .dict entries =>
    if entries.isEmpty then .error (.config .empty)
    else if entries.any fun e => e.1.isTooLong then .error (.unreadable .other)
    else
      match presetOf entries with
      | .error e => .error e
      | .ok p => readFields entries fields (ofPreset p)
  | d => if d.truthy then .error d.lack else .error (.config .empty)

/-- The parameters in a configuration file of a given path and text. -/
def ofYaml (path text : String) : Except Failure Spec :=
  match Yaml.readDocument text with
  | .ok (.dict entries) => ofConfig (.dict entries)
  | .ok _ => .error (.config (.notMapping path))
  | .error e => .error e

end BeaconHarness.Spec
