import BeaconHarness.Proofs.Network.Config
import BeaconHarness.Proofs.Yaml.Numbers

/-!
# Configuration files

A file has a line for each value of a configuration, and a node serves the same values as texts. The
two ways differ in what is read: a number in a file is a number already, and so is a version, whose
zero bytes in front are lost in it. Both give the field the same value.

Main statement: a file describes the parameters that the node's answer describes (`ofYaml_textOf`).
-/

namespace BeaconHarness.Spec

/-! ## Values in files and answers -/

/-- A value of a field, with what a file and a node may write for it. -/
inductive Value : Form → Type
  /-- A text whose characters stand for themselves between single quotes, as letters, digits,
  hyphens and underscores do. -/
  | name (text : String) (h : ∀ c ∈ text.toList, Yaml.IsInner c) : Value .text
  /-- A number of few enough digits to be read, as all of 64 bits have. -/
  | number (n : Nat) (h : n < Nat.pow 10 Text.Integer.digitLimit) : Value .number
  /-- Four bytes, whose digits may be of either case in each of the two places. -/
  | version (b : Bytes) (inFile inAnswer : List Char) (h : b.length = 4)
    (hfile : inFile.map Char.toLower = Text.Hex.encode b)
    (hanswer : inAnswer.map Char.toLower = Text.Hex.encode b) : Value .version

namespace Value

variable {form : Form}

/-- The value that a field has. -/
def datum : Value form → Datum
  | name text _ => .str text
  | number n _ => .int n
  | version b _ _ _ _ _ => .bytes b

/-- The value on a line of a file. -/
def inline : Value form → Yaml.Inline
  | name text h => .quoted text.toList h
  | number n _ => .word (toString n).toList (Yaml.isWord_toString n)
  | version _ inFile _ _ hfile _ => .word ('0' :: 'x' :: inFile) (Yaml.isWord_marked hfile)

/-- The value that a document has for the line. -/
def loaded : Value form → Datum
  | name text _ => .str text
  | number n _ => .int n
  | version b _ _ _ _ _ => .int (Bytes.ofBigEndian b)

/-- The value in an answer of a node. -/
def served : Value form → Datum
  | name text _ => .str text
  | number n _ => .str (toString n)
  | version _ _ inAnswer _ _ _ => .str (String.ofList ('0' :: 'x' :: inAnswer))

theorem denotes (v : Value form) : v.inline.Denotes v.loaded := by
  cases v with
  | name text h => exact congrArg Datum.str String.ofList_toList
  | number n h => exact Yaml.Inline.denotes_toString h
  | version b inFile inAnswer h hfile hanswer =>
    refine Yaml.Inline.denotes_marked ?_ hfile
    rintro rfl
    cases b with
    | nil => cases h
    | cons x b => cases hfile

theorem writes_loaded (v : Value form) : Writes form v.datum v.loaded := by
  cases v with
  | name text h => exact .text text
  | number n h => exact .number n
  | version b inFile inAnswer h hfile hanswer => exact .bigEndian h

theorem writes_served (v : Value form) : Writes form v.datum v.served := by
  cases v with
  | name text h => exact .text text
  | number n h => exact .decimal h
  | version b inFile inAnswer h hfile hanswer => exact .marked h hanswer

end Value

/-! ## Assignments -/

/-- A field other than the preset, and a value for it. -/
structure Assignment where
  field : Field
  value : Value field.form
  mem : field ∈ fields
  ne : field.name ≠ "preset_base"

/-- Whether a text is the name of a field in a configuration: a word that denotes itself and is the
name of the field in small letters. -/
def IsKeyOf (name : String) (key : List Char) : Prop :=
  Yaml.IsWord key ∧ key.length ≤ Yaml.Token.longestKey ∧ Yaml.Scalar.kindOf key = .str
    ∧ key.map Char.toLower = name.toList

theorem IsKeyOf.lower {name : String} {key : List Char} (h : IsKeyOf name key) :
    Text.lower (String.ofList key) = name := by
  obtain ⟨hword, -, -, hlower⟩ := h
  rw [Text.lower, String.toList_ofList,
    Text.lowerFrom_ascii fun c hc => Yaml.toNat_lt_of_isNameChar (hword.2 c hc), hlower,
    String.ofList_toList]

instance (name : String) (key : List Char) : Decidable (IsKeyOf name key) :=
  inferInstanceAs (Decidable (_ ∧ _ ∧ _ ∧ _))

/-- The name of a field in a configuration. -/
def Field.key (f : Field) : List Char := f.name.toList.flatMap Text.upperChar

theorem Field.isKeyOf_key : ∀ f ∈ fields, IsKeyOf f.name f.key := by decide +kernel

/-- The name of the preset in a configuration. -/
def presetKey : String := "PRESET_BASE"

theorem isKeyOf_presetKey : IsKeyOf "preset_base" presetKey.toList := by decide +kernel

namespace Assignment

/-- The line of a file. -/
def line (a : Assignment) : Yaml.Line :=
  ⟨a.field.key, a.value.inline, (Field.isKeyOf_key a.field a.mem).1,
    (Field.isKeyOf_key a.field a.mem).2.1⟩

/-- A way to write the values of assignments in a configuration. -/
structure Writing where
  written : Assignment → Datum
  writes : ∀ a, Writes a.field.form a.value.datum (written a)

namespace Writing

/-- What a document has for the lines of a file. -/
def inDocument : Writing := ⟨fun a => a.value.loaded, fun a => a.value.writes_loaded⟩

/-- What an answer of a node has. -/
def inAnswer : Writing := ⟨fun a => a.value.served, fun a => a.value.writes_served⟩

end Writing

/-- The entry for an assignment in a configuration. -/
def entry (w : Writing) (a : Assignment) : Datum × Datum :=
  (.str (Text.upper a.field.name), w.written a)

end Assignment

/-! ## Lines -/

theorem isInner_of_mem_name (p : Preset) {c : Char} (hc : c ∈ p.name.toList) : Yaml.IsInner c := by
  have hname : p.name.toList.all Yaml.isNameChar = true := by
    cases p <;> decide +kernel
  exact Yaml.isInner_of_isNameChar (List.all_eq_true.mp hname c hc)

/-- The line of the preset. -/
def presetLine (p : Preset) : Yaml.Line :=
  ⟨presetKey.toList, .quoted p.name.toList (fun _ => isInner_of_mem_name p), isKeyOf_presetKey.1,
    isKeyOf_presetKey.2.1⟩

/-- The line of an assignment, or that of the preset. -/
def lineOf (p : Preset) : Option Assignment → Yaml.Line
  | none => presetLine p
  | some a => a.line

/-- The entry of a document for the line of an assignment or of the preset. -/
def entryOf (p : Preset) : Option Assignment → Datum × Datum
  | none => (.str presetKey, .str p.name)
  | some a => a.entry .inDocument

theorem denotes_lineOf (p : Preset) (x : Option Assignment) :
    (lineOf p x).Denotes (entryOf p x) := by
  cases x with
  | none =>
    have hkind := isKeyOf_presetKey.2.2.1
    exact ⟨hkind, congrArg Datum.str String.ofList_toList.symm,
      congrArg Datum.str String.ofList_toList⟩
  | some a =>
    have hkind := (Field.isKeyOf_key a.field a.mem).2.2.1
    exact ⟨hkind, rfl, a.value.denotes⟩

/-- The lines of a file: those before the line of the preset, that line, and those behind it. -/
def linesOf (p : Preset) (before after : List Assignment) : List Yaml.Line :=
  before.map Assignment.line ++ presetLine p :: after.map Assignment.line

/-- The assignments of a file in their order, with the place of the preset among them. -/
def places (before after : List Assignment) : List (Option Assignment) :=
  before.map some ++ none :: after.map some

theorem map_places {α : Type} (f : Option Assignment → α) (before after : List Assignment) :
    (places before after).map f
      = before.map (fun a => f (some a)) ++ f none :: after.map fun a => f (some a) := by
  simp [places, Function.comp_def]

theorem perm_map_places {α : Type} (f : Option Assignment → α) (before after : List Assignment) :
    ((places before after).map f).Perm (f none :: (before ++ after).map fun a => f (some a)) := by
  rw [map_places, List.map_append]
  exact List.perm_middle

/-- The name of the field of a line. -/
def nameOf : Option Assignment → String
  | none => "preset_base"
  | some a => a.field.name

theorem lower_key_lineOf (p : Preset) (x : Option Assignment) :
    Text.lower (String.ofList (lineOf p x).key) = nameOf x := by
  cases x with
  | none => exact isKeyOf_presetKey.lower
  | some a => exact (Field.isKeyOf_key a.field a.mem).lower

/-- Lines of different fields have different keys. -/
theorem nodup_key_places (p : Preset) {before after : List Assignment}
    (hnames : ((before ++ after).map fun a => a.field.name).Nodup) :
    ((places before after).map fun x => (lineOf p x).key).Nodup := by
  have hnameOf : ((places before after).map nameOf).Nodup := by
    refine (perm_map_places nameOf before after).nodup_iff.mpr (List.nodup_cons.mpr ⟨?_, hnames⟩)
    intro hmem
    obtain ⟨a, -, ha⟩ := List.mem_map.mp hmem
    exact a.ne ha
  have hlower : (places before after).map nameOf
      = ((places before after).map fun x => (lineOf p x).key).map
        fun key => Text.lower (String.ofList key) := by
    rw [List.map_map]
    exact List.map_congr_left fun x _ => (lower_key_lineOf p x).symm
  rw [hlower] at hnameOf
  exact hnameOf.of_map

/-! ## Configurations of assignments -/

namespace Assignment

/-- The assignment with the way in which its value is written. -/
def setting (w : Writing) (a : Assignment) : Setting where
  field := a.field
  value := a.value.datum
  key := Text.upper a.field.name
  written := w.written a
  mem := a.mem
  ne := a.ne
  lower_key := (Field.isKeyOf_key a.field a.mem).lower
  writes := w.writes a

/-- The assignments and the preset as a configuration with nothing else in it. -/
def configuration (p : Preset) (w : Writing) (as : List Assignment)
    (hnames : (as.map fun a => a.field.name).Nodup) : Configuration where
  preset := p
  presetKey := presetKey
  settings := as.map (setting w)
  others := []
  lower_presetKey := by decide
  nodup := by rwa [List.map_map]
  unused := nofun

/-- The values by the names of their fields. -/
def assigned (as : List Assignment) : List (String × Datum) :=
  as.map fun a => (a.field.name, a.value.datum)

theorem assigned_configuration {p : Preset} {w : Writing} {as : List Assignment}
    (hnames : (as.map fun a => a.field.name).Nodup) :
    (configuration p w as hnames).assigned = assigned as := by
  rw [Configuration.assigned, configuration, List.map_map]
  rfl

/-- In whatever way values are written, they describe the same parameters. -/
theorem exists_ofConfig (p : Preset) {as : List Assignment}
    (hnames : (as.map fun a => a.field.name).Nodup) :
    ∃ s, (∀ a ∈ as, a.field.get s = a.value.datum)
      ∧ ∀ (w : Writing) (entries : List (Datum × Datum)),
        entries.Perm ((.str presetKey, .str p.name) :: as.map (entry w)) →
          ofConfig (.dict entries) = .ok s := by
  have hknown : ∀ x ∈ assigned as, ∃ f ∈ fields, f.name = x.1 := by
    intro x hx
    obtain ⟨a, -, rfl⟩ := List.mem_map.mp hx
    exact ⟨a.field, a.mem, rfl⟩
  have hnodup : ((assigned as).map Prod.fst).Nodup := by
    rwa [assigned, List.map_map]
  have hbase : (assigned as).lookup "preset_base" = none := by
    rw [← assigned_configuration (p := p) (w := .inDocument) hnames]
    exact lookup_assigned_eq_none fun x _ => x.ne
  obtain ⟨s, -, hs⟩ := exists_override hknown hnodup (ofPreset p)
  refine ⟨s, fun a ha => ?_, fun w entries hentries => ?_⟩
  · have hsetting : setting .inDocument a ∈ (configuration p .inDocument as hnames).settings :=
      List.mem_map_of_mem ha
    have hlookup := lookup_assigned_of_mem (configuration p .inDocument as hnames).nodup hsetting
    have hvalue : (assigned as).lookup a.field.name = some a.value.datum := by
      rw [← assigned_configuration (p := p) (w := .inDocument) hnames]
      exact hlookup
    rw [hs a.field a.mem, hvalue, Option.getD_some]
  · have hperm : entries.Perm (configuration p w as hnames).entries := by
      have hmap : (configuration p w as hnames).entries
          = (.str presetKey, .str p.name) :: as.map (entry w) := by
        rw [Configuration.entries, configuration, List.append_nil, List.map_map]
        rfl
      rwa [hmap]
    have hgives : ∀ f ∈ fields, f.name ≠ "preset_base" →
        Gives entries f ((assigned as).lookup f.name) := by
      intro f hf hne
      rw [← assigned_configuration (p := p) (w := w) hnames]
      exact Configuration.gives hperm hf hne
    obtain ⟨t, hread, ht⟩ := exists_readFields (fun name => (assigned as).lookup name) hbase
      (fun f hf => hf) nodup_name_fields hgives (ofPreset p)
    have hsame : t = s := eq_of_get fun f hf => by
      rw [ht f hf, hs f hf, if_pos (List.mem_map.mpr ⟨f, hf, rfl⟩)]
    rw [Configuration.ofConfig_eq_readFields hperm, ← hsame]
    exact hread

end Assignment

/-! ## Files and answers -/

/-- A file describes the parameters that the answer of a node with the same values describes. The
lines of the file and the entries of the answer are in any order, and the last line may lack its
end. -/
theorem ofYaml_textOf (path : String) (p : Preset) (before after : List Assignment)
    (hnames : ((before ++ after).map fun a => a.field.name).Nodup) (ended : Bool)
    {answer : List (Datum × Datum)}
    (hanswer : answer.Perm ((.str presetKey, .str p.name)
      :: (before ++ after).map (Assignment.entry .inAnswer))) :
    ∃ s, ofYaml path (String.ofList (Yaml.textOf ended (linesOf p before after))) = .ok s
      ∧ ofConfig (.dict answer) = .ok s
      ∧ ∀ a ∈ before ++ after, a.field.get s = a.value.datum := by
  obtain ⟨s, hvalues, hsame⟩ := Assignment.exists_ofConfig p hnames
  have hlines : linesOf p before after = (places before after).map (lineOf p) :=
    (map_places (lineOf p) before after).symm
  have hdocument : Yaml.readDocument (String.ofList (Yaml.textOf ended (linesOf p before after)))
      = .ok (.dict ((places before after).map (entryOf p))) := by
    rw [hlines]
    refine Yaml.readDocument_textOf ended ?_ (fun x _ => denotes_lineOf p x)
      (nodup_key_places p hnames)
    exact List.append_ne_nil_of_right_ne_nil _ (List.cons_ne_nil _ _)
  have hfile : ofConfig (.dict ((places before after).map (entryOf p))) = .ok s :=
    hsame .inDocument _ (perm_map_places (entryOf p) before after)
  refine ⟨s, ?_, hsame .inAnswer answer hanswer, hvalues⟩
  rw [ofYaml, hdocument]
  exact hfile

/-- A value of each form before and behind the line of the preset. -/
def linesBefore : List Assignment := [
  ⟨fields[4], .number 32000000000 (by decide +kernel), List.getElem_mem _, by decide⟩]

def linesBehind : List Assignment := [
  ⟨fields.head (List.cons_ne_nil _ _), .name "devnet-7" fun _ hc =>
      Yaml.isInner_of_isNameChar (List.all_eq_true.mp (by decide) _ hc),
    List.head_mem _, by decide⟩,
  ⟨fields[13], .version [3, 0, 0, 171] "030000aB".toList "030000Ab".toList rfl (by decide)
    (by decide), List.getElem_mem _, by decide⟩,
  ⟨fields[14], .number 0 (by decide +kernel), List.getElem_mem _, by decide⟩]

theorem ofYaml_textOf_devnet :
    ∃ s, ofYaml "config.yaml" ("MAX_EFFECTIVE_BALANCE: 32000000000\nPRESET_BASE: 'minimal'\n"
        ++ "CONFIG_NAME: 'devnet-7'\nCAPELLA_FORK_VERSION: 0x030000aB\nCAPELLA_FORK_EPOCH: 0\n")
          = .ok s
      ∧ ofConfig (.dict [(.str "CAPELLA_FORK_EPOCH", .str "0"),
        (.str "CAPELLA_FORK_VERSION", .str "0x030000Ab"), (.str "CONFIG_NAME", .str "devnet-7"),
        (.str "MAX_EFFECTIVE_BALANCE", .str "32000000000"),
        (.str "PRESET_BASE", .str "minimal")]) = .ok s := by
  have htext : String.ofList (Yaml.textOf true (linesOf .minimal linesBefore linesBehind))
      = "MAX_EFFECTIVE_BALANCE: 32000000000\nPRESET_BASE: 'minimal'\n"
        ++ "CONFIG_NAME: 'devnet-7'\nCAPELLA_FORK_VERSION: 0x030000aB\nCAPELLA_FORK_EPOCH: 0\n" := by
    decide +kernel
  obtain ⟨s, hfile, hanswer, -⟩ := ofYaml_textOf "config.yaml" .minimal linesBefore linesBehind
    (by decide) true (List.reverse_perm _)
  rw [htext] at hfile
  exact ⟨s, hfile, hanswer⟩

end BeaconHarness.Spec
