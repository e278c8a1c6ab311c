import BeaconHarness.Proofs.Network.Values
import Mathlib.Data.List.Nodup
import Mathlib.Tactic.FinCases

/-!
# Configurations and parameters set by hand

The parameters that a configuration describes are those of its preset with some fields set by hand.
Both ways to get them set fields one after the other, in different orders; since a field that is set
changes no other one, the order does not matter.

Main statement: a configuration describes the parameters that are set by hand to the values that it
writes (`ofConfig_eq_override`).
-/

namespace BeaconHarness.Spec

/-! ## Fields -/

theorem get_set_self : ∀ f ∈ fields, ∀ (s : Spec) (v : Datum), f.get (f.set s v) = v := by
  intro f hf s v
  fin_cases hf <;> rfl

/-- A field that is set changes no other field. -/
theorem get_set_of_ne : ∀ f ∈ fields, ∀ g ∈ fields, f.name ≠ g.name →
    ∀ (s : Spec) (v : Datum), g.get (f.set s v) = g.get s := by
  intro f hf g hg hne s v
  fin_cases hf <;> fin_cases hg <;> first | rfl | exact absurd rfl hne

/-- Parameters are told by their fields. -/
theorem eq_of_get {s t : Spec} (h : ∀ f ∈ fields, f.get s = f.get t) : s = t := by
  simp only [fields, List.forall_mem_cons] at h
  cases s
  cases t
  simp_all

theorem nodup_name_fields : (fields.map Field.name).Nodup := by decide

theorem eq_of_name {f g : Field} (hf : f ∈ fields) (hg : g ∈ fields) (h : f.name = g.name) :
    f = g := List.inj_on_of_nodup_map nodup_name_fields hf hg h

theorem find?_name : ∀ f ∈ fields, fields.find? (fun g => g.name = f.name) = some f := by
  intro f hf
  fin_cases hf <;> rfl

/-- The fields that a preset decides. -/
def decidedByPreset : List String := ["config_name", "preset_base", "seconds_per_slot",
  "slots_per_epoch", "max_validators_per_withdrawals_sweep", "max_withdrawals_per_payload"]

/-- A preset leaves all other fields at their defaults. -/
theorem get_ofPreset (p : Preset) : ∀ f ∈ fields,
    f.get (ofPreset p) = f.get (if f.name ∈ decidedByPreset then ofPreset p else {}) := by
  intro f hf
  fin_cases hf <;> rfl

/-! ## Fields set by hand -/

/-- Fields that are set by hand to one value each have these values, and all others are left as they
are. -/
theorem exists_override {xs : List (String × Datum)}
    (hnames : ∀ x ∈ xs, ∃ f ∈ fields, f.name = x.1) (hnodup : (xs.map Prod.fst).Nodup) (s : Spec) :
    ∃ t, s.override xs = .ok t
      ∧ ∀ g ∈ fields, g.get t = (xs.lookup g.name).getD (g.get s) := by
  induction xs generalizing s with
  | nil => exact ⟨s, rfl, fun g _ => rfl⟩
  | cons x xs ih =>
    obtain ⟨name, v⟩ := x
    obtain ⟨hfresh, hrest⟩ := List.nodup_cons.mp hnodup
    obtain ⟨f, hf, rfl⟩ := hnames (name, v) List.mem_cons_self
    obtain ⟨t, hrun, hget⟩ :=
      ih (fun x hx => hnames x (List.mem_cons_of_mem _ hx)) hrest (f.set s v)
    refine ⟨t, ?_, fun g hg => ?_⟩
    · rw [override, find?_name f hf]
      exact hrun
    · rw [hget g hg, List.lookup_cons]
      by_cases hname : g.name = f.name
      · obtain rfl := eq_of_name hg hf hname
        -- The field is set once, so that none of the later entries undoes it.
        have hnone : xs.lookup g.name = none := List.lookup_eq_none_iff.mpr fun x hx =>
          bne_iff_ne.mpr fun h => hfresh (List.mem_map.mpr ⟨x, hx, h.symm⟩)
        rw [hnone, beq_self_eq_true]
        exact get_set_self g hg s v
      · rw [get_set_of_ne f hf g hg (Ne.symm hname), beq_false_of_ne hname]

/-! ## Fields read of a configuration -/

/-- What a configuration gives a field: a value that it has written under the name of the field, or
nothing. -/
def Gives (entries : List (Datum × Datum)) (f : Field) : Option Datum → Prop
  | none => named f.name entries = none
  | some v => ∃ d, named f.name entries = some d ∧ f.form.read d = .ok v

/-- A field that is read gets the value that a configuration gives it, if it gives one, and no other
field changes. The preset is not read a second time. -/
theorem exists_readFields_cons {entries : List (Datum × Datum)} {value : String → Option Datum}
    (hpreset : value "preset_base" = none) {f : Field} (hf : f ∈ fields)
    (hgives : f.name ≠ "preset_base" → Gives entries f (value f.name)) (rest : List Field)
    (s : Spec) :
    ∃ t, readFields entries (f :: rest) s = readFields entries rest t
      ∧ ∀ g ∈ fields,
        g.get t = if g.name = f.name then (value g.name).getD (g.get s) else g.get s := by
  by_cases hbase : f.name = "preset_base"
  · refine ⟨s, by rw [readFields, if_pos hbase], fun g _ => ?_⟩
    split_ifs with hname
    · rw [hname, hbase, hpreset, Option.getD_none]
    · rfl
  have hgiven := hgives hbase
  cases hvalue : value f.name with
  | none =>
    rw [hvalue] at hgiven
    have hnamed : named f.name entries = none := hgiven
    refine ⟨s, by rw [readFields, if_neg hbase, hnamed], fun g _ => ?_⟩
    split_ifs with hname
    · rw [hname, hvalue, Option.getD_none]
    · rfl
  | some v =>
    rw [hvalue] at hgiven
    obtain ⟨d, hnamed, hread⟩ : ∃ d, named f.name entries = some d ∧ f.form.read d = .ok v :=
      hgiven
    refine ⟨f.set s v, ?_, fun g hg => ?_⟩
    · rw [readFields, if_neg hbase, hnamed]
      simp only [hread]
    · split_ifs with hname
      · obtain rfl := eq_of_name hg hf hname
        rw [hvalue, Option.getD_some]
        exact get_set_self g hg s v
      · exact get_set_of_ne f hf g hg (Ne.symm hname) s v

/-- The fields of a list get the values that a configuration gives them, and all others are left as
they are. -/
theorem exists_readFields {entries : List (Datum × Datum)} (value : String → Option Datum)
    (hpreset : value "preset_base" = none) {fs : List Field} (hfs : ∀ f ∈ fs, f ∈ fields)
    (hnodup : (fs.map Field.name).Nodup)
    (hgives : ∀ f ∈ fs, f.name ≠ "preset_base" → Gives entries f (value f.name)) (s : Spec) :
    ∃ t, readFields entries fs s = .ok t ∧ ∀ g ∈ fields,
      g.get t = if g.name ∈ fs.map Field.name then (value g.name).getD (g.get s) else g.get s := by
  induction fs generalizing s with
  | nil => exact ⟨s, rfl, fun g _ => rfl⟩
  | cons f fs ih =>
    obtain ⟨hfresh, hrest⟩ := List.nodup_cons.mp hnodup
    obtain ⟨u, hread, hu⟩ := exists_readFields_cons hpreset (hfs f List.mem_cons_self)
      (hgives f List.mem_cons_self) fs s
    obtain ⟨t, hrun, hget⟩ := ih (fun g hg => hfs g (List.mem_cons_of_mem f hg)) hrest
      (fun g hg => hgives g (List.mem_cons_of_mem f hg)) u
    refine ⟨t, hread.trans hrun, fun g hg => ?_⟩
    rw [hget g hg, hu g hg]
    by_cases hname : g.name = f.name
    · rw [hname, if_neg hfresh, if_pos rfl, if_pos (by simp)]
    · have hmem : g.name ∈ (f :: fs).map Field.name ↔ g.name ∈ fs.map Field.name := by
        simp [hname]
      simp only [hmem, if_neg hname]

/-! ## Configurations that write values -/

/-- A field that is set, with a way to write its value in a configuration. -/
structure Setting where
  field : Field
  value : Datum
  key : String
  written : Datum
  mem : field ∈ fields
  ne : field.name ≠ "preset_base"
  lower_key : Text.lower key = field.name
  writes : Writes field.form value written

namespace Setting

/-- The entry that writes the value. -/
def entry (x : Setting) : Datum × Datum := (.str x.key, x.written)

/-- The value under the name of the field. -/
def assigned (x : Setting) : String × Datum := (x.field.name, x.value)

end Setting

theorem lookup_assigned_of_mem {settings : List Setting}
    (hnames : (settings.map fun x => x.field.name).Nodup) {x : Setting} (hx : x ∈ settings) :
    (settings.map Setting.assigned).lookup x.field.name = some x.value := by
  induction settings with
  | nil => exact absurd hx List.not_mem_nil
  | cons y rest ih =>
    obtain ⟨hfresh, hrest⟩ := List.nodup_cons.mp hnames
    rw [List.map_cons, Setting.assigned, List.lookup_cons]
    rcases List.mem_cons.mp hx with rfl | hx
    · rw [beq_self_eq_true]
    · have hne : x.field.name ≠ y.field.name := fun h =>
        hfresh (List.mem_map.mpr ⟨x, hx, h⟩)
      rw [beq_false_of_ne hne]
      exact ih hrest hx

theorem lookup_assigned_eq_none {settings : List Setting} {name : String}
    (h : ∀ x ∈ settings, x.field.name ≠ name) :
    (settings.map Setting.assigned).lookup name = none := by
  refine List.lookup_eq_none_iff.mpr fun p hp => ?_
  obtain ⟨x, hx, rfl⟩ := List.mem_map.mp hp
  exact bne_iff_ne.mpr (h x hx).symm

/-- A key that belongs to no field. -/
structure Unused (key : Datum) : Prop where
  short : key.isTooLong = false
  ne : ∀ f ∈ fields, Text.lower key.display ≠ f.name

/-- The only entry that has a name is found under it. -/
theorem named_eq_some {name : String} {entries : List (Datum × Datum)} {e : Datum × Datum}
    (hmem : e ∈ entries) (hkey : Text.lower e.1.display = name)
    (hone : ∀ e' ∈ entries, Text.lower e'.1.display = name → e' = e) :
    named name entries = some e.2 := by
  unfold named
  cases hfind : entries.reverse.find? (fun e => Text.lower e.1.display = name) with
  | none =>
    have hmiss := List.find?_eq_none.mp hfind e (List.mem_reverse.mpr hmem)
    exact absurd (decide_eq_true hkey) hmiss
  | some e' =>
    have hname : Text.lower e'.1.display = name := by simpa using List.find?_some hfind
    have hin := List.mem_reverse.mp (List.mem_of_find?_eq_some hfind)
    rw [hone e' hin hname, Option.map_some]

theorem named_eq_none {name : String} {entries : List (Datum × Datum)}
    (h : ∀ e ∈ entries, Text.lower e.1.display ≠ name) : named name entries = none := by
  have hfind : entries.reverse.find? (fun e => Text.lower e.1.display = name) = none :=
    List.find?_eq_none.mpr fun e he hname =>
      h e (List.mem_reverse.mp he) (of_decide_eq_true hname)
  rw [named, hfind, Option.map_none]

/-- A configuration by what stands in it: a preset and some values, each under its name in whatever
letter case, and entries that belong to no field. -/
structure Configuration where
  preset : Preset
  presetKey : String
  settings : List Setting
  others : List (Datum × Datum)
  lower_presetKey : Text.lower presetKey = "preset_base"
  nodup : (settings.map fun x => x.field.name).Nodup
  unused : ∀ e ∈ others, Unused e.1

namespace Configuration

variable {c : Configuration}

/-- The entry that names the preset. -/
def base (c : Configuration) : Datum × Datum := (.str c.presetKey, .str c.preset.name)

def entries (c : Configuration) : List (Datum × Datum) :=
  c.base :: c.settings.map Setting.entry ++ c.others

/-- The values by the names of the fields. -/
def assigned (c : Configuration) : List (String × Datum) := c.settings.map Setting.assigned

theorem mem_entries {e : Datum × Datum} :
    e ∈ c.entries ↔ e = c.base ∨ (∃ x ∈ c.settings, x.entry = e) ∨ e ∈ c.others := by
  rw [entries, List.cons_append, List.mem_cons, List.mem_append, List.mem_map]

theorem isTooLong_key {e : Datum × Datum} (he : e ∈ c.entries) : e.1.isTooLong = false := by
  rcases mem_entries.mp he with rfl | ⟨x, -, rfl⟩ | he
  · rfl
  · rfl
  · exact (c.unused e he).short

/-- Only the entry that names the preset has the name of the preset. -/
theorem eq_base {e : Datum × Datum} (he : e ∈ c.entries)
    (hname : Text.lower e.1.display = "preset_base") : e = c.base := by
  rcases mem_entries.mp he with rfl | ⟨x, -, rfl⟩ | he
  · rfl
  · exact absurd (x.lower_key.symm.trans hname) x.ne
  · have hfield : ∃ f ∈ fields, f.name = "preset_base" := by decide
    obtain ⟨f, hf, hbase⟩ := hfield
    exact absurd (hname.trans hbase.symm) ((c.unused e he).ne f hf)

/-- Only the entries that write a value have the name of a field other than the preset. -/
theorem exists_setting {e : Datum × Datum} (he : e ∈ c.entries) {f : Field} (hf : f ∈ fields)
    (hbase : f.name ≠ "preset_base") (hname : Text.lower e.1.display = f.name) :
    ∃ x ∈ c.settings, x.field = f ∧ x.entry = e := by
  rcases mem_entries.mp he with rfl | ⟨x, hx, rfl⟩ | he
  · exact absurd (hname.symm.trans c.lower_presetKey) hbase
  · exact ⟨x, hx, eq_of_name x.mem hf (x.lower_key.symm.trans hname), rfl⟩
  · exact absurd hname ((c.unused e he).ne f hf)

variable {entries : List (Datum × Datum)} (hperm : entries.Perm c.entries)

include hperm

theorem base_mem : c.base ∈ entries := hperm.mem_iff.mpr (mem_entries.mpr (.inl rfl))

theorem presetOf_eq : presetOf entries = .ok c.preset := by
  have hnamed : named "preset_base" entries = some (.str c.preset.name) :=
    named_eq_some (base_mem hperm) c.lower_presetKey fun e he => eq_base (hperm.mem_iff.mp he)
  have hunquote : String.ofList (unquote c.preset.name.toList) = c.preset.name := by
    cases c.preset <;> decide
  have hknown : Preset.ofName? c.preset.name = some c.preset := by
    cases c.preset <;> rfl
  have hshown : (Datum.str c.preset.name).displayed = .ok c.preset.name := Datum.displayed_str _
  simp only [presetOf, hnamed, Option.getD_some, hshown, bind, Except.bind, hunquote, hknown]
  rfl

/-- A field has the value that was written under its name, or nothing. -/
theorem gives {f : Field} (hf : f ∈ fields) (hbase : f.name ≠ "preset_base") :
    Gives entries f (c.assigned.lookup f.name) := by
  by_cases hset : ∃ x ∈ c.settings, x.field.name = f.name
  · obtain ⟨x, hx, hname⟩ := hset
    have hentry : x.entry ∈ entries :=
      hperm.mem_iff.mpr (mem_entries.mpr (.inr (.inl ⟨x, hx, rfl⟩)))
    obtain rfl := eq_of_name x.mem hf hname
    rw [assigned, lookup_assigned_of_mem c.nodup hx]
    refine ⟨x.written, named_eq_some hentry x.lower_key fun e he hlower => ?_,
      Form.read_of_writes x.writes⟩
    obtain ⟨y, hy, hfield, rfl⟩ := exists_setting (hperm.mem_iff.mp he) hf hbase hlower
    rw [List.inj_on_of_nodup_map c.nodup hy hx (congrArg Field.name hfield)]
  · have hnone : ∀ x ∈ c.settings, x.field.name ≠ f.name := fun x hx h => hset ⟨x, hx, h⟩
    rw [assigned, lookup_assigned_eq_none hnone]
    refine named_eq_none fun e he hlower => ?_
    obtain ⟨x, hx, rfl, -⟩ := exists_setting (hperm.mem_iff.mp he) hf hbase hlower
    exact hnone x hx rfl

/-- The fields are read over the parameters of the preset. -/
theorem ofConfig_eq_readFields :
    ofConfig (.dict entries) = readFields entries fields (ofPreset c.preset) := by
  have hnonempty : entries.isEmpty = false :=
    List.isEmpty_eq_false_iff.mpr (List.ne_nil_of_mem (base_mem hperm))
  have hshort : (entries.any fun e => e.1.isTooLong) = false :=
    List.any_eq_false.mpr fun e he => by simp [isTooLong_key (hperm.mem_iff.mp he)]
  rw [ofConfig, hnonempty, hshort]
  simp only [presetOf_eq hperm]
  rfl

end Configuration

/-- A configuration describes the parameters that are set by hand, over those of its preset, to the
values that it writes: its values go before the defaults of the preset, and these before the
defaults of the fields. -/
theorem ofConfig_eq_override (c : Configuration) {entries : List (Datum × Datum)}
    (hperm : entries.Perm c.entries) :
    ∃ s, ofConfig (.dict entries) = .ok s ∧ (ofPreset c.preset).override c.assigned = .ok s
      ∧ (∀ x ∈ c.settings, x.field.get s = x.value)
      ∧ ∀ f ∈ fields, (∀ x ∈ c.settings, x.field.name ≠ f.name) →
          f.get s = f.get (if f.name ∈ decidedByPreset then ofPreset c.preset else {}) := by
  have hassigned : c.assigned.map Prod.fst = c.settings.map fun x => x.field.name := by
    rw [Configuration.assigned, List.map_map]
    rfl
  have hknown : ∀ y ∈ c.assigned, ∃ f ∈ fields, f.name = y.1 := by
    intro y hy
    obtain ⟨x, -, rfl⟩ := List.mem_map.mp hy
    exact ⟨x.field, x.mem, rfl⟩
  have hbase : c.assigned.lookup "preset_base" = none :=
    lookup_assigned_eq_none fun x _ => x.ne
  obtain ⟨s, hoverride, hs⟩ := exists_override hknown (hassigned ▸ c.nodup) (ofPreset c.preset)
  obtain ⟨t, hread, ht⟩ := exists_readFields (fun name => c.assigned.lookup name) hbase
    (fun f hf => hf) nodup_name_fields (fun f hf => Configuration.gives hperm hf)
    (ofPreset c.preset)
  -- The fields were set in two orders, but each of them to the same value.
  have hsame : t = s := eq_of_get fun f hf => by
    rw [ht f hf, hs f hf, if_pos (List.mem_map.mpr ⟨f, hf, rfl⟩)]
  refine ⟨s, ?_, hoverride, fun x hx => ?_, fun f hf hfree => ?_⟩
  · rw [Configuration.ofConfig_eq_readFields hperm, hread, hsame]
  · rw [hs x.field x.mem, Configuration.assigned, lookup_assigned_of_mem c.nodup hx,
      Option.getD_some]
  · rw [hs f hf, Configuration.assigned, lookup_assigned_eq_none hfree, Option.getD_none]
    exact get_ofPreset c.preset f hf

/-- A configuration that writes its values in all ways, some of them under small letters. -/
def sample : Configuration where
  preset := .minimal
  presetKey := "PRESET_BASE"
  settings := [
    ⟨fields[0], .str "testnet", "config_name", .str "testnet",
      List.getElem_mem _, by decide, by decide, .text _⟩,
    ⟨fields[2], .int 5, "Seconds_Per_Slot", .str "5",
      List.getElem_mem _, by decide, by decide, .decimal (n := 5) (by decide +kernel)⟩,
    ⟨fields[3], .int 10, "SLOTS_PER_EPOCH", .str "0x0A",
      List.getElem_mem _, by decide, by decide, @Writes.hexadecimal 10 1 ['0', 'A'] (by decide)⟩,
    ⟨fields[8], .bytes [0, 0, 0, 1], "GENESIS_FORK_VERSION", .int 1,
      List.getElem_mem _, by decide, by decide, @Writes.bigEndian [0, 0, 0, 1] rfl⟩,
    ⟨fields[9], .bytes [1, 0, 0, 171], "Altair_Fork_Version", .str "010000aB",
      List.getElem_mem _, by decide, by decide,
      @Writes.bare [1, 0, 0, 171] "010000aB".toList rfl (by decide)⟩,
    ⟨fields[10], .int 18446744073709551615, "altair_fork_epoch", .int 18446744073709551615,
      List.getElem_mem _, by decide, by decide, .number _⟩,
    ⟨fields[11], .bytes [2, 0, 0, 171], "BELLATRIX_FORK_VERSION", .str "0x020000AB",
      List.getElem_mem _, by decide, by decide,
      @Writes.marked [2, 0, 0, 171] "020000AB".toList rfl (by decide)⟩]
  others := [(.str "DEPOSIT_CHAIN_ID", .str "1")]
  lower_presetKey := by decide
  nodup := by decide
  unused := by
    intro e he
    obtain rfl := List.mem_singleton.mp he
    exact ⟨rfl, by decide⟩

theorem ofConfig_eq_override_sample :
    ∃ s, ofConfig (.dict [(.str "DEPOSIT_CHAIN_ID", .str "1"),
        (.str "BELLATRIX_FORK_VERSION", .str "0x020000AB"),
        (.str "altair_fork_epoch", .int 18446744073709551615),
        (.str "Altair_Fork_Version", .str "010000aB"), (.str "GENESIS_FORK_VERSION", .int 1),
        (.str "SLOTS_PER_EPOCH", .str "0x0A"), (.str "Seconds_Per_Slot", .str "5"),
        (.str "config_name", .str "testnet"), (.str "PRESET_BASE", .str "minimal")]) = .ok s
      ∧ (ofPreset .minimal).override [("config_name", .str "testnet"),
          ("seconds_per_slot", .int 5), ("slots_per_epoch", .int 10),
          ("genesis_fork_version", .bytes [0, 0, 0, 1]),
          ("altair_fork_version", .bytes [1, 0, 0, 171]),
          ("altair_fork_epoch", .int 18446744073709551615),
          ("bellatrix_fork_version", .bytes [2, 0, 0, 171])] = .ok s := by
  obtain ⟨s, hread, hset, -⟩ := ofConfig_eq_override sample (List.reverse_perm sample.entries)
  exact ⟨s, hread, hset⟩

end BeaconHarness.Spec
