import BeaconHarness.Network.Config
import BeaconHarness.Proofs.Datum.Reading

/-!
# Faults of configurations

The fields of a configuration are read in their order, and the first one that cannot be read decides
how that fails. The failure names the field and its value, with two exceptions. A number that does
not fit into the four bytes of a version is out of range like any number that is laid out, and a
value that holds an integer of too many digits cannot be shown. Neither is told as a fault of the
configuration, and nor is a key or a preset that cannot be shown.

Main statement: these are all the failures that are not told as faults of the configuration
(`escapes_iff`).
-/

namespace BeaconHarness.Spec

variable {entries : List (Datum × Datum)} {f : Field} {fs : List Field} {s : Spec} {e : Failure}

/-! ## The first field that cannot be read -/

/-- What a configuration has for a field. The preset is not read a second time. -/
def valueFor (entries : List (Datum × Datum)) (f : Field) : Option Datum :=
  if f.name = "preset_base" then none else named f.name entries

/-- Whether a field can be read, or has nothing to be read. -/
def Passes (entries : List (Datum × Datum)) (f : Field) : Prop :=
  ∀ d, valueFor entries f = some d → ∃ v, f.form.read d = .ok v

/-- Whether a field cannot be read, and how that is told. -/
def Fails (entries : List (Datum × Datum)) (f : Field) (e : Failure) : Prop :=
  ∃ d cause, valueFor entries f = some d ∧ f.form.read d = .error cause ∧ blame f.name d cause = e

/-- Whether the first of some fields that cannot be read fails in a way. -/
def FirstFails (entries : List (Datum × Datum)) (fs : List Field) (e : Failure) : Prop :=
  ∃ before f after, fs = before ++ f :: after ∧ (∀ g ∈ before, Passes entries g)
    ∧ Fails entries f e

theorem passes_or_fails (entries : List (Datum × Datum)) (f : Field) :
    Passes entries f ∨ ∃ e, Fails entries f e := by
  cases hvalue : valueFor entries f with
  | none =>
    refine .inl fun d hd => ?_
    rw [hvalue] at hd
    cases hd
  | some d =>
    cases hread : f.form.read d with
    | ok v =>
      refine .inl fun d' hd => ?_
      rw [hvalue] at hd
      cases hd
      exact ⟨v, hread⟩
    | error cause => exact .inr ⟨_, d, cause, hvalue, hread, rfl⟩

theorem Passes.not_fails (h : Passes entries f) : ¬ Fails entries f e := by
  rintro ⟨d, cause, hvalue, hread, -⟩
  obtain ⟨v, hv⟩ := h d hvalue
  rw [hread] at hv
  cases hv

theorem readFields_of_passes (h : Passes entries f) (fs : List Field) (s : Spec) :
    ∃ t, readFields entries (f :: fs) s = readFields entries fs t := by
  rw [readFields]
  by_cases hbase : f.name = "preset_base"
  · exact ⟨s, by rw [if_pos hbase]⟩
  · rw [if_neg hbase]
    cases hnamed : named f.name entries with
    | none => exact ⟨s, rfl⟩
    | some d =>
      obtain ⟨v, hread⟩ := h d (by rw [valueFor, if_neg hbase, hnamed])
      exact ⟨f.set s v, by simp only [hread]⟩

theorem readFields_of_fails (h : Fails entries f e) (fs : List Field) (s : Spec) :
    readFields entries (f :: fs) s = .error e := by
  obtain ⟨d, cause, hvalue, hread, rfl⟩ := h
  rw [valueFor] at hvalue
  split at hvalue
  next => cases hvalue
  next hbase => simp only [readFields, if_neg hbase, hvalue, hread]

/-- Reading fields fails as the first of them that cannot be read. -/
theorem readFields_eq_error_iff : readFields entries fs s = .error e ↔ FirstFails entries fs e := by
  induction fs generalizing s with
  | nil =>
    refine ⟨nofun, ?_⟩
    rintro ⟨before, f, after, hnil, -⟩
    exact absurd hnil.symm (List.append_ne_nil_of_right_ne_nil _ (List.cons_ne_nil f after))
  | cons f fs ih =>
    rcases passes_or_fails entries f with hpasses | ⟨first, hfails⟩
    · obtain ⟨t, hread⟩ := readFields_of_passes hpasses fs s
      rw [hread, ih]
      constructor
      · rintro ⟨before, g, after, rfl, hbefore, hg⟩
        exact ⟨f :: before, g, after, rfl, List.forall_mem_cons.mpr ⟨hpasses, hbefore⟩, hg⟩
      · rintro ⟨before, g, after, hsplit, hbefore, hg⟩
        cases before with
        | nil =>
          cases hsplit
          exact absurd hg hpasses.not_fails
        | cons _ before =>
          cases hsplit
          exact ⟨before, g, after, rfl, (List.forall_mem_cons.mp hbefore).2, hg⟩
    · rw [readFields_of_fails hfails]
      constructor
      · intro h
        cases h
        exact ⟨[], f, fs, rfl, nofun, hfails⟩
      · rintro ⟨before, g, after, hsplit, hbefore, hg⟩
        cases before with
        | nil =>
          cases hsplit
          obtain ⟨d, cause, hvalue, hread, rfl⟩ := hfails
          obtain ⟨d', cause', hvalue', hread', rfl⟩ := hg
          rw [hvalue] at hvalue'
          cases hvalue'
          rw [hread] at hread'
          cases hread'
          rfl
        | cons _ before =>
          cases hsplit
          exact absurd hfails (hbefore _ List.mem_cons_self).not_fails

/-! ## How a value cannot be read -/

/-- An integer that four bytes have no room for. -/
def OutOfVersion (d : Datum) : Prop := ∃ n, d.exactInteger? = some n ∧ ¬ (0 ≤ n ∧ n < 4294967296)

/-- Whether a value of a form cannot be shown where it is read as a text. -/
def Unshowable (form : Form) (d : Datum) : Prop :=
  d.isTooLong = true ∧ (d.exactInteger? = none ∨ form = .text)

theorem displayed_eq_error {d : Datum} (h : d.displayed = .error e) :
    d.isTooLong = true ∧ e = .unreadable .other := by
  rw [Datum.displayed] at h
  split at h
  next hlong =>
    cases h
    exact ⟨hlong, rfl⟩
  next => cases h

theorem displayed_of_isTooLong {d : Datum} (h : d.isTooLong = true) :
    d.displayed = .error (.unreadable .other) := if_pos h

theorem readInteger_eq_error {base : Text.Integer.Base} {text : List Char} {shown : String}
    (h : Datum.readInteger base text shown = .error e) : ∃ cause, e = .unreadable cause := by
  rw [Datum.readInteger] at h
  split at h
  · cases h
  · exact ⟨_, (Except.error.inj h).symm⟩
  · exact ⟨_, (Except.error.inj h).symm⟩

theorem readHex_eq_error {text : String} (h : Datum.readHex text = .error e) :
    ∃ cause, e = .unreadable cause := by
  rw [Datum.readHex] at h
  split at h
  · cases h
  · exact ⟨_, (Except.error.inj h).symm⟩

/-- What holds an integer of too many digits and is none itself is neither a number nor bytes. -/
theorem read_collection {d : Datum} (hlong : d.isTooLong = true) (hno : d.exactInteger? = none) :
    readNumber d = (readNumberText d).map .int
    ∧ versionBytes d
      = (do Datum.readHex (String.ofList (unmarkAll (Text.strip (← d.displayed).toList)))) := by
  cases d with
  | int n => cases hno
  | list items => exact ⟨rfl, rfl⟩
  | tuple items => exact ⟨rfl, rfl⟩
  | set items => exact ⟨rfl, rfl⟩
  | dict entries => exact ⟨rfl, rfl⟩
  | _ => cases hlong

theorem versionBytes_of_exactInteger? {d : Datum} {n : Int} (h : d.exactInteger? = some n) :
    versionBytes d = versionOfInt n := by
  unfold Datum.exactInteger? at h
  split at h
  all_goals first | cases h; rfl | cases h

/-- An integer of too many digits does not fit into four bytes. -/
theorem not_fits_of_isTooLong {n : Int} (h : Text.Integer.isTooLong n = true) :
    ¬ (0 ≤ n ∧ n < 4294967296) := by
  rw [Text.Integer.isTooLong, Bool.and_eq_true, decide_eq_true_eq] at h
  have hlog : 32 ≤ Nat.log2 n.natAbs := Nat.le_trans (by decide) h.1
  have hne : n.natAbs ≠ 0 := by
    intro hzero
    rw [hzero] at hlog
    exact absurd hlog (by decide)
  have hpow : 2 ^ 32 ≤ 2 ^ Nat.log2 n.natAbs := Nat.pow_le_pow_right (by decide) hlog
  have hself := Nat.log2_self_le hne
  omega

theorem versionOfInt_of_not_fits {n : Int} (h : ¬ (0 ≤ n ∧ n < 4294967296)) :
    versionOfInt n = .error .outOfRange := by
  have hcapacity : Bytes.capacity 4 = 4294967296 := by decide
  rw [versionOfInt, if_neg]
  rw [hcapacity, Bool.and_eq_true, decide_eq_true_eq, decide_eq_true_eq]
  omega

theorem versionOfInt_of_fits {n : Int} (h : 0 ≤ n ∧ n < 4294967296) :
    versionOfInt n = .ok (Bytes.bigEndian 4 n.toNat) := by
  have hcapacity : Bytes.capacity 4 = 4294967296 := by decide
  rw [versionOfInt, if_pos]
  rw [hcapacity, Bool.and_eq_true, decide_eq_true_eq, decide_eq_true_eq]
  omega

theorem Form.read_of_outOfVersion {d : Datum} (h : OutOfVersion d) :
    Form.version.read d = .error .outOfRange := by
  obtain ⟨n, hn, hrange⟩ := h
  rw [Form.read, readVersion, versionBytes_of_exactInteger? hn, versionOfInt_of_not_fits hrange]
  rfl

theorem Form.read_of_unshowable {form : Form} {d : Datum} (h : Unshowable form d) :
    form.read d = .error (.unreadable .other) := by
  obtain ⟨hlong, hkind⟩ := h
  have hshown := displayed_of_isTooLong hlong
  cases form with
  | text =>
    rw [Form.read, hshown]
    rfl
  | number =>
    obtain ⟨hnumber, -⟩ := read_collection hlong (hkind.resolve_right nofun)
    rw [Form.read, hnumber, readNumberText, hshown]
    rfl
  | version =>
    obtain ⟨-, hversion⟩ := read_collection hlong (hkind.resolve_right nofun)
    rw [Form.read, readVersion, hversion, hshown]
    rfl

theorem readNumberText_eq_error {d : Datum} (h : readNumberText d = .error e) :
    ∃ cause, e = .unreadable cause := by
  rw [readNumberText] at h
  cases hshown : d.displayed with
  | error e' =>
    rw [hshown] at h
    cases h
    exact ⟨_, (displayed_eq_error hshown).2⟩
  | ok text =>
    rw [hshown] at h
    simp only [bind, Except.bind] at h
    split at h
    · exact readInteger_eq_error h
    · exact readInteger_eq_error h

theorem readNumber_eq_error {d : Datum} (h : readNumber d = .error e) :
    ∃ cause, e = .unreadable cause := by
  unfold readNumber at h
  split at h
  case h_1 => exact ⟨_, (Except.error.inj h).symm⟩
  case h_7 =>
    cases htext : readNumberText d with
    | error e' =>
      rw [htext] at h
      cases h
      exact readNumberText_eq_error htext
    | ok n =>
      rw [htext] at h
      cases h
  all_goals cases h

theorem versionBytes_eq_error {d : Datum} (h : versionBytes d = .error e) :
    (∃ cause, e = .unreadable cause) ∨ e = .outOfRange ∧ OutOfVersion d := by
  cases hinteger : d.exactInteger? with
  | some n =>
    rw [versionBytes_of_exactInteger? hinteger] at h
    by_cases hfits : 0 ≤ n ∧ n < 4294967296
    · rw [versionOfInt_of_fits hfits] at h
      cases h
    · rw [versionOfInt_of_not_fits hfits] at h
      exact .inr ⟨(Except.error.inj h).symm, n, hinteger, hfits⟩
  | none =>
    left
    unfold versionBytes at h
    split at h
    case h_1 | h_2 => cases h
    case h_7 =>
      cases hshown : d.displayed with
      | error e' =>
        rw [hshown] at h
        cases h
        exact ⟨_, (displayed_eq_error hshown).2⟩
      | ok text =>
        rw [hshown] at h
        simp only [bind, Except.bind] at h
        exact readHex_eq_error h
    all_goals cases hinteger

/-- A value is unreadable for some cause, unless it is a number out of the range of versions. -/
theorem Form.read_eq_error {form : Form} {d : Datum} (h : form.read d = .error e) :
    (∃ cause, e = .unreadable cause) ∨ e = .outOfRange ∧ form = .version ∧ OutOfVersion d := by
  cases form with
  | text =>
    cases hshown : d.displayed with
    | error e' =>
      rw [Form.read, hshown] at h
      cases h
      exact .inl ⟨_, (displayed_eq_error hshown).2⟩
    | ok text =>
      rw [Form.read, hshown] at h
      cases h
  | number => exact .inl (readNumber_eq_error h)
  | version =>
    rw [Form.read, readVersion] at h
    cases hbytes : versionBytes d with
    | error e' =>
      rw [hbytes] at h
      cases h
      rcases versionBytes_eq_error hbytes with hcause | ⟨hrange, hout⟩
      · exact .inl hcause
      · exact .inr ⟨hrange, rfl, hout⟩
    | ok b =>
      rw [hbytes] at h
      simp only at h
      split at h
      · cases h
      · cases h
        exact .inl ⟨_, rfl⟩

/-- An integer of too many digits is no version, and is a number. -/
theorem unshowable_of_read {form : Form} {d : Datum} {cause : Unreadable}
    (h : form.read d = .error (.unreadable cause)) (hlong : d.isTooLong = true) :
    Unshowable form d := by
  refine ⟨hlong, ?_⟩
  by_cases hno : d.exactInteger? = none
  · exact .inl hno
  · right
    cases d with
    | int n =>
      cases form with
      | text => rfl
      | number => cases h
      | version =>
        have hbytes : versionBytes (.int n) = versionOfInt n := rfl
        rw [Form.read, readVersion, hbytes,
          versionOfInt_of_not_fits (not_fits_of_isTooLong hlong)] at h
        cases h
    | list items => exact absurd rfl hno
    | tuple items => exact absurd rfl hno
    | set items => exact absurd rfl hno
    | dict entries => exact absurd rfl hno
    | _ => cases hlong

/-! ## Failures that are not told as faults of the configuration -/

theorem blame_of_isTooLong {name : String} {d : Datum} (h : d.isTooLong = true) :
    blame name d (.unreadable .other) = .unreadable .other := if_pos h

theorem blame_of_short {name : String} {d : Datum} (h : d.isTooLong = false)
    (cause : Unreadable) :
    blame name d (.unreadable cause) = .config (.value (Text.upper name) d.quoted cause) := by
  simp only [blame, h]
  rfl

/-- A field that cannot be read is told as a fault of the configuration, unless its value is out of
range or cannot be shown. -/
theorem Fails.cases (h : Fails entries f e) :
    (∃ fault, e = .config fault)
    ∨ ∃ d, valueFor entries f = some d
      ∧ (e = .outOfRange ∧ f.form = .version ∧ OutOfVersion d
        ∨ e = .unreadable .other ∧ Unshowable f.form d) := by
  obtain ⟨d, cause, hvalue, hread, rfl⟩ := h
  rcases Form.read_eq_error hread with ⟨cause, rfl⟩ | ⟨rfl, hform, hout⟩
  · cases hlong : d.isTooLong with
    | false => exact .inl ⟨_, blame_of_short hlong cause⟩
    | true =>
      have hunshowable := unshowable_of_read hread hlong
      rw [Form.read_of_unshowable hunshowable] at hread
      cases hread
      exact .inr ⟨d, hvalue, .inr ⟨blame_of_isTooLong hlong, hunshowable⟩⟩
  · exact .inr ⟨d, hvalue, .inl ⟨rfl, hform, hout⟩⟩

/-- The ways in which a configuration fails that are not told as faults of it. -/
inductive Escapes (entries : List (Datum × Datum)) : Failure → Prop
  /-- A key cannot be shown. -/
  | key {entry : Datum × Datum} (hentry : entry ∈ entries) (hlong : entry.1.isTooLong = true) :
    Escapes entries (.unreadable .other)
  /-- The name of the preset cannot be shown. -/
  | preset {d : Datum} (hkeys : ∀ entry ∈ entries, entry.1.isTooLong = false)
    (hd : named "preset_base" entries = some d) (hlong : d.isTooLong = true) :
    Escapes entries (.unreadable .other)
  /-- The first field that cannot be read has a number that is no version. -/
  | version {p : Preset} {before after : List Field} {f : Field} {d : Datum}
    (hkeys : ∀ entry ∈ entries, entry.1.isTooLong = false) (hpreset : presetOf entries = .ok p)
    (hfields : fields = before ++ f :: after) (hbefore : ∀ g ∈ before, Passes entries g)
    (hd : valueFor entries f = some d) (hform : f.form = .version) (hout : OutOfVersion d) :
    Escapes entries .outOfRange
  /-- The first field that cannot be read has a value that cannot be shown. -/
  | value {p : Preset} {before after : List Field} {f : Field} {d : Datum}
    (hkeys : ∀ entry ∈ entries, entry.1.isTooLong = false) (hpreset : presetOf entries = .ok p)
    (hfields : fields = before ++ f :: after) (hbefore : ∀ g ∈ before, Passes entries g)
    (hd : valueFor entries f = some d) (hunshowable : Unshowable f.form d) :
    Escapes entries (.unreadable .other)

theorem presetOf_of_isTooLong {d : Datum} (hd : named "preset_base" entries = some d)
    (hlong : d.isTooLong = true) : presetOf entries = .error (.unreadable .other) := by
  rw [presetOf, hd, Option.getD_some, displayed_of_isTooLong hlong]
  rfl

/-- A preset that is not found is a fault of the configuration, unless it cannot be shown. -/
theorem presetOf_eq_error (h : presetOf entries = .error e) :
    (∃ fault, e = .config fault)
    ∨ e = .unreadable .other ∧ ∃ d, named "preset_base" entries = some d ∧ d.isTooLong = true := by
  cases hd : named "preset_base" entries with
  | none =>
    rw [presetOf, hd, Option.getD_none, Datum.displayed_str] at h
    simp only [bind, Except.bind] at h
    split at h
    · cases h
    · exact .inl ⟨_, (Except.error.inj h).symm⟩
  | some d =>
    cases hlong : d.isTooLong with
    | true =>
      rw [presetOf_of_isTooLong hd hlong] at h
      exact .inr ⟨(Except.error.inj h).symm, d, rfl, hlong⟩
    | false =>
      have hshown : d.displayed = .ok d.display := by
        rw [Datum.displayed, hlong]
        rfl
      rw [presetOf, hd, Option.getD_some, hshown] at h
      simp only [bind, Except.bind] at h
      split at h
      · cases h
      · exact .inl ⟨_, (Except.error.inj h).symm⟩

/-- A configuration whose keys have texts is read by its preset first, and then field by field. -/
theorem ofConfig_of_keys (hne : entries ≠ [])
    (hkeys : ∀ entry ∈ entries, entry.1.isTooLong = false) :
    ofConfig (.dict entries) = match presetOf entries with
      | .error e => .error e
      | .ok p => readFields entries fields (ofPreset p) := by
  have hempty : entries.isEmpty = false := List.isEmpty_eq_false_iff.mpr hne
  have hshort : (entries.any fun entry => entry.1.isTooLong) = false :=
    List.any_eq_false.mpr fun entry hentry => by simp [hkeys entry hentry]
  rw [ofConfig, hempty, hshort]
  rfl

theorem ofConfig_of_key {entry : Datum × Datum} (hentry : entry ∈ entries)
    (hlong : entry.1.isTooLong = true) :
    ofConfig (.dict entries) = .error (.unreadable .other) := by
  have hempty : entries.isEmpty = false :=
    List.isEmpty_eq_false_iff.mpr (List.ne_nil_of_mem hentry)
  have hany : (entries.any fun entry => entry.1.isTooLong) = true :=
    List.any_eq_true.mpr ⟨entry, hentry, hlong⟩
  rw [ofConfig, hempty, hany]
  rfl

theorem ne_nil_of_named {name : String} {d : Datum} (h : named name entries = some d) :
    entries ≠ [] := by
  rintro rfl
  cases h

theorem ne_nil_of_valueFor {d : Datum} (h : valueFor entries f = some d) : entries ≠ [] := by
  rw [valueFor] at h
  split at h
  · cases h
  · exact ne_nil_of_named h

/-- A field that cannot be read fails the configuration if its preset and all fields before it can
be read. -/
theorem ofConfig_of_fails {p : Preset} {before after : List Field} {d : Datum} {cause : Failure}
    (hkeys : ∀ entry ∈ entries, entry.1.isTooLong = false) (hpreset : presetOf entries = .ok p)
    (hfields : fields = before ++ f :: after) (hbefore : ∀ g ∈ before, Passes entries g)
    (hd : valueFor entries f = some d) (hread : f.form.read d = .error cause) :
    ofConfig (.dict entries) = .error (blame f.name d cause) := by
  rw [ofConfig_of_keys (ne_nil_of_valueFor hd) hkeys, hpreset]
  exact readFields_eq_error_iff.mpr
    ⟨before, f, after, hfields, hbefore, d, cause, hd, hread, rfl⟩

theorem ofConfig_of_escapes (h : Escapes entries e) :
    ofConfig (.dict entries) = .error e ∧ ∀ fault, e ≠ .config fault := by
  cases h with
  | key hentry hlong => exact ⟨ofConfig_of_key hentry hlong, nofun⟩
  | preset hkeys hd hlong =>
    rw [ofConfig_of_keys (ne_nil_of_named hd) hkeys, presetOf_of_isTooLong hd hlong]
    exact ⟨rfl, nofun⟩
  | @version p before after f d hkeys hpreset hfields hbefore hd hform hout =>
    have hread : f.form.read d = .error .outOfRange := by
      rw [hform]
      exact Form.read_of_outOfVersion hout
    exact ⟨ofConfig_of_fails hkeys hpreset hfields hbefore hd hread, nofun⟩
  | value hkeys hpreset hfields hbefore hd hunshowable =>
    rw [ofConfig_of_fails hkeys hpreset hfields hbefore hd (Form.read_of_unshowable hunshowable),
      blame_of_isTooLong hunshowable.1]
    exact ⟨rfl, nofun⟩

/-- A configuration fails in a way that is not told as a fault of it exactly where a key or the name
of its preset cannot be shown, or where the first field that cannot be read has a number out of the
range of versions or a value that cannot be shown. All other configurations describe parameters or
have a fault. -/
theorem escapes_iff (entries : List (Datum × Datum)) (e : Failure) :
    Escapes entries e ↔ ofConfig (.dict entries) = .error e ∧ ∀ fault, e ≠ .config fault := by
  refine ⟨ofConfig_of_escapes, ?_⟩
  rintro ⟨hfails, htold⟩
  by_cases hlong : ∃ entry ∈ entries, entry.1.isTooLong = true
  · obtain ⟨entry, hentry, hlong⟩ := hlong
    rw [ofConfig_of_key hentry hlong] at hfails
    cases hfails
    exact .key hentry hlong
  have hkeys : ∀ entry ∈ entries, entry.1.isTooLong = false := fun entry hentry =>
    Bool.eq_false_iff.mpr fun htrue => hlong ⟨entry, hentry, htrue⟩
  by_cases hne : entries = []
  · subst hne
    obtain rfl := Except.error.inj hfails
    exact absurd rfl (htold .empty)
  rw [ofConfig_of_keys hne hkeys] at hfails
  cases hpreset : presetOf entries with
  | error e' =>
    rw [hpreset] at hfails
    cases hfails
    rcases presetOf_eq_error hpreset with ⟨fault, rfl⟩ | ⟨rfl, d, hd, hlong⟩
    · exact absurd rfl (htold fault)
    · exact .preset hkeys hd hlong
  | ok p =>
    rw [hpreset] at hfails
    obtain ⟨before, f, after, hfields, hbefore, hf⟩ := readFields_eq_error_iff.mp hfails
    rcases hf.cases with ⟨fault, rfl⟩ | ⟨d, hd, ⟨rfl, hform, hout⟩ | ⟨rfl, hunshowable⟩⟩
    · exact absurd rfl (htold fault)
    · exact .version hkeys hpreset hfields hbefore hd hform hout
    · exact .value hkeys hpreset hfields hbefore hd hunshowable

/-- A version that is given as a number is out of range where the same number as a text is a fault of
the configuration. -/
theorem escapes_genesisForkVersion :
    ofConfig (.dict [(.str "PRESET_BASE", .str "mainnet"),
      (.str "GENESIS_FORK_VERSION", .int 4294967296)]) = .error .outOfRange
    ∧ ofConfig (.dict [(.str "PRESET_BASE", .str "mainnet"),
      (.str "GENESIS_FORK_VERSION", .str "4294967296")])
        = .error (.config (.value "GENESIS_FORK_VERSION" "'4294967296'" (.wrongLength 4 5))) := by
  constructor <;> rfl

end BeaconHarness.Spec
