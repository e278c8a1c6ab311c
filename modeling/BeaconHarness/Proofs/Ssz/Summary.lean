import BeaconHarness.Proofs.Ssz.Root

/-!
# Summaries

A summary of a container has roots in place of some of its fields. A field with a root is named
after the field that it stands for, and all other fields are copied by their names. The tree above
the fields cannot tell the two apart: where the container has the root of a field for a node, the
summary has a chunk that is its own root.

Whether a schema is that of a summary is a question about the two lists of fields, which asks for
the fields of both in the same order.

Main statements: a summary belongs to its schema and has the root of the container
(`admits_summary`, `root_summary`).
-/

namespace BeaconHarness.Ssz

/-! ## The fields of a container -/

/-- The field of a name is found where it stands, if no other one has the name. -/
theorem lookup_of_mem {fields : Fields} {vs : List Value} (hnames : (fields.map Prod.fst).Nodup)
    (hvs : Schema.admitsFields fields vs = true) {field : String × Schema} (h : field ∈ fields) :
    ∃ v, lookup field.1 fields vs = some ⟨field.2, v⟩ ∧ field.2.admits v = true := by
  induction fields generalizing vs with
  | nil => exact absurd h List.not_mem_nil
  | cons first fields ih =>
    cases vs with
    | nil => exact absurd hvs (by simp [Schema.admitsFields])
    | cons v vs =>
      obtain ⟨hv, hvs⟩ := (Bool.and_eq_true _ _).mp hvs
      obtain ⟨hfirst, hnames⟩ := List.nodup_cons.mp hnames
      rcases List.mem_cons.mp h with rfl | hrest
      · exact ⟨v, if_pos rfl, hv⟩
      · have hne : ¬ first.1 = field.1 := by
          intro heq
          apply hfirst
          rw [heq]
          exact List.mem_map_of_mem hrest
        obtain ⟨w, hw, hadmits⟩ := ih hnames hvs hrest
        refine ⟨w, ?_, hadmits⟩
        show (if first.1 = field.1 then _ else lookup field.1 fields vs) = _
        rw [if_neg hne, hw]

theorem exists_uint_of_admits {width : Nat} {v : Value}
    (hv : (Schema.uint width).admits v = true) : ∃ n, v = .uint n ∧ n < Bytes.capacity width := by
  cases v with
  | uint n => exact ⟨n, rfl, of_decide_eq_true hv⟩
  | _ => exact absurd hv (by simp [Schema.admits])

theorem exists_bytes_of_admits {length : Nat} {v : Value}
    (hv : (Schema.byteVector length).admits v = true) : ∃ b, v = .bytes b ∧ b.length = length := by
  cases v with
  | bytes b => exact ⟨b, rfl, of_decide_eq_true hv⟩
  | _ => exact absurd hv (by simp [Schema.admits])

theorem exists_boolean_of_admits {v : Value} (hv : Schema.boolean.admits v = true) :
    ∃ b, v = .boolean b := by
  cases v with
  | boolean b => exact ⟨b, rfl⟩
  | _ => exact absurd hv (by simp [Schema.admits])

theorem exists_seq_of_admits {name : String} {fields : Fields} {v : Value}
    (hv : (Schema.container name fields).admits v = true) :
    ∃ vs, v = .seq vs ∧ Schema.admitsFields fields vs = true := by
  cases v with
  | seq vs => exact ⟨vs, rfl, hv⟩
  | _ => exact absurd hv (by simp [Schema.admits])

/-- The field of a container has the schema that the container gives it. -/
theorem field_of_mem {name : String} {fields : Fields} {v : Value}
    (hnames : (fields.map Prod.fst).Nodup) (hv : (Schema.container name fields).admits v = true)
    {field : String × Schema} (h : field ∈ fields) :
    ∃ w, Object.field ⟨.container name fields, v⟩ field.1 = ⟨field.2, w⟩ ∧
      field.2.admits w = true := by
  obtain ⟨vs, rfl, hvs⟩ := exists_seq_of_admits hv
  obtain ⟨w, hlookup, hw⟩ := lookup_of_mem hnames hvs h
  refine ⟨w, ?_, hw⟩
  show (lookup field.1 fields vs).getD default = _
  rw [hlookup]
  rfl

/-- The roots of fields are those of the fields by their names. -/
theorem fieldRoots_eq_map_lookup {fields : Fields} {vs : List Value}
    (hnames : (fields.map Prod.fst).Nodup) (hvs : Schema.admitsFields fields vs = true) :
    fieldRoots fields vs =
      fields.map fun field => ((lookup field.1 fields vs).getD default).root := by
  induction fields generalizing vs with
  | nil => cases vs <;> rfl
  | cons first fields ih =>
    cases vs with
    | nil => exact absurd hvs (by simp [Schema.admitsFields])
    | cons v vs =>
      obtain ⟨_, hvs⟩ := (Bool.and_eq_true _ _).mp hvs
      obtain ⟨hfirst, hnames⟩ := List.nodup_cons.mp hnames
      have hhead : lookup first.1 (first :: fields) (v :: vs) = some ⟨first.2, v⟩ := if_pos rfl
      have htail : ∀ field ∈ fields,
          lookup field.1 (first :: fields) (v :: vs) = lookup field.1 fields vs := by
        intro field hfield
        refine if_neg ?_
        intro heq
        apply hfirst
        rw [heq]
        exact List.mem_map_of_mem hfield
      show hashTreeRoot first.2 v :: fieldRoots fields vs = _
      rw [List.map_cons, hhead, ih hnames hvs]
      refine congrArg (hashTreeRoot first.2 v :: ·) (List.map_congr_left ?_)
      intro field hfield
      rw [htail field hfield]

/-- The roots of fields whose values depend on their names. -/
theorem fieldRoots_map (fields : Fields) (value : String × Schema → Value) :
    fieldRoots fields (fields.map value) =
      fields.map fun field => hashTreeRoot field.2 (value field) := by
  induction fields with
  | nil => rfl
  | cons field fields ih =>
    rw [List.map_cons, List.map_cons, ← ih]
    rfl

theorem admitsFields_map {fields : Fields} {value : String × Schema → Value}
    (h : ∀ field ∈ fields, field.2.admits (value field) = true) :
    Schema.admitsFields fields (fields.map value) = true := by
  induction fields with
  | nil => rfl
  | cons field fields ih =>
    refine (Bool.and_eq_true _ _).mpr ⟨h field List.mem_cons_self, ih ?_⟩
    intro other hother
    exact h other (List.mem_cons_of_mem field hother)

/-! ## Summaries -/

/-- The name of the field that holds the root of a field. -/
def rootName (name : String) : String := name ++ "_root"

theorem rootName_injective {name other : String} (h : rootName name = rootName other) :
    name = other := by
  unfold rootName at h
  exact (String.append_left_inj "_root").mp h

/-- The field of a summary for a field of a container: one for its root if it is listed, and the
field itself otherwise. -/
def standIn (listed : List String) (field : String × Schema) : String × Schema :=
  if field.1 ∈ listed then (rootName field.1, .byteVector chunkWidth) else field

/-- Whether fields are those of a summary of a container with the listed fields. -/
structure Summarizes (listed : List String) (fields summary : Fields) : Prop where
  /-- The fields stand in the order of the container. -/
  summary_eq : summary = fields.map (standIn listed)
  names : (fields.map Prod.fst).Nodup
  /-- A field that is copied is not taken for the root of a listed one. -/
  apart : ∀ field ∈ fields, ∀ name ∈ listed, field.1 ≠ rootName name
  fits : Schema.allFitChunks fields = true

namespace Object

/-- The value of a field of a summary: the root of the listed field that it is named after, or else
the value of the field of its own name. -/
def summaryValue (x : Object) (listed : List String) (name : String) : Value :=
  match listed.find? fun part => rootName part = name with
  | some part => .bytes (x.field part).root
  | none => (x.field name).value

/-- A container summed up under a schema, with roots for the listed fields. -/
def summary (x : Object) (listed : List String) (τ : Schema) : Object :=
  ⟨τ, .seq (τ.fields.map fun field => x.summaryValue listed field.1)⟩

end Object

section

variable {listed : List String} {name : String} {fields summary : Fields} {v : Value}
  {field : String × Schema}

theorem fitsChunks_of_mem (hfits : Schema.allFitChunks fields = true) (h : field ∈ fields) :
    field.2.fitsChunks = true := by
  induction fields with
  | nil => exact absurd h List.not_mem_nil
  | cons first fields ih =>
    obtain ⟨hfirst, hrest⟩ := (Bool.and_eq_true _ _).mp hfits
    rcases List.mem_cons.mp h with rfl | h
    · exact hfirst
    · exact ih hrest h

/-- The value that a summary has for a listed field. -/
theorem summaryValue_of_mem (x : Object) (h : field.1 ∈ listed) :
    x.summaryValue listed (standIn listed field).1 = .bytes (x.field field.1).root := by
  have hfind : listed.find? (fun part => rootName part = rootName field.1) = some field.1 := by
    -- The search may stop only at the field's own name, since root names tell names apart.
    have hsome : (listed.find? fun part => rootName part = rootName field.1).isSome := by
      rw [List.find?_isSome]
      exact ⟨field.1, h, decide_eq_true rfl⟩
    obtain ⟨part, hpart⟩ := Option.isSome_iff_exists.mp hsome
    have hroot : rootName part = rootName field.1 := by
      have htrue := List.find?_some hpart
      exact of_decide_eq_true htrue
    rw [hpart, rootName_injective hroot]
  unfold standIn Object.summaryValue
  rw [if_pos h, hfind]

/-- The value that a summary has for any other field. -/
theorem summaryValue_of_not_mem (x : Object) (h : field.1 ∉ listed)
    (hapart : ∀ name ∈ listed, field.1 ≠ rootName name) :
    x.summaryValue listed (standIn listed field).1 = (x.field field.1).value := by
  have hfind : listed.find? (fun part => rootName part = field.1) = none := by
    rw [List.find?_eq_none]
    intro part hpart
    rw [decide_eq_true_eq]
    exact (hapart part hpart).symm
  unfold standIn Object.summaryValue
  rw [if_neg h, hfind]

/-- What stands in for a field has the root of the field and belongs to its own schema. -/
theorem standIn_spec (hsummary : Summarizes listed fields summary)
    (hv : (Schema.container name fields).admits v = true) (h : field ∈ fields) :
    let x : Object := ⟨.container name fields, v⟩
    (standIn listed field).2.admits (x.summaryValue listed (standIn listed field).1) = true ∧
    hashTreeRoot (standIn listed field).2 (x.summaryValue listed (standIn listed field).1) =
      (x.field field.1).root := by
  intro x
  obtain ⟨w, hfield, hw⟩ := field_of_mem hsummary.names hv h
  -- Either a root stands for the field, which is its own root, or the field is copied.
  by_cases hlisted : field.1 ∈ listed
  · have hlength : (x.field field.1).root.length = chunkWidth := by
      rw [hfield]
      exact length_hashTreeRoot (fitsChunks_of_mem hsummary.fits h) w
    rw [summaryValue_of_mem x hlisted]
    unfold standIn
    rw [if_pos hlisted]
    exact ⟨decide_eq_true hlength, hashTreeRoot_chunk hlength⟩
  · rw [summaryValue_of_not_mem x hlisted (hsummary.apart field h)]
    unfold standIn
    rw [if_neg hlisted, hfield]
    exact ⟨hw, rfl⟩

/-- A summary belongs to its schema. -/
theorem admits_summary (hsummary : Summarizes listed fields summary)
    (hv : (Schema.container name fields).admits v = true) (other : String) :
    (Schema.container other summary).admits
      (Object.summary ⟨.container name fields, v⟩ listed (.container other summary)).value =
        true := by
  apply admitsFields_map
  intro field hfield
  rw [hsummary.summary_eq] at hfield
  obtain ⟨source, hsource, rfl⟩ := List.mem_map.mp hfield
  exact (standIn_spec hsummary hv hsource).1

/-- A summary has the root of the container. -/
theorem root_summary (hsummary : Summarizes listed fields summary)
    (hv : (Schema.container name fields).admits v = true) (other : String) :
    (Object.summary ⟨.container name fields, v⟩ listed (.container other summary)).root =
      Object.root ⟨.container name fields, v⟩ := by
  obtain ⟨vs, rfl, hvs⟩ := exists_seq_of_admits hv
  -- Both trees have the same nodes: the roots of the container's fields by their names.
  have hroots : fieldRoots summary (summary.map fun field =>
      Object.summaryValue ⟨.container name fields, .seq vs⟩ listed field.1) =
        fieldRoots fields vs := by
    rw [fieldRoots_map, fieldRoots_eq_map_lookup hsummary.names hvs, hsummary.summary_eq,
      List.map_map]
    apply List.map_congr_left
    intro field hfield
    exact (standIn_spec hsummary hv hfield).2
  have hlength : summary.length = fields.length := by
    rw [hsummary.summary_eq, List.length_map]
  calc merkleize (fieldRoots summary (summary.map fun field =>
        Object.summaryValue ⟨.container name fields, .seq vs⟩ listed field.1)) summary.length
      = merkleize (fieldRoots fields vs) fields.length := by rw [hroots, hlength]

end

end BeaconHarness.Ssz
