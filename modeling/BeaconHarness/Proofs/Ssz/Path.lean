import BeaconHarness.Proofs.Ssz.Json
import BeaconHarness.Proofs.Ssz.Summary

/-!
# Parts along paths

The names of fields lead from a container to its parts and to the parts of those. Where the schema
of the container declares all of them, each of its values has something there, and this can be
replaced by any other value of the same schema: the container still belongs to its own schema, and
has the new part in the place of the old one.

Main statements: what a schema declares is there (`Object.at?_of_admits`) and can be replaced
(`Object.replaceAt_of_admits`).
-/

namespace BeaconHarness.Ssz

/-! ## Paths of fields -/

/-- The schema at the end of a path of fields, if the schema declares all of them. -/
def Schema.at? (τ : Schema) : List String → Option Schema
  | [] => some τ
  | name :: path => (τ.fields.find? fun f => f.1 = name).bind fun f => f.2.at? path

/-- What stands at the end of a path of fields, if all of them are there. -/
def Object.at? (x : Object) : List String → Option Object
  | [] => some x
  | name :: path => (x.field? name).bind fun part => part.at? path

/-- What stands at the end of a path of fields that are known to be there. -/
def Object.along (x : Object) (path : List String) : Object := path.foldl Object.field x

/-- A field that is declared has a value of its schema. -/
theorem exists_lookup_of_find {fields : Fields} {vs : List Value}
    (hvs : Schema.admitsFields fields vs = true) {name : String} {field : String × Schema}
    (h : fields.find? (fun f => f.1 = name) = some field) :
    ∃ v, lookup name fields vs = some ⟨field.2, v⟩ ∧ field.2.admits v = true := by
  induction fields generalizing vs with
  | nil => exact absurd h (by simp)
  | cons first fields ih =>
    cases vs with
    | nil => exact absurd hvs (by simp [Schema.admitsFields])
    | cons v vs =>
      obtain ⟨hv, hvs⟩ := (Bool.and_eq_true _ _).mp hvs
      by_cases hname : first.1 = name
      · simp only [List.find?_cons, hname, decide_true, Option.some.injEq] at h
        obtain rfl := h
        exact ⟨v, if_pos hname, hv⟩
      · simp only [List.find?_cons, hname, decide_false] at h
        obtain ⟨w, hw, hadmits⟩ := ih hvs h
        exact ⟨w, (if_neg hname).trans hw, hadmits⟩

/-- What a schema declares is there in every value of the schema. -/
theorem Object.at?_of_admits {τ σ : Schema} {v : Value} {path : List String}
    (hv : τ.admits v = true) (h : τ.at? path = some σ) :
    ∃ w, Object.at? ⟨τ, v⟩ path = some ⟨σ, w⟩ ∧ σ.admits w = true := by
  induction path generalizing τ v with
  | nil =>
    obtain rfl := Option.some.inj h
    exact ⟨v, rfl, hv⟩
  | cons name path ih =>
    obtain ⟨field, hfield, hrest⟩ := Option.bind_eq_some_iff.mp h
    cases τ with
    | container title fields =>
      obtain ⟨vs, rfl, hvs⟩ := exists_seq_of_admits hv
      obtain ⟨u, hu, hadmits⟩ := exists_lookup_of_find hvs hfield
      obtain ⟨w, hw, hσ⟩ := ih hadmits hrest
      refine ⟨w, ?_, hσ⟩
      show ((lookup name fields vs).bind fun part => part.at? path) = _
      rw [hu]
      exact hw
    | _ => exact absurd hfield (by simp [Schema.fields])

theorem Object.along_of_at? {x y : Object} {path : List String} (h : x.at? path = some y) :
    x.along path = y := by
  induction path generalizing x with
  | nil => exact Option.some.inj h
  | cons name path ih =>
    obtain ⟨part, hpart, hrest⟩ := Option.bind_eq_some_iff.mp h
    have hfield : x.field name = part := by
      unfold field
      rw [hpart]
      rfl
    show (x.field name).along path = y
    rw [hfield]
    exact ih hrest

/-! ## Replaced parts -/

/-- The object with what stands at the end of a path of fields replaced. -/
def Object.replaceAt (x : Object) : List String → Value → Object
  | [], v => { x with value := v }
  | name :: path, v => x.setField name ((x.field name).replaceAt path v).value

/-- The values of fields with those of one name replaced. -/
def replaced (name : String) (v : Value) (fields : Fields) (vs : List Value) : List Value :=
  (fields.zip vs).map fun p => if p.1.1 = name then v else p.2

section

variable {fields : Fields} {vs : List Value} {name : String} {v : Value}

theorem admitsFields_replaced (hvs : Schema.admitsFields fields vs = true)
    (hv : ∀ field ∈ fields, field.1 = name → field.2.admits v = true) :
    Schema.admitsFields fields (replaced name v fields vs) = true := by
  induction fields generalizing vs with
  | nil => rfl
  | cons first fields ih =>
    cases vs with
    | nil => exact absurd hvs (by simp [Schema.admitsFields])
    | cons w vs =>
      obtain ⟨hw, hvs⟩ := (Bool.and_eq_true _ _).mp hvs
      have hrest := ih hvs fun field hfield => hv field (List.mem_cons_of_mem _ hfield)
      refine (Bool.and_eq_true _ _).mpr ⟨?_, hrest⟩
      by_cases hname : first.1 = name
      · simpa only [hname, if_true] using hv first List.mem_cons_self hname
      · simpa only [hname, if_false] using hw

theorem lookup_replaced (hvs : Schema.admitsFields fields vs = true) {field : String × Schema}
    (h : fields.find? (fun f => f.1 = name) = some field) :
    lookup name fields (replaced name v fields vs) = some ⟨field.2, v⟩ := by
  induction fields generalizing vs with
  | nil => exact absurd h (by simp)
  | cons first fields ih =>
    cases vs with
    | nil => exact absurd hvs (by simp [Schema.admitsFields])
    | cons w vs =>
      obtain ⟨-, hvs⟩ := (Bool.and_eq_true _ _).mp hvs
      by_cases hname : first.1 = name
      · simp only [List.find?_cons, hname, decide_true, Option.some.injEq] at h
        obtain rfl := h
        simp [replaced, lookup, hname]
      · simp only [List.find?_cons, hname, decide_false] at h
        simpa [replaced, lookup, hname] using ih hvs h

end

/-- What a schema declares can be replaced by any value of its own schema, and is then found in the
place of what was there. -/
theorem Object.replaceAt_of_admits {τ σ : Schema} {v w : Value} {path : List String}
    (hτ : τ.namesApart = true) (hv : τ.admits v = true) (h : τ.at? path = some σ)
    (hw : σ.admits w = true) :
    ∃ u, replaceAt ⟨τ, v⟩ path w = ⟨τ, u⟩ ∧ τ.admits u = true ∧
      at? ⟨τ, u⟩ path = some ⟨σ, w⟩ := by
  induction path generalizing τ v with
  | nil =>
    obtain rfl := Option.some.inj h
    exact ⟨w, rfl, hw, rfl⟩
  | cons name path ih =>
    obtain ⟨field, hfield, hrest⟩ := Option.bind_eq_some_iff.mp h
    cases τ with
    | container title fields =>
      obtain ⟨vs, rfl, hvs⟩ := exists_seq_of_admits hv
      obtain ⟨hnames, hinner⟩ := (Bool.and_eq_true _ _).mp hτ
      have hmem : field ∈ fields := List.mem_of_find?_eq_some hfield
      obtain ⟨part, hpart, hadmits⟩ := exists_lookup_of_find hvs hfield
      have hold : Object.field ⟨.container title fields, .seq vs⟩ name = ⟨field.2, part⟩ := by
        show (lookup name fields vs).getD default = _
        rw [hpart]
        rfl
      obtain ⟨u, hu, huadmits, hat⟩ := ih (Schema.namesApart_of_mem hinner hmem) hadmits hrest
      -- No other field has the name, so only the part at the end of the path is replaced.
      have honly : ∀ f ∈ fields, f.1 = name → f.2.admits u = true := by
        intro f hf hname
        have hfound : field.1 = name := by simpa using List.find?_some hfield
        rwa [List.inj_on_of_nodup_map (of_decide_eq_true hnames) hf hmem
          (hname.trans hfound.symm)]
      refine ⟨.seq (replaced name u fields vs), ?_, admitsFields_replaced hvs honly, ?_⟩
      · unfold replaceAt
        rw [hold, hu]
        rfl
      · show ((lookup name fields (replaced name u fields vs)).bind fun part => part.at? path) = _
        rw [lookup_replaced hvs hfield]
        exact hat
    | _ => exact absurd hfield (by simp [Schema.fields])

end BeaconHarness.Ssz
