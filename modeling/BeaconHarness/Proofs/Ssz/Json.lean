import BeaconHarness.Proofs.Datum.Alike
import BeaconHarness.Proofs.Datum.Reading
import BeaconHarness.Proofs.Ssz.Bits
import BeaconHarness.Ssz.Json

/-!
# Values and their JSON forms

A value is written by one recursion over its schema, and the JSON form has the shape of the schema:
an object for a container, an array for a list or vector, and a text or a truth value for whatever
has no parts. The shape says in turn how each text has to be read, so that no two values of a schema
have one form, not even bit strings of different lengths, whose texts differ by the closing bit.

Main statements: the form of a value renders it (`renders_toJson`), a form renders one value of a
schema at most (`Renders.value_unique`), and the forms of values of one schema are built alike
(`Renders.alike`).
-/

namespace BeaconHarness

/-! ## Texts -/

theorem Text.Hex.marked_injective {a b : Bytes} (h : marked a = marked b) : a = b := by
  have hread := Datum.hexBytes_marked a
  rw [h, Datum.hexBytes_marked b] at hread
  exact (Except.ok.inj hread).symm

namespace Ssz

theorem packBits_injective {bs cs : List Bool} (hlength : bs.length = cs.length)
    (h : packBits bs = packBits cs) : bs = cs := by
  have hread := unpackBits_packBits bs
  rw [h, hlength, unpackBits_packBits cs] at hread
  exact (Option.some.inj hread).symm

/-- The closing bit tells the length. -/
theorem packDelimited_injective {bs cs : List Bool} (h : packDelimited bs = packDelimited cs) :
    bs = cs := by
  have hbs : bs.length ≤ max bs.length cs.length := Nat.le_max_left _ _
  have hcs : cs.length ≤ max bs.length cs.length := Nat.le_max_right _ _
  have hread := unpackDelimited_packDelimited hbs
  rw [h, unpackDelimited_packDelimited hcs] at hread
  exact (Option.some.inj hread).symm

/-! ## Schemas inside schemas -/

namespace Schema

mutual
/-- Whether no container of a schema has two fields of one name. -/
def namesApart : Schema → Bool
  | uint _ | boolean | byteVector _ | bitvector _ | bitlist _ => true
  | vector element _ | list element _ => element.namesApart
  | container _ fields => decide (fields.map Prod.fst).Nodup && allNamesApart fields

/-- Whether no container inside of fields has two fields of one name. -/
def allNamesApart : Fields → Bool
  | [] => true
  | (_, τ) :: rest => τ.namesApart && allNamesApart rest
end

/-- Whether a schema is another one or lies inside it. -/
inductive Within : Schema → Schema → Prop where
  | self (τ : Schema) : Within τ τ
  | vector {τ element : Schema} (length : Nat) :
    Within τ element → Within τ (.vector element length)
  | list {τ element : Schema} (limit : Nat) : Within τ element → Within τ (.list element limit)
  | field {τ : Schema} (name : String) {fields : Fields} {field : String × Schema} :
    field ∈ fields → Within τ field.2 → Within τ (.container name fields)

theorem namesApart_of_mem {fields : Fields} (h : allNamesApart fields = true)
    {field : String × Schema} (hfield : field ∈ fields) : field.2.namesApart = true := by
  induction fields with
  | nil => exact absurd hfield List.not_mem_nil
  | cons first fields ih =>
    obtain ⟨hfirst, hrest⟩ := (Bool.and_eq_true _ _).mp h
    rcases List.mem_cons.mp hfield with rfl | hfield
    · exact hfirst
    · exact ih hrest hfield

theorem Within.namesApart {τ σ : Schema} (h : Within τ σ) (hσ : σ.namesApart = true) :
    τ.namesApart = true := by
  induction h with
  | self => exact hσ
  | vector length _ ih => exact ih hσ
  | list limit _ ih => exact ih hσ
  | field name hfield _ ih =>
    obtain ⟨-, hfields⟩ := (Bool.and_eq_true _ _).mp hσ
    exact ih (namesApart_of_mem hfields hfield)

end Schema

/-! ## Parts of values -/

theorem length_of_admitsFields {fields : Fields} {vs : List Value}
    (hvs : Schema.admitsFields fields vs = true) : vs.length = fields.length := by
  induction fields generalizing vs with
  | nil =>
    cases vs with
    | nil => rfl
    | cons v vs => exact absurd hvs (by simp [Schema.admitsFields])
  | cons field fields ih =>
    cases vs with
    | nil => exact absurd hvs (by simp [Schema.admitsFields])
    | cons v vs =>
      obtain ⟨-, hvs⟩ := (Bool.and_eq_true _ _).mp hvs
      rw [List.length_cons, List.length_cons, ih hvs]

theorem admits_of_getElem? {fields : Fields} {vs : List Value}
    (hvs : Schema.admitsFields fields vs = true) {i : Nat} {field : String × Schema} {v : Value}
    (hfield : fields[i]? = some field) (hv : vs[i]? = some v) : field.2.admits v = true := by
  induction fields generalizing vs i with
  | nil => exact nomatch hfield
  | cons first fields ih =>
    cases vs with
    | nil => exact nomatch hv
    | cons w vs =>
      obtain ⟨hw, hvs⟩ := (Bool.and_eq_true _ _).mp hvs
      cases i with
      | zero =>
        obtain rfl : first = field := Option.some.inj hfield
        obtain rfl : w = v := Option.some.inj hv
        exact hw
      | succ i => exact ih hvs hfield hv

theorem getElem?_fieldsJson {fields : Fields} {vs : List Value} {i : Nat}
    {field : String × Schema} {v : Value} (hfield : fields[i]? = some field)
    (hv : vs[i]? = some v) :
    (fieldsJson fields vs)[i]? = some (.str field.1, toJson field.2 v) := by
  induction fields generalizing vs i with
  | nil => exact nomatch hfield
  | cons first fields ih =>
    cases vs with
    | nil => exact nomatch hv
    | cons w vs =>
      rw [fieldsJson]
      cases i with
      | zero =>
        obtain rfl : first = field := Option.some.inj hfield
        obtain rfl : w = v := Option.some.inj hv
        rfl
      | succ i => exact ih hfield hv

/-! ## Forms -/

/-- Whether a datum has the shape of a schema and says of each part what its value is: numbers by
their decimal texts, truth values by themselves, byte strings and the encodings of bit strings by
their marked hexadecimal texts, elements in an array one by one, and fields in an object under
exactly their names. -/
inductive Renders : Schema → Value → Datum → Prop where
  | uint {width n : Nat} : Renders (.uint width) (.uint n) (.str (toString n))
  | boolean {b : Bool} : Renders .boolean (.boolean b) (.bool b)
  | byteVector {length : Nat} {b : Bytes} :
    Renders (.byteVector length) (.bytes b) (.str (Text.Hex.marked b))
  | bitvector {length : Nat} {bs : List Bool} : bs.length = length →
    Renders (.bitvector length) (.bits bs) (.str (Text.Hex.marked (packBits bs)))
  | bitlist {limit : Nat} {bs : List Bool} :
    Renders (.bitlist limit) (.bits bs) (.str (Text.Hex.marked (packDelimited bs)))
  | vector {element : Schema} {length : Nat} {vs : List Value} {items : List Datum} :
    items.length = vs.length →
    (∀ (i : Nat) v item, vs[i]? = some v → items[i]? = some item → Renders element v item) →
    Renders (.vector element length) (.seq vs) (.list items)
  | list {element : Schema} {limit : Nat} {vs : List Value} {items : List Datum} :
    items.length = vs.length →
    (∀ (i : Nat) v item, vs[i]? = some v → items[i]? = some item → Renders element v item) →
    Renders (.list element limit) (.seq vs) (.list items)
  | container {name : String} {fields : Fields} {vs : List Value}
    {entries : List (Datum × Datum)} : vs.length = fields.length →
    entries.map Prod.fst = fields.map (fun field => .str field.1) →
    (∀ (i : Nat) field v entry, fields[i]? = some field → vs[i]? = some v →
      entries[i]? = some entry → Renders field.2 v entry.2) →
    Renders (.container name fields) (.seq vs) (.dict entries)

theorem renders_map_toJson {element : Schema} {vs : List Value}
    (hvs : vs.all element.admits = true)
    (ih : ∀ v, element.admits v = true → Renders element v (toJson element v)) {i : Nat} {v : Value}
    {item : Datum} (hv : vs[i]? = some v) (hitem : (vs.map (toJson element))[i]? = some item) :
    Renders element v item := by
  rw [List.getElem?_map, hv] at hitem
  obtain rfl := Option.some.inj hitem
  exact ih v (List.all_eq_true.mp hvs v (List.mem_of_getElem? hv))

/-- What is written for a value renders it. -/
theorem renders_toJson (τ : Schema) {v : Value} (hv : τ.admits v = true) :
    Renders τ v (toJson τ v) := by
  induction τ using Schema.byParts generalizing v with
  | uint width =>
    cases v with
    | uint n => exact .uint
    | _ => exact absurd hv (by simp [Schema.admits])
  | boolean =>
    cases v with
    | boolean b => exact .boolean
    | _ => exact absurd hv (by simp [Schema.admits])
  | byteVector length =>
    cases v with
    | bytes b => exact .byteVector
    | _ => exact absurd hv (by simp [Schema.admits])
  | bitvector length =>
    cases v with
    | bits bs => exact .bitvector (of_decide_eq_true hv)
    | _ => exact absurd hv (by simp [Schema.admits])
  | bitlist limit =>
    cases v with
    | bits bs => exact .bitlist
    | _ => exact absurd hv (by simp [Schema.admits])
  | vector element length ih =>
    cases v with
    | seq vs =>
      obtain ⟨-, hvs⟩ := (Bool.and_eq_true _ _).mp hv
      rw [toJson]
      exact .vector (List.length_map _) fun i v item =>
        renders_map_toJson hvs fun v hv => ih hv
    | _ => exact absurd hv (by simp [Schema.admits])
  | list element limit ih =>
    cases v with
    | seq vs =>
      obtain ⟨-, hvs⟩ := (Bool.and_eq_true _ _).mp hv
      rw [toJson]
      exact .list (List.length_map _) fun i v item =>
        renders_map_toJson hvs fun v hv => ih hv
    | _ => exact absurd hv (by simp [Schema.admits])
  | container name fields ih =>
    cases v with
    | seq vs =>
      have hlength := length_of_admitsFields hv
      rw [toJson]
      refine .container hlength (fieldsJson_keys fields vs hlength) ?_
      intro i field v entry hfield hv' hentry
      rw [getElem?_fieldsJson hfield hv'] at hentry
      obtain rfl := Option.some.inj hentry
      exact ih field (List.mem_of_getElem? hfield) (admits_of_getElem? hv hfield hv')
    | _ => exact absurd hv (by simp [Schema.admits])

/-- Sequences are equal if the same items render their parts one by one, and no item renders two
values. -/
theorem eq_of_rendered {element : Schema} {vs ws : List Value} {items : List Datum}
    (hvs : items.length = vs.length) (hws : items.length = ws.length)
    (hunique : ∀ v w item, Renders element v item → Renders element w item → v = w)
    (hv : ∀ (i : Nat) v item, vs[i]? = some v → items[i]? = some item → Renders element v item)
    (hw : ∀ (i : Nat) w item, ws[i]? = some w → items[i]? = some item → Renders element w item) :
    vs = ws := by
  refine List.ext_getElem (hvs.symm.trans hws) fun i hi hi' => ?_
  have hitem := List.getElem?_eq_getElem (hvs ▸ hi : i < items.length)
  exact hunique _ _ _ (hv i _ _ (List.getElem?_eq_getElem hi) hitem)
    (hw i _ _ (List.getElem?_eq_getElem hi') hitem)

theorem exists_getElem?_of_length {α β : Type} {xs : List α} {ys : List β}
    (h : xs.length = ys.length) {i : Nat} {y : β} (hy : ys[i]? = some y) :
    ∃ x, xs[i]? = some x := by
  obtain ⟨hi, -⟩ := List.getElem?_eq_some_iff.mp hy
  exact ⟨xs[i], List.getElem?_eq_getElem (h ▸ hi)⟩

/-- The entries of a form stand at the places of the fields. -/
theorem exists_field_of_getElem? {fields : Fields} {entries : List (Datum × Datum)}
    (hkeys : entries.map Prod.fst = fields.map fun field => .str field.1) {i : Nat}
    {entry : Datum × Datum} (hentry : entries[i]? = some entry) :
    ∃ field, fields[i]? = some field ∧ entry.1 = .str field.1 := by
  have hlength : fields.length = entries.length := by
    simpa using (congrArg List.length hkeys).symm
  obtain ⟨field, hfield⟩ := exists_getElem?_of_length hlength hentry
  have hkey := congrArg (fun keys => keys[i]?) hkeys
  simp only [List.getElem?_map, hentry, hfield, Option.map_some, Option.some.injEq] at hkey
  exact ⟨field, hfield, hkey⟩

namespace Renders

variable {τ : Schema} {v w : Value} {d e : Datum}

/-- A datum renders one value of a schema at most. -/
theorem value_unique (hv : Renders τ v d) (hw : Renders τ w e) (h : d = e) : v = w := by
  induction τ using Schema.byParts generalizing v w d e with
  | uint width =>
    cases hv
    cases hw
    exact congrArg Value.uint (Text.Integer.toString_injective (Datum.str.inj h))
  | boolean =>
    cases hv
    cases hw
    exact congrArg Value.boolean (Datum.bool.inj h)
  | byteVector length =>
    cases hv
    cases hw
    exact congrArg Value.bytes (Text.Hex.marked_injective (Datum.str.inj h))
  | bitvector length =>
    cases hv with
    | bitvector hbs =>
      cases hw with
      | bitvector hcs =>
        have hbytes := Text.Hex.marked_injective (Datum.str.inj h)
        exact congrArg Value.bits (packBits_injective (hbs.trans hcs.symm) hbytes)
  | bitlist limit =>
    cases hv
    cases hw
    have hbytes := Text.Hex.marked_injective (Datum.str.inj h)
    exact congrArg Value.bits (packDelimited_injective hbytes)
  | vector element length ih =>
    cases hv with
    | vector hvs hv =>
      cases hw with
      | vector hws hw =>
        obtain rfl := Datum.list.inj h
        exact congrArg Value.seq
          (eq_of_rendered hvs hws (fun _ _ _ hv hw => ih hv hw rfl) hv hw)
  | list element limit ih =>
    cases hv with
    | list hvs hv =>
      cases hw with
      | list hws hw =>
        obtain rfl := Datum.list.inj h
        exact congrArg Value.seq
          (eq_of_rendered hvs hws (fun _ _ _ hv hw => ih hv hw rfl) hv hw)
  | container name fields ih =>
    cases hv with
    | @container _ _ vs entries hvs hkeys hv =>
      cases hw with
      | @container _ _ ws _ hws _ hw =>
        obtain rfl := Datum.dict.inj h
        have hlength : entries.length = fields.length := by
          simpa using congrArg List.length hkeys
        refine congrArg Value.seq (List.ext_getElem (hvs.trans hws.symm) fun i hi hi' => ?_)
        have hvi := List.getElem?_eq_getElem hi
        have hwi := List.getElem?_eq_getElem hi'
        obtain ⟨field, hfield⟩ := exists_getElem?_of_length hvs.symm hvi
        obtain ⟨entry, hentry⟩ := exists_getElem?_of_length hlength hfield
        exact ih field (List.mem_of_getElem? hfield) (hv i field _ entry hfield hvi hentry)
          (hw i field _ entry hfield hwi hentry) rfl

/-- The items that render sequences of one kind of element are built alike, if those elements
are. -/
theorem alike_items {element : Schema} {vs ws : List Value} {xs ys : List Datum}
    (hxs : xs.length = vs.length) (hys : ys.length = ws.length)
    (hv : ∀ (i : Nat) v x, vs[i]? = some v → xs[i]? = some x → Renders element v x)
    (hw : ∀ (i : Nat) w y, ws[i]? = some w → ys[i]? = some y → Renders element w y)
    (ih : ∀ v w x y, Renders element v x → Renders element w y → x.Alike y) :
    ∀ x ∈ xs, ∀ y ∈ ys, x.Alike y := by
  intro x hx y hy
  obtain ⟨i, hi, rfl⟩ := List.mem_iff_getElem.mp hx
  obtain ⟨j, hj, rfl⟩ := List.mem_iff_getElem.mp hy
  exact ih _ _ _ _
    (hv i _ _ (List.getElem?_eq_getElem (hxs ▸ hi)) (List.getElem?_eq_getElem hi))
    (hw j _ _ (List.getElem?_eq_getElem (hys ▸ hj)) (List.getElem?_eq_getElem hj))

/-- The forms of two values of one schema are built alike. -/
theorem alike (hτ : τ.namesApart = true) (hv : Renders τ v d) (hw : Renders τ w e) :
    d.Alike e := by
  induction τ using Schema.byParts generalizing v w d e with
  | uint width =>
    cases hv
    cases hw
    exact .str _ _
  | boolean =>
    cases hv
    cases hw
    exact .bool _ _
  | byteVector length =>
    cases hv
    cases hw
    exact .str _ _
  | bitvector length =>
    cases hv
    cases hw
    exact .str _ _
  | bitlist limit =>
    cases hv
    cases hw
    exact .str _ _
  | vector element length ih =>
    cases hv with
    | vector hvs hv =>
      cases hw with
      | vector hws hw =>
        exact .list (alike_items hvs hws hv hw fun _ _ _ _ hx hy => ih hτ hx hy)
  | list element limit ih =>
    cases hv with
    | list hvs hv =>
      cases hw with
      | list hws hw =>
        exact .list (alike_items hvs hws hv hw fun _ _ _ _ hx hy => ih hτ hx hy)
  | container name fields ih =>
    cases hv with
    | @container _ _ vs xs hvs hxs hv =>
      cases hw with
      | @container _ _ ws ys hws hys hw =>
        obtain ⟨hnames, hfields⟩ := (Bool.and_eq_true _ _).mp hτ
        have hnames : (fields.map Prod.fst).Nodup := of_decide_eq_true hnames
        have hkeys : fields.map (fun field => Datum.str field.1) =
            (fields.map Prod.fst).map .str := List.map_map.symm
        have hlength : xs.length = ys.length := by
          simpa using congrArg List.length (hxs.trans hys.symm)
        refine .of_entries hnames (hxs.trans hkeys) (hys.trans hkeys)
          (List.forall₂_iff_get.mpr ⟨hlength, fun i hi hi' => ?_⟩)
        have hx := List.getElem?_eq_getElem hi
        have hy := List.getElem?_eq_getElem hi'
        obtain ⟨field, hfield, hxname⟩ := exists_field_of_getElem? hxs hx
        obtain ⟨other, hother, hyname⟩ := exists_field_of_getElem? hys hy
        obtain rfl := Option.some.inj (hfield.symm.trans hother)
        obtain ⟨v, hvi⟩ := exists_getElem?_of_length hvs hfield
        obtain ⟨w, hwi⟩ := exists_getElem?_of_length hws hfield
        have hmem := List.mem_of_getElem? hfield
        exact ⟨hxname.trans hyname.symm, ih field hmem (Schema.namesApart_of_mem hfields hmem)
          (hv i field v _ hfield hvi hx) (hw i field w _ hfield hwi hy)⟩

end Renders

end Ssz

end BeaconHarness
