import BeaconHarness.Proofs.Network.Config
import BeaconHarness.Proofs.Network.Faults
import Mathlib.Logic.Relation

/-!
# What a configuration depends on

Of the entries of a configuration only the last one under the name of each field counts, and which
one that is does not depend on entries without a field, on the letter case of keys, or on the order
of entries that differ in their names. All keys are turned into text first, though. One that cannot
be shown fails the configuration even if it would not be used.

Main statement: configurations that give every field the same value, and both have or both lack a
key that cannot be shown, have the same outcome; a preset that is not found is told first, and then
the first field that cannot be read (`ofConfig_congr`).
-/

namespace BeaconHarness.Spec

variable {a b : List (Datum × Datum)} {name : String}

/-! ## Values by name -/

/-- The later one of two parts is searched first. -/
theorem named_append (name : String) (a b : List (Datum × Datum)) :
    named name (a ++ b) = (named name b).or (named name a) := by
  simp only [named, List.reverse_append, List.find?_append]
  cases b.reverse.find? fun entry => Text.lower entry.1.display = name <;> rfl

theorem named_cons (name : String) (entry : Datum × Datum) (a : List (Datum × Datum)) :
    named name (entry :: a)
      = (named name a).or (if Text.lower entry.1.display = name then some entry.2 else none) := by
  have hsingle : named name [entry]
      = if Text.lower entry.1.display = name then some entry.2 else none := by
    by_cases hname : Text.lower entry.1.display = name <;> simp [named, hname]
  rw [← List.singleton_append, named_append, hsingle]

/-! ## Changes that no field sees -/

/-- Whether a configuration has a key that cannot be shown. -/
def HasLongKey (entries : List (Datum × Datum)) : Prop :=
  ∃ entry ∈ entries, entry.1.isTooLong = true

instance (entries : List (Datum × Datum)) : Decidable (HasLongKey entries) :=
  inferInstanceAs (Decidable (∃ entry ∈ entries, entry.1.isTooLong = true))

theorem hasLongKey_cons {entry : Datum × Datum} :
    HasLongKey (entry :: a) ↔ entry.1.isTooLong = true ∨ HasLongKey a := by
  simp only [HasLongKey, List.exists_mem_cons_iff]

theorem hasLongKey_append : HasLongKey (a ++ b) ↔ HasLongKey a ∨ HasLongKey b := by
  simp only [HasLongKey, List.mem_append, or_and_right, exists_or]

/-- A change of the entries of a configuration. -/
inductive Changed : List (Datum × Datum) → List (Datum × Datum) → Prop
  /-- An entry that belongs to no field is left out. -/
  | unused {before after : List (Datum × Datum)} {entry : Datum × Datum} (h : Unused entry.1) :
    Changed (before ++ entry :: after) (before ++ after)
  /-- A key is spelled in other letters. -/
  | respelled {before after : List (Datum × Datum)} {key key' value : Datum}
    (hlong : key.isTooLong = key'.isTooLong)
    (h : Text.lower key.display = Text.lower key'.display) :
    Changed (before ++ (key, value) :: after) (before ++ (key', value) :: after)
  /-- Two entries of different names change places. -/
  | swapped {before after : List (Datum × Datum)} {x y : Datum × Datum}
    (h : Text.lower x.1.display ≠ Text.lower y.1.display) :
    Changed (before ++ x :: y :: after) (before ++ y :: x :: after)

theorem Changed.hasLongKey_iff (h : Changed a b) : HasLongKey a ↔ HasLongKey b := by
  cases h with
  | unused h =>
    rw [hasLongKey_append, hasLongKey_append, hasLongKey_cons, h.short]
    simp only [Bool.false_eq_true, false_or]
  | respelled hlong h =>
    rw [hasLongKey_append, hasLongKey_append, hasLongKey_cons, hasLongKey_cons, hlong]
  | swapped h => simp only [hasLongKey_append, hasLongKey_cons, or_left_comm]

/-- No field sees a change. -/
theorem Changed.named_eq (h : Changed a b) {f : Field} (hf : f ∈ fields) :
    named f.name a = named f.name b := by
  cases h with
  | unused h => rw [named_append, named_append, named_cons, if_neg (h.ne f hf), Option.or_none]
  | respelled hlong h => rw [named_append, named_append, named_cons, named_cons, h]
  | @swapped before after x y h =>
    simp only [named_append, named_cons, Option.or_assoc]
    by_cases hx : Text.lower x.1.display = f.name
    · -- The other entry has another name, so that only one of the two can be found.
      have hy : Text.lower y.1.display ≠ f.name := fun hy => h (hx.trans hy.symm)
      rw [if_neg hy, Option.none_or]
      cases (if Text.lower x.1.display = f.name then some x.2 else none) <;> rfl
    · rw [if_neg hx, Option.none_or]
      cases (if Text.lower y.1.display = f.name then some y.2 else none) <;> rfl

/-! ## Configurations with the same values -/

theorem presetOf_congr (h : named "preset_base" a = named "preset_base" b) :
    presetOf a = presetOf b := by rw [presetOf, presetOf, h]

theorem readFields_congr {fs : List Field} (h : ∀ f ∈ fs, named f.name a = named f.name b)
    (s : Spec) : readFields a fs s = readFields b fs s := by
  induction fs generalizing s with
  | nil => rfl
  | cons f fs ih =>
    obtain ⟨hf, hfs⟩ := List.forall_mem_cons.mp h
    simp only [readFields, hf, ih hfs]

theorem ofConfig_of_hasLongKey (h : HasLongKey a) :
    ofConfig (.dict a) = .error (.unreadable .other) := by
  obtain ⟨entry, hentry, hlong⟩ := h
  exact ofConfig_of_key hentry hlong

theorem ofConfig_of_not_hasLongKey (hne : a ≠ []) (h : ¬ HasLongKey a) :
    ofConfig (.dict a) = match presetOf a with
      | .error e => .error e
      | .ok p => readFields a fields (ofPreset p) :=
  ofConfig_of_keys hne fun entry hentry =>
    Bool.eq_false_iff.mpr fun hlong => h ⟨entry, hentry, hlong⟩

theorem ofConfig_eq_of_named (ha : a ≠ []) (hb : b ≠ []) (hkeys : HasLongKey a ↔ HasLongKey b)
    (hnamed : ∀ f ∈ fields, named f.name a = named f.name b) :
    ofConfig (.dict a) = ofConfig (.dict b) := by
  by_cases hlong : HasLongKey a
  · rw [ofConfig_of_hasLongKey hlong, ofConfig_of_hasLongKey (hkeys.mp hlong)]
  · have hfield : ∃ f ∈ fields, f.name = "preset_base" := by decide
    obtain ⟨f, hf, hbase⟩ := hfield
    rw [ofConfig_of_not_hasLongKey ha hlong,
      ofConfig_of_not_hasLongKey hb fun h => hlong (hkeys.mpr h),
      presetOf_congr (hbase ▸ hnamed f hf)]
    simp only [readFields_congr hnamed]

/-- Changes one after the other, in either direction, are seen by no field. -/
theorem named_eq_of_changes (h : Relation.EqvGen Changed a b) :
    (HasLongKey a ↔ HasLongKey b) ∧ ∀ f ∈ fields, named f.name a = named f.name b := by
  induction h with
  | rel a b h => exact ⟨h.hasLongKey_iff, fun f hf => h.named_eq hf⟩
  | refl a => exact ⟨.rfl, fun f _ => rfl⟩
  | symm a b _ ih => exact ⟨ih.1.symm, fun f hf => (ih.2 f hf).symm⟩
  | trans a b c _ _ ih ih' =>
    exact ⟨ih.1.trans ih'.1, fun f hf => (ih.2 f hf).trans (ih'.2 f hf)⟩

/-- Configurations that give every field the same value have the same outcome, if both have or both
lack a key that cannot be shown. A preset that is not found is told before any field, and among the
fields that cannot be read the first one in their order. So entries without a field, the letter case
of keys and the order of entries of different names do not matter. -/
theorem ofConfig_congr (ha : a ≠ []) (hb : b ≠ []) (hkeys : HasLongKey a ↔ HasLongKey b)
    (hnamed : ∀ f ∈ fields, named f.name a = named f.name b) :
    ofConfig (.dict a) = ofConfig (.dict b)
    ∧ (¬ HasLongKey a →
        (∀ e, presetOf a = .error e → ofConfig (.dict a) = .error e)
        ∧ ∀ p, presetOf a = .ok p → ∀ e, ofConfig (.dict a) = .error e ↔ FirstFails a fields e)
    ∧ ∀ c, Relation.EqvGen Changed a c → c ≠ [] → ofConfig (.dict a) = ofConfig (.dict c) := by
  refine ⟨ofConfig_eq_of_named ha hb hkeys hnamed, fun hshort => ⟨fun e he => ?_, fun p hp e => ?_⟩,
    fun c hchanges hc => ?_⟩
  · rw [ofConfig_of_not_hasLongKey ha hshort, he]
  · rw [ofConfig_of_not_hasLongKey ha hshort, hp]
    exact readFields_eq_error_iff
  · obtain ⟨hiff, heq⟩ := named_eq_of_changes hchanges
    exact ofConfig_eq_of_named ha hc hiff heq

/-- Two fields that cannot be read, given in either order among other entries: the first field is
told. -/
theorem ofConfig_congr_twoFaults :
    ofConfig (.dict [(.str "PRESET_BASE", .str "minimal"), (.str "SLOTS_PER_EPOCH", .str "x"),
        (.str "SECONDS_PER_SLOT", .str "y")])
      = ofConfig (.dict [(.str "Seconds_Per_Slot", .str "y"), (.int 7, .null),
        (.str "slots_per_epoch", .int 1), (.str "Slots_Per_Epoch", .str "x"),
        (.str "preset_base", .str "minimal")]) := by
  refine (ofConfig_congr (List.cons_ne_nil _ _) (List.cons_ne_nil _ _) ?_ ?_).1
  · decide
  · intro f hf
    fin_cases hf <;> rfl

/-! ## Keys that cannot be shown -/

/-- The decimal text of an integer consists of digits and a sign. -/
theorem mem_decimal (n : Int) :
    ∀ c ∈ (Text.Integer.decimal n).toList, c ∈ '-' :: Text.Hex.digits := by
  intro c hc
  cases n with
  | ofNat n => exact List.mem_cons_of_mem _ (Text.Integer.toString_mem_digits n c hc)
  | negSucc n =>
    have htext : (Text.Integer.decimal (.negSucc n)).toList = '-' :: (toString (n + 1)).toList := by
      exact String.toList_append
    rw [htext] at hc
    rcases List.mem_cons.mp hc with rfl | hc
    · exact List.mem_cons_self
    · exact List.mem_cons_of_mem _ (Text.Integer.toString_mem_digits (n + 1) c hc)

/-- No field has the name of an integer, since all of them have an underscore in their names. -/
theorem lower_int_ne (n : Int) {f : Field} (hf : f ∈ fields) :
    Text.lower (Datum.int n).display ≠ f.name := by
  have hscore : ∀ f ∈ fields, '_' ∈ f.name.toList := by decide
  have hsmall : ∀ c ∈ '-' :: Text.Hex.digits, c.toNat < 128 ∧ c.toLower ≠ '_' := by
    have hall : ('-' :: Text.Hex.digits).all (fun c => c.toNat < 128 ∧ c.toLower ≠ '_') = true := by
      decide +kernel
    exact fun c hc => of_decide_eq_true (List.all_eq_true.mp hall c hc)
  have hlower : (Text.lower (Datum.int n).display).toList
      = (Text.Integer.decimal n).toList.map Char.toLower := by
    have hdisplay : (Datum.int n).display = Text.Integer.decimal n := rfl
    rw [hdisplay, Text.lower, String.toList_ofList,
      Text.lowerFrom_ascii fun c hc => (hsmall c (mem_decimal n c hc)).1]
  intro hname
  have hmem := hscore f hf
  rw [← hname, hlower] at hmem
  obtain ⟨c, hc, hlow⟩ := List.mem_map.mp hmem
  exact (hsmall c (mem_decimal n c hc)).2 hlow

/-- The least number that is too long to be shown. -/
def longKey : Nat := Nat.pow 10 Text.Integer.digitLimit

/-- A key that belongs to no field fails the configuration if it cannot be shown, although all
fields have the same values as without it. -/
theorem ofConfig_longKey :
    (∀ f ∈ fields, named f.name [(.str "PRESET_BASE", .str "mainnet")]
      = named f.name [(.str "PRESET_BASE", .str "mainnet"), (.int (Int.ofNat longKey), .int 1)])
    ∧ ofConfig (.dict [(.str "PRESET_BASE", .str "mainnet")]) = .ok (ofPreset .mainnet)
    ∧ ofConfig (.dict [(.str "PRESET_BASE", .str "mainnet"), (.int (Int.ofNat longKey), .int 1)])
      = .error (.unreadable .other) := by
  refine ⟨fun f hf => ?_, rfl, ?_⟩
  · have hunused : named f.name [(.int (Int.ofNat longKey), .int 1)] = none :=
      named_eq_none fun entry hentry => List.mem_singleton.mp hentry ▸ lower_int_ne _ hf
    exact (named_append f.name [_] [_]).trans (by rw [hunused, Option.none_or]) |>.symm
  · have hlong : Text.Integer.isTooLong (Int.ofNat longKey) = true := by decide +kernel
    exact ofConfig_of_key (List.mem_cons_of_mem _ List.mem_cons_self) hlong

end BeaconHarness.Spec
