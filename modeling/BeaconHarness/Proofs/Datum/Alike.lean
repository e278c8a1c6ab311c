import BeaconHarness.Datum.Arithmetic
import Mathlib.Data.List.Forall2
import Mathlib.Data.List.Nodup

/-!
# Data that are built alike

Two mappings are the same when each has the entries of the other, in whatever order these were
given, and a truth value is the same as a number. None of this matters between data that were put
together in one way from texts and truth values: what is the same there is equal.

Main statement: data that are built alike are the same exactly when they are equal
(`Alike.same_iff`).
-/

namespace BeaconHarness.Datum

/-- Whether two data are made of texts, truth values, lists and mappings in the same places, the
mappings with the same keys in the same order. -/
inductive Alike : Datum → Datum → Prop where
  | str (s t : String) : Alike (.str s) (.str t)
  | bool (a b : Bool) : Alike (.bool a) (.bool b)
  | list {xs ys : List Datum} : (∀ x ∈ xs, ∀ y ∈ ys, Alike x y) → Alike (.list xs) (.list ys)
  | dict {names : List String} {xs ys : List (Datum × Datum)} : names.Nodup →
    xs.map Prod.fst = names.map .str → ys.map Prod.fst = names.map .str →
    (∀ x ∈ xs, ∀ y ∈ ys, x.1 = y.1 → Alike x.2 y.2) → Alike (.dict xs) (.dict ys)

/-- Whether two entries have one key and values that are built alike. -/
def AlikeEntry {κ : Type} (x y : κ × Datum) : Prop := x.1 = y.1 ∧ Alike x.2 y.2

/-! ## Lists -/

theorem sameAll_iff_of_alike {xs ys : List Datum}
    (h : ∀ x ∈ xs, ∀ y ∈ ys, (same x y = true ↔ x = y)) : sameAll xs ys = true ↔ xs = ys := by
  induction xs generalizing ys with
  | nil => cases ys <;> simp [sameAll]
  | cons x xs ih =>
    cases ys with
    | nil => simp [sameAll]
    | cons y ys =>
      have hfirst := h x List.mem_cons_self y List.mem_cons_self
      have hrest := ih fun a ha b hb =>
        h a (List.mem_cons_of_mem x ha) b (List.mem_cons_of_mem y hb)
      rw [sameAll, Bool.and_eq_true, hfirst, hrest, List.cons.injEq]

/-! ## Mappings -/

theorem sameEntries_iff {xs ys : List (Datum × Datum)} :
    sameEntries xs ys = true ↔
      ∀ x ∈ xs, ∃ y ∈ ys, same x.1 y.1 = true ∧ same x.2 y.2 = true := by
  induction xs with
  | nil => simp [sameEntries]
  | cons x xs ih =>
    rw [sameEntries, Bool.and_eq_true, ih, List.forall_mem_cons, List.any_eq_true]
    simp only [Bool.and_eq_true]

theorem exists_name_of_mem {names : List String} {xs : List (Datum × Datum)}
    (hxs : xs.map Prod.fst = names.map .str) {x : Datum × Datum} (hx : x ∈ xs) :
    ∃ name, x.1 = .str name := by
  have hmem : x.1 ∈ names.map Datum.str := hxs ▸ List.mem_map_of_mem hx
  obtain ⟨name, -, hname⟩ := List.mem_map.mp hmem
  exact ⟨name, hname.symm⟩

theorem nodup_keys {names : List String} {xs : List (Datum × Datum)} (hnames : names.Nodup)
    (hxs : xs.map Prod.fst = names.map .str) : (xs.map Prod.fst).Nodup := by
  rw [hxs]
  exact hnames.map fun _ _ => Datum.str.inj

/-- Entries under the same distinct keys are equal if the ones are among the others. -/
theorem eq_of_mem_of_keys {names : List String} {xs ys : List (Datum × Datum)}
    (hnames : names.Nodup) (hxs : xs.map Prod.fst = names.map .str)
    (hys : ys.map Prod.fst = names.map .str) (h : ∀ x ∈ xs, x ∈ ys) : xs = ys := by
  have hlength : xs.length = ys.length := by
    simpa using congrArg List.length (hxs.trans hys.symm)
  refine List.ext_getElem hlength fun i hi hi' => ?_
  have hplace : xs[i].1 = ys[i].1 := by
    have hget : (xs.map Prod.fst)[i]? = (ys.map Prod.fst)[i]? := by rw [hxs, hys]
    simpa [hi, hi'] using hget
  -- Both are among the others, where no two have one key.
  exact List.inj_on_of_nodup_map (nodup_keys hnames hys) (h _ (List.getElem_mem hi))
    (List.getElem_mem hi') hplace

theorem exists_of_forall₂ {α β : Type} {R : α → β → Prop} {xs : List α} {ys : List β}
    (h : List.Forall₂ R xs ys) {x : α} (hx : x ∈ xs) : ∃ y ∈ ys, R x y := by
  induction h with
  | nil => exact absurd hx List.not_mem_nil
  | cons hfirst _ ih =>
    rcases List.mem_cons.mp hx with rfl | hx
    · exact ⟨_, List.mem_cons_self, hfirst⟩
    · obtain ⟨y, hy, hxy⟩ := ih hx
      exact ⟨y, List.mem_cons_of_mem _ hy, hxy⟩

/-- Mappings with distinct keys are built alike if their entries are, one by one. -/
theorem Alike.of_entries {names : List String} {xs ys : List (Datum × Datum)}
    (hnames : names.Nodup) (hxs : xs.map Prod.fst = names.map .str)
    (hys : ys.map Prod.fst = names.map .str)
    (h : List.Forall₂ AlikeEntry xs ys) : Alike (.dict xs) (.dict ys) := by
  refine .dict hnames hxs hys fun x hx y hy hkey => ?_
  obtain ⟨z, hz, hfst, halike⟩ := exists_of_forall₂ h hx
  obtain rfl : z = y :=
    List.inj_on_of_nodup_map (nodup_keys hnames hys) hz hy (hfst.symm.trans hkey)
  exact halike

theorem Alike.record {xs ys : List (String × Datum)} (hnames : (xs.map Prod.fst).Nodup)
    (h : List.Forall₂ AlikeEntry xs ys) : (Datum.record xs).Alike (Datum.record ys) := by
  have hkeys : ∀ zs : List (String × Datum),
      (zs.map fun z => (Datum.str z.1, z.2)).map Prod.fst = (zs.map Prod.fst).map .str := by
    intro zs
    rw [List.map_map, List.map_map]
    rfl
  have hsame : ys.map Prod.fst = xs.map Prod.fst := by
    induction h with
    | nil => rfl
    | cons hfirst _ ih =>
      obtain ⟨-, hrest⟩ := List.nodup_cons.mp hnames
      rw [List.map_cons, List.map_cons, hfirst.1, ih hrest]
  refine .of_entries hnames (hkeys xs) ((hkeys ys).trans (congrArg _ hsame)) ?_
  rw [List.forall₂_map_left_iff, List.forall₂_map_right_iff]
  exact h.imp fun _ _ hxy => ⟨congrArg Datum.str hxy.1, hxy.2⟩

/-! ## Data -/

/-- What is built alike is the same only if it is equal. -/
theorem Alike.same_iff {d e : Datum} (h : Alike d e) : d.same e = true ↔ d = e := by
  induction h with
  | str s t => rw [same_str, decide_eq_true_eq, Datum.str.injEq]
  | bool a b => rw [same_bool, decide_eq_true_eq, Datum.bool.injEq]
  | list _ ih => rw [same, sameAll_iff_of_alike ih, Datum.list.injEq]
  | @dict names xs ys hnames hxs hys _ ih =>
    have hlength : xs.length = ys.length := by
      simpa using congrArg List.length (hxs.trans hys.symm)
    rw [same, Bool.and_eq_true, decide_eq_true_eq, sameEntries_iff, Datum.dict.injEq]
    constructor
    · rintro ⟨-, hall⟩
      refine eq_of_mem_of_keys hnames hxs hys fun x hx => ?_
      obtain ⟨y, hy, hfst, hsnd⟩ := hall x hx
      obtain ⟨name, hname⟩ := exists_name_of_mem hxs hx
      obtain ⟨other, hother⟩ := exists_name_of_mem hys hy
      rw [hname, hother, same_str, decide_eq_true_eq] at hfst
      have hkey : x.1 = y.1 := by rw [hname, hother, hfst]
      have hvalue : x.2 = y.2 := (ih x hx y hy hkey).mp hsnd
      rwa [Prod.ext hkey hvalue]
    · rintro rfl
      refine ⟨rfl, fun x hx => ⟨x, hx, ?_, (ih x hx x hx rfl).mpr rfl⟩⟩
      obtain ⟨name, hname⟩ := exists_name_of_mem hxs hx
      rw [hname, same_str, decide_eq_true_eq]

end BeaconHarness.Datum
