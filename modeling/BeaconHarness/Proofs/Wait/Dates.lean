import BeaconHarness.Proofs.Wait.Together

/-!
# Dates of notes

A journal shows when each of its notes was left: at the end of the last sleep before it. Journals
that are woven into one keep the dates of their notes, since each stretch is put down with the
instant at which it began.

Main statement: a woven journal dates its notes as its parts do (`mem_dated_interleave`).
-/

namespace BeaconHarness

variable {ν : Type}

/-! ## Dates -/

namespace Journal

/-- The instant that a journal shows of work that started at another one. -/
def present (start : Nat) (j : Journal ν) : Nat := j.lastWake?.getD start

/-- The notes in a journal, each with the instant at which it was left by work that started at
`start`; newest first. -/
def dated (start : Nat) : Journal ν → List (Nat × ν)
  | [] => []
  | .note n :: j => (present start j, n) :: dated start j
  | .woke _ :: j => dated start j

theorem present_append (start : Nat) (j k : Journal ν) :
    present start (j ++ k) = present (present start k) j := by
  induction j with
  | nil => rfl
  | cons m j ih =>
    cases m with
    | note n => exact ih
    | woke time => rfl

theorem dated_append (start : Nat) (j k : Journal ν) :
    dated start (j ++ k) = dated (present start k) j ++ dated start k := by
  induction j with
  | nil => rfl
  | cons m j ih =>
    cases m with
    | note n =>
      show (present start (j ++ k), n) :: dated start (j ++ k) = _
      rw [present_append, ih]
      rfl
    | woke time => exact ih

end Journal

/-! ## Dates in stretches -/

/-- The notes of a stretch with the instant at which it began, oldest first. -/
def Stretch.dated (x : Stretch ν) : List (Nat × ν) := x.notes.map fun n => (x.wake, n)

theorem dated_marks (start : Nat) (x : Stretch ν) (j : Journal ν) :
    Journal.dated start (x.marks ++ j) = x.dated.reverse ++ Journal.dated start j := by
  have hwake : Journal.present start (.woke x.wake :: j) = x.wake := rfl
  have hnotes : ∀ (notes : List ν) (k : Journal ν),
      Journal.dated start ((notes.map Mark.note).reverse ++ k)
        = (notes.map fun n => (Journal.present start k, n)).reverse
          ++ Journal.dated start k := by
    intro notes k
    induction notes generalizing k with
    | nil => rfl
    | cons n notes ih =>
      rw [List.map_cons, List.reverse_cons, List.append_assoc, List.singleton_append, ih,
        List.map_cons, List.reverse_cons, List.append_assoc]
      rfl
  rw [Stretch.marks, List.append_assoc, List.singleton_append, hnotes, hwake]
  rfl

/-- Puts a mark in front of the stretches after it and of the notes of its own. -/
def gather (later : List (Stretch ν) × List ν) : Mark ν → List (Stretch ν) × List ν
  | .note n => (later.1, n :: later.2)
  | .woke time => (⟨time, later.2⟩ :: later.1, [])

theorem stretches_eq_gather (start : Nat) (j : Journal ν) :
    j.stretches start = ⟨start, (j.foldl gather ([], [])).2⟩ :: (j.foldl gather ([], [])).1 := rfl

/-- The stretches of a journal hold its dated notes, oldest first. -/
theorem flatMap_stretches_dated (start : Nat) (j : Journal ν) :
    (j.stretches start).flatMap Stretch.dated = (Journal.dated start j).reverse := by
  -- The notes of a stretch are collected before the mark that dates them is reached.
  suffices h : ∀ (later : List (Stretch ν)) (notes : List ν),
      let p := j.foldl gather (later, notes)
      (⟨start, p.2⟩ :: p.1).flatMap Stretch.dated
        = (Journal.dated start j).reverse
          ++ (notes.map (fun n => (Journal.present start j, n))
            ++ later.flatMap Stretch.dated) by
    have hall := h [] []
    rw [List.map_nil, List.flatMap_nil, List.append_nil, List.append_nil] at hall
    rw [stretches_eq_gather]
    exact hall
  induction j with
  | nil => intro later notes; rfl
  | cons m j ih =>
    intro later notes
    cases m with
    | note n =>
      refine (ih later (n :: notes)).trans ?_
      show _ = ((Journal.present start j, n) :: Journal.dated start j).reverse ++ _
      rw [List.reverse_cons, List.append_assoc]
      rfl
    | woke time => exact ih (⟨time, notes⟩ :: later) []

/-! ## Dates in woven journals -/

/-- Weaving adds no notes but those of the line, under their dates. -/
theorem mem_dated_weave {start n : Nat} {line : List (List (Stretch ν))} {j : Journal ν}
    {p : Nat × ν} (h : p ∈ Journal.dated start (weave n line j)) :
    p ∈ line.flatten.flatMap Stretch.dated ∨ p ∈ Journal.dated start j := by
  induction n generalizing line j with
  | zero => exact .inr h
  | succ n ih =>
    rw [weave] at h
    split at h
    next => exact .inr h
    next x xs others hsome =>
      have hperm := takeEarliest_perm hsome
      have hline : (if xs.isEmpty then others else others ++ [xs]).flatten
          = (others ++ [xs]).flatten := by
        cases xs with
        | nil => simp
        | cons => rfl
      have hmem := (hperm.flatMap_right Stretch.dated).mem_iff (a := p)
      rw [List.flatMap_cons, List.mem_append] at hmem
      rcases ih h with hlater | hearlier
      · rw [hline] at hlater
        exact .inl (hmem.mpr (.inr hlater))
      · rw [dated_marks, List.mem_append, List.mem_reverse] at hearlier
        rcases hearlier with hfirst | hrest
        · exact .inl (hmem.mpr (.inl hfirst))
        · exact .inr hrest

theorem mem_dated_foldl_marks {start : Nat}
    {parts : List (List (Stretch ν) × Option (Stretch ν))} {j : Journal ν} {p : Nat × ν}
    (h : p ∈ Journal.dated start
      (parts.foldl (fun journal p => (p.2.map Stretch.marks).getD [] ++ journal) j)) :
    (∃ part ∈ parts, ∃ x ∈ part.2, p ∈ x.dated) ∨ p ∈ Journal.dated start j := by
  induction parts generalizing j with
  | nil => exact .inr h
  | cons part parts ih =>
    obtain ⟨stretches, last⟩ := part
    rcases ih h with ⟨later, hlater, hp⟩ | hp
    · exact .inl ⟨later, List.mem_cons_of_mem _ hlater, hp⟩
    · cases last with
      | none => exact .inr hp
      | some x =>
        have hmarks : p ∈ Journal.dated start (x.marks ++ j) := hp
        rw [dated_marks, List.mem_append, List.mem_reverse] at hmarks
        rcases hmarks with hx | hj
        · exact .inl ⟨(stretches, some x), List.mem_cons_self, x, rfl, hx⟩
        · exact .inr hj

/-- What stands in a woven journal under a date stands under it in one of its parts. -/
theorem mem_dated_interleave {start : Nat} {journals : List (Bool × Journal ν)} {p : Nat × ν}
    (h : p ∈ Journal.dated start (interleave start journals)) :
    ∃ j ∈ journals, p ∈ Journal.dated start j.2 := by
  have hpart : ∀ j ∈ journals, ∀ x ∈ j.2.stretches start, p ∈ x.dated →
      ∃ j ∈ journals, p ∈ Journal.dated start j.2 := by
    intro j hj x hx hp
    refine ⟨j, hj, ?_⟩
    rw [← List.mem_reverse, ← flatMap_stretches_dated]
    exact List.mem_flatMap.mpr ⟨x, hx, hp⟩
  rw [interleave] at h
  rcases mem_dated_foldl_marks h with ⟨part, hpartMem, x, hx, hp⟩ | hwoven
  · obtain ⟨j, hj, rfl⟩ := List.mem_map.mp hpartMem
    refine hpart j hj x ?_ hp
    cases hlate : j.1 with
    | false =>
      rw [hlate] at hx
      cases hx
    | true =>
      rw [hlate] at hx
      exact List.mem_of_getLast? hx
  · rcases mem_dated_weave hwoven with hline | hnone
    · obtain ⟨x, hx, hp⟩ := List.mem_flatMap.mp hline
      obtain ⟨xs, hxs, hx⟩ := List.mem_flatten.mp hx
      rw [List.mem_map] at hxs
      obtain ⟨part, hpartMem, rfl⟩ := hxs
      obtain ⟨j, hj, rfl⟩ := List.mem_map.mp hpartMem
      refine hpart j hj x ?_ hp
      cases hlate : j.1 with
      | false =>
        rw [hlate] at hx
        exact hx
      | true =>
        rw [hlate] at hx
        exact List.dropLast_subset _ hx
    · cases hnone

end BeaconHarness
