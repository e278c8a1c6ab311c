import BeaconHarness.Proofs.Ssz.Bits

/-!
# The length of an encoding

A decoder refuses a part whose share of the input lies outside the bounds of its schema. No value of
a schema is refused on that ground: its encoding is no shorter than the least and no longer than
the greatest length. For a fixed schema the two bounds are one.

Main statements: the bounds of an encoding (`length_encode_bounds`), and the length of the encoding
of a fixed schema (`length_encode_of_isFixed`).
-/

namespace BeaconHarness.Ssz

/-! ## Layouts -/

namespace Slot

theorem length_assemble_inline (part : Bytes) (slots : List Slot) :
    (assemble (inline part :: slots)).length = part.length + (assemble slots).length := by
  simp only [length_assemble, headLength, headWidth, bodies]
  omega

theorem length_assemble_body (part : Bytes) (slots : List Slot) :
    (assemble (body part :: slots)).length =
      Schema.offsetWidth + part.length + (assemble slots).length := by
  simp only [length_assemble, headLength, headWidth, bodies, List.length_append]
  omega

end Slot

/-- The layout of bodies is as long as their bounds and the offsets together allow. -/
theorem length_assemble_bodies {parts : List Bytes} {least greatest : Nat}
    (h : ∀ part ∈ parts, least ≤ part.length ∧ part.length ≤ greatest) :
    parts.length * (Schema.offsetWidth + least) ≤ (Slot.assemble (parts.map .body)).length ∧
      (Slot.assemble (parts.map .body)).length ≤
        parts.length * (Schema.offsetWidth + greatest) := by
  induction parts with
  | nil => simp [Slot.assemble, Slot.heads, Slot.bodies]
  | cons part parts ih =>
    obtain ⟨hlow, hhigh⟩ := ih fun p hp => h p (List.mem_cons_of_mem _ hp)
    have hpart := h part List.mem_cons_self
    rw [List.map_cons, Slot.length_assemble_body, List.length_cons, Nat.succ_mul, Nat.succ_mul]
    omega

/-- Parts that follow one another are as long as their bounds allow. -/
theorem length_flatten_bounds {parts : List Bytes} {least greatest : Nat}
    (h : ∀ part ∈ parts, least ≤ part.length ∧ part.length ≤ greatest) :
    parts.length * least ≤ parts.flatten.length ∧
      parts.flatten.length ≤ parts.length * greatest := by
  induction parts with
  | nil => simp
  | cons part parts ih =>
    obtain ⟨hlow, hhigh⟩ := ih fun p hp => h p (List.mem_cons_of_mem _ hp)
    have hpart := h part List.mem_cons_self
    rw [List.flatten_cons, List.length_append, List.length_cons, Nat.succ_mul, Nat.succ_mul]
    omega

/-! ## Bounds -/

/-- The length of an encoding lies between the bounds of the schema. -/
def Schema.Bounded (τ : Schema) : Prop :=
  ∀ v, τ.admits v = true → τ.minLength ≤ (encode τ v).length ∧ (encode τ v).length ≤ τ.maxLength

/-- The encoding of a sequence, element by element. -/
def encodeSeq (element : Schema) (vs : List Value) : Bytes :=
  if element.isFixed then (vs.map (encode element)).flatten
  else Slot.assemble ((vs.map (encode element)).map .body)

theorem encode_vector (element : Schema) (length : Nat) (vs : List Value) :
    encode (.vector element length) (.seq vs) = encodeSeq element vs := by
  simp [encode, encodeSeq, List.flatMap_def, List.map_map, Function.comp_def]

theorem encode_list (element : Schema) (limit : Nat) (vs : List Value) :
    encode (.list element limit) (.seq vs) = encodeSeq element vs := by
  simp [encode, encodeSeq, List.flatMap_def, List.map_map, Function.comp_def]

theorem length_encodeSeq_bounds {element : Schema} (helement : element.Bounded) {vs : List Value}
    (hvs : vs.all element.admits = true) :
    vs.length * (if element.isFixed then element.minLength
        else Schema.offsetWidth + element.minLength) ≤ (encodeSeq element vs).length ∧
      (encodeSeq element vs).length ≤ vs.length * (if element.isFixed then element.maxLength
        else Schema.offsetWidth + element.maxLength) := by
  have hparts : ∀ part ∈ vs.map (encode element),
      element.minLength ≤ part.length ∧ part.length ≤ element.maxLength := by
    intro part hpart
    obtain ⟨v, hv, rfl⟩ := List.mem_map.mp hpart
    exact helement v (List.all_eq_true.mp hvs v hv)
  unfold encodeSeq
  cases element.isFixed
  · have h := length_assemble_bodies hparts
    rwa [List.length_map] at h
  · have h := length_flatten_bounds hparts
    rwa [List.length_map] at h

theorem bounded_vector {element : Schema} {length : Nat} (helement : element.Bounded) :
    (Schema.vector element length).Bounded := by
  intro v hv
  cases v with
  | seq vs =>
    simp only [Schema.admits, Bool.and_eq_true, decide_eq_true_eq] at hv
    obtain ⟨rfl, hvs⟩ := hv
    rw [encode_vector]
    exact length_encodeSeq_bounds helement hvs
  | _ => simp [Schema.admits] at hv

theorem bounded_list {element : Schema} {limit : Nat} (helement : element.Bounded) :
    (Schema.list element limit).Bounded := by
  intro v hv
  cases v with
  | seq vs =>
    simp only [Schema.admits, Bool.and_eq_true, decide_eq_true_eq] at hv
    obtain ⟨hlimit, hvs⟩ := hv
    rw [encode_list]
    refine ⟨Nat.zero_le _, ?_⟩
    exact Nat.le_trans (length_encodeSeq_bounds helement hvs).2 (Nat.mul_le_mul_right _ hlimit)
  | _ => simp [Schema.admits] at hv

/-- The layout of fields is as long as their bounds and the offsets together allow. -/
theorem length_fieldSlots_bounds {fields : Fields} (hfields : ∀ f ∈ fields, f.2.Bounded) :
    ∀ {vs : List Value}, Schema.admitsFields fields vs = true →
      Schema.fieldsMinLength fields ≤ (Slot.assemble (fieldSlots fields vs)).length ∧
        (Slot.assemble (fieldSlots fields vs)).length ≤ Schema.fieldsMaxLength fields := by
  induction fields with
  | nil =>
    intro vs _
    simp [fieldSlots, Slot.assemble, Slot.heads, Slot.bodies, Schema.fieldsMinLength]
  | cons f fields ih =>
    intro vs hvs
    obtain ⟨name, τ⟩ := f
    cases vs with
    | nil => simp [Schema.admitsFields] at hvs
    | cons v vs =>
      simp only [Schema.admitsFields, Bool.and_eq_true] at hvs
      have hτ : τ.Bounded := hfields (name, τ) List.mem_cons_self
      have hfirst := hτ v hvs.1
      have hrest := ih (fun f hf => hfields f (List.mem_cons_of_mem _ hf)) hvs.2
      simp only [fieldSlots, Schema.fieldsMinLength, Schema.fieldsMaxLength]
      cases τ.isFixed
      · simp only [Bool.false_eq_true, if_false, Slot.length_assemble_body]
        omega
      · simp only [if_true, Slot.length_assemble_inline]
        omega

theorem bounded (τ : Schema) : τ.Bounded := by
  induction τ using Schema.byParts with
  | vector element length helement => exact bounded_vector helement
  | list element limit helement => exact bounded_list helement
  | container name fields hfields =>
    intro v hv
    cases v with
    | seq vs => exact length_fieldSlots_bounds hfields hv
    | _ => simp [Schema.admits] at hv
  | uint _ | boolean | byteVector _ | bitvector _ =>
    intro v hv
    cases v <;> simp [Schema.admits] at hv
    simp [encode, Schema.minLength, Schema.maxLength, hv]
  | bitlist limit =>
    intro v hv
    cases v with
    | bits bs =>
      have hlimit : bs.length ≤ limit := by simpa [Schema.admits] using hv
      simp only [encode, Schema.minLength, Schema.maxLength, length_packDelimited]
      omega
    | _ => simp [Schema.admits] at hv

theorem length_encode_bounds {τ : Schema} {v : Value} (h : τ.admits v = true) :
    τ.minLength ≤ (encode τ v).length ∧ (encode τ v).length ≤ τ.maxLength :=
  bounded τ v h

/-! ## Fixed schemas -/

mutual
theorem maxLength_of_isFixed (τ : Schema) (h : τ.isFixed = true) : τ.maxLength = τ.minLength := by
  match τ with
  | .uint _ | .boolean | .byteVector _ | .bitvector _ => rfl
  | .bitlist _ | .list _ _ => simp [Schema.isFixed] at h
  | .vector element length =>
    have helement : element.isFixed = true := h
    simp only [Schema.maxLength, Schema.minLength, helement, if_true,
      maxLength_of_isFixed element helement]
  | .container name fields => exact fieldsMaxLength_of_allFixed fields h

theorem fieldsMaxLength_of_allFixed (fields : Fields) (h : Schema.allFixed fields = true) :
    Schema.fieldsMaxLength fields = Schema.fieldsMinLength fields := by
  match fields with
  | [] => rfl
  | (name, τ) :: rest =>
    simp only [Schema.allFixed, Bool.and_eq_true] at h
    simp only [Schema.fieldsMaxLength, Schema.fieldsMinLength, h.1, if_true,
      maxLength_of_isFixed τ h.1, fieldsMaxLength_of_allFixed rest h.2]
end

theorem length_encode_of_isFixed {τ : Schema} {v : Value} (hfixed : τ.isFixed = true)
    (h : τ.admits v = true) : (encode τ v).length = τ.minLength := by
  have hbounds := length_encode_bounds h
  rw [maxLength_of_isFixed τ hfixed] at hbounds
  omega

end BeaconHarness.Ssz
