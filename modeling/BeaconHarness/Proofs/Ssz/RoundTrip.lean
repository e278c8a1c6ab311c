import BeaconHarness.Proofs.Ssz.Length

/-!
# Reading an encoding back

The decoder reads from a stream and leaves the rest, so what it does with an encoding is said with
any rest behind it: it gives the value and stops where the encoding ends (`Schema.ReadsBack`). For
parts that are read one after the other this passes from the parts to the whole. For parts behind a
table of offsets it does because the differences of the offsets are the lengths of the parts, and
because the parts stand in the stream where the offsets say.

Two things can get in the way. An offset has to fit its four bytes, so an encoding has to be shorter
than they can tell. And elements without bytes cannot be counted, so a sequence of fixed elements
has to have elements of at least one byte (`Schema.separable`).

Main statements: every separable schema reads its encodings back (`readsBack`), also from a whole
byte string (`decodeBytes_encode`).
-/

namespace BeaconHarness.Ssz

/-! ## Schemas that can be read back -/

namespace Schema

mutual
/-- Whether the elements of all sequences in a schema can be told apart. -/
def separable : Schema → Bool
  | vector element _ | list element _ =>
    element.separable && (!element.isFixed || element.minLength != 0)
  | container _ fields => allSeparable fields
  | _ => true

/-- Whether the elements of all sequences in fields can be told apart. -/
def allSeparable : Fields → Bool
  | [] => true
  | (_, τ) :: rest => τ.separable && allSeparable rest
end

/-- A stream that begins with the encoding of a value is read as the value and the rest. -/
def ReadsBack (τ : Schema) : Prop :=
  ∀ v rest, τ.admits v = true → (encode τ v).length < Bytes.capacity offsetWidth →
    decode τ (encode τ v).length (encode τ v ++ rest) = some (v, rest)

end Schema

/-! ## Basic parts -/

theorem takeBytes_append (part rest : Bytes) :
    takeBytes part.length (part ++ rest) = (part, rest) := by
  simp [takeBytes]

theorem takeExactly_append (part rest : Bytes) :
    takeExactly part.length (part ++ rest) = some (part, rest) := by
  simp [takeExactly, takeBytes_append]

theorem takeOffset_append {offset : Nat} (h : offset < Bytes.capacity Schema.offsetWidth)
    (rest : Bytes) :
    takeOffset (Bytes.littleEndian Schema.offsetWidth offset ++ rest) = (offset, rest) := by
  have htake := takeBytes_append (Bytes.littleEndian Schema.offsetWidth offset) rest
  rw [Bytes.length_littleEndian] at htake
  unfold takeOffset
  rw [htake]
  simp only [Bytes.ofLittleEndian_littleEndian h]

theorem readsBack_uint (width : Nat) : (Schema.uint width).ReadsBack := by
  intro v rest hv _
  cases v with
  | uint n =>
    have hn : n < Bytes.capacity width := by simpa [Schema.admits] using hv
    have htake := takeBytes_append (Bytes.littleEndian width n) rest
    rw [Bytes.length_littleEndian] at htake
    simp only [encode, decode, Bytes.length_littleEndian, if_true, htake,
      Bytes.ofLittleEndian_littleEndian hn]
  | _ => simp [Schema.admits] at hv

theorem readsBack_boolean : Schema.boolean.ReadsBack := by
  intro v rest hv _
  cases v with
  | boolean b => cases b <;> simp [encode, decode, takeBytes]
  | _ => simp [Schema.admits] at hv

theorem readsBack_byteVector (length : Nat) : (Schema.byteVector length).ReadsBack := by
  intro v rest hv _
  cases v with
  | bytes b =>
    obtain rfl : b.length = length := by simpa [Schema.admits] using hv
    simp [encode, decode, takeExactly_append]
  | _ => simp [Schema.admits] at hv

theorem readsBack_bitvector (length : Nat) : (Schema.bitvector length).ReadsBack := by
  intro v rest hv _
  cases v with
  | bits bs =>
    obtain rfl : bs.length = length := by simpa [Schema.admits] using hv
    have htake := takeExactly_append (packBits bs) rest
    rw [length_packBits] at htake
    simp [encode, decode, htake, unpackBits_packBits]
  | _ => simp [Schema.admits] at hv

theorem readsBack_bitlist (limit : Nat) : (Schema.bitlist limit).ReadsBack := by
  intro v rest hv _
  cases v with
  | bits bs =>
    have hlimit : bs.length ≤ limit := by simpa [Schema.admits] using hv
    have htake := takeExactly_append (packDelimited bs) rest
    rw [length_packDelimited] at htake
    have hscope : (1 ≤ (bs.length + 8) / 8 && (bs.length + 8) / 8 ≤ (limit + 8) / 8) = true := by
      rw [Bool.and_eq_true, decide_eq_true_eq, decide_eq_true_eq]
      omega
    simp only [encode, decode, length_packDelimited, hscope, if_true, htake,
      unpackDelimited_packDelimited hlimit, Option.map_some]
  | _ => simp [Schema.admits] at hv

/-! ## Sequences -/

theorem decodeMany_flatten {step : Bytes → Read Value} {f : Value → Bytes} {vs : List Value}
    (h : ∀ v ∈ vs, ∀ rest, step (f v ++ rest) = some (v, rest)) (rest : Bytes) :
    ∀ read, decodeMany step vs.length read ((vs.map f).flatten ++ rest) =
      some (read.reverse ++ vs, rest) := by
  induction vs with
  | nil =>
    intro read
    simp [decodeMany]
  | cons v vs ih =>
    intro read
    have hrest := ih (fun w hw => h w (List.mem_cons_of_mem _ hw)) (v :: read)
    rw [List.length_cons, decodeMany, List.map_cons, List.flatten_cons, List.append_assoc,
      h v List.mem_cons_self]
    simp only
    rw [hrest, List.reverse_cons, List.append_assoc]
    rfl

theorem decodeScopes_flatten {step : Nat → Bytes → Read Value} {f : Value → Bytes}
    {vs : List Value} (h : ∀ v ∈ vs, ∀ rest, step (f v).length (f v ++ rest) = some (v, rest))
    (rest : Bytes) :
    ∀ read, decodeScopes step ((vs.map f).map List.length) read ((vs.map f).flatten ++ rest) =
      some (read.reverse ++ vs, rest) := by
  induction vs with
  | nil =>
    intro read
    simp [decodeScopes]
  | cons v vs ih =>
    intro read
    have hrest := ih (fun w hw => h w (List.mem_cons_of_mem _ hw)) (v :: read)
    rw [List.map_cons, List.map_cons, decodeScopes, List.flatten_cons, List.append_assoc,
      h v List.mem_cons_self]
    simp only
    rw [hrest, List.reverse_cons, List.append_assoc]
    rfl

/-- The offsets of parts that stand one behind the other, the first one at `start`. -/
def offsetsFrom : (start : Nat) → List Bytes → List Nat
  | _, [] => []
  | start, part :: parts => start :: offsetsFrom (start + part.length) parts

theorem headD_offsetsFrom (start : Nat) (parts : List Bytes) :
    (offsetsFrom start parts).headD (start + parts.flatten.length) = start := by
  cases parts <;> simp [offsetsFrom]

/-- The table in front of bodies holds their offsets. -/
theorem takeOffsets_heads (rest : Bytes) (parts : List Bytes) :
    ∀ start read, start + parts.flatten.length < Bytes.capacity Schema.offsetWidth →
      takeOffsets parts.length read (Slot.heads start (parts.map .body) ++ rest) =
        (read.reverse ++ offsetsFrom start parts, rest) := by
  induction parts with
  | nil =>
    intro start read _
    simp [takeOffsets, Slot.heads, offsetsFrom]
  | cons part parts ih =>
    intro start read h
    rw [List.flatten_cons, List.length_append] at h
    have hrest := ih (start + part.length) (start :: read) (by omega)
    rw [List.length_cons, takeOffsets, List.map_cons, Slot.heads, List.append_assoc,
      takeOffset_append (by omega)]
    simp only
    rw [hrest, offsetsFrom, List.reverse_cons, List.append_assoc]
    rfl

/-- The differences of the offsets are the lengths of the parts. -/
theorem scopesOf_offsetsFrom {least greatest : Nat} {parts : List Bytes}
    (h : ∀ part ∈ parts, least ≤ part.length ∧ part.length ≤ greatest) :
    ∀ start, scopesOf least greatest (start + parts.flatten.length) (offsetsFrom start parts) =
      some (parts.map List.length) := by
  induction parts with
  | nil =>
    intro start
    rfl
  | cons part parts ih =>
    intro start
    have hrest := ih (fun p hp => h p (List.mem_cons_of_mem _ hp)) (start + part.length)
    have hstop : start + (part :: parts).flatten.length =
        start + part.length + parts.flatten.length := by
      rw [List.flatten_cons, List.length_append]
      omega
    have hpart := h part List.mem_cons_self
    have hfits : (start ≤ start + part.length && least ≤ part.length &&
        part.length ≤ greatest) = true := by
      simp [hpart]
    rw [offsetsFrom, scopesOf, hstop, headD_offsetsFrom, hrest, Nat.add_sub_cancel_left]
    simp only [hfits, if_true, Option.map_some, List.map_cons]

theorem headLength_bodies (parts : List Bytes) :
    Slot.headLength (parts.map .body) = parts.length * Schema.offsetWidth := by
  induction parts with
  | nil => simp [Slot.headLength]
  | cons part parts ih =>
    rw [List.map_cons, Slot.headLength, ih, List.length_cons, Slot.headWidth, Nat.succ_mul]
    omega

theorem bodies_bodies (parts : List Bytes) : Slot.bodies (parts.map .body) = parts.flatten := by
  induction parts with
  | nil => rfl
  | cons part parts ih => rw [List.map_cons, Slot.bodies, ih, List.flatten_cons]

/-- A sequence of fixed elements is read back: its length tells how many there are. -/
theorem decodeFixedSeq_encodeSeq {element : Schema} (helement : element.ReadsBack)
    (hfixed : element.isFixed = true) (hsize : element.minLength ≠ 0) {vs : List Value}
    (hvs : vs.all element.admits = true)
    (hlength : (encodeSeq element vs).length < Bytes.capacity Schema.offsetWidth) {exact : Bool}
    {bound : Nat} (hcount : countFits exact bound vs.length = true) (rest : Bytes) :
    decodeFixedSeq (decode element element.minLength) element.minLength exact bound
      (encodeSeq element vs).length (encodeSeq element vs ++ rest) = some (vs, rest) := by
  have hscope : (encodeSeq element vs).length = vs.length * element.minLength := by
    have hbounds := length_encodeSeq_bounds (bounded element) hvs
    rw [if_pos hfixed, if_pos hfixed, maxLength_of_isFixed element hfixed] at hbounds
    omega
  -- A single element is shorter than the sequence, so the bound on the length passes on to it.
  have hone : ∀ v ∈ vs, ∀ rest,
      decode element element.minLength (encode element v ++ rest) = some (v, rest) := by
    intro v hv rest
    have hadmits := List.all_eq_true.mp hvs v hv
    have hwidth := length_encode_of_isFixed hfixed hadmits
    have hless : element.minLength ≤ vs.length * element.minLength :=
      Nat.le_mul_of_pos_left _ (List.length_pos_of_mem hv)
    have hread := helement v rest hadmits (by omega)
    rwa [hwidth] at hread
  have hstream : encodeSeq element vs = (vs.map (encode element)).flatten := by
    rw [encodeSeq, if_pos hfixed]
  have hmany := decodeMany_flatten hone rest []
  unfold decodeFixedSeq
  rw [hscope, Nat.mul_mod_left, Nat.mul_div_cancel _ (Nat.pos_of_ne_zero hsize), hcount, hstream,
    hmany]
  simp [hsize]

/-- The layout of bodies is their table, which begins with the offset of the first body, and then
the bodies. -/
theorem assemble_bodies_cons (part rest : Bytes) (parts : List Bytes) :
    Slot.assemble ((part :: parts).map .body) ++ rest =
      Bytes.littleEndian Schema.offsetWidth ((parts.length + 1) * Schema.offsetWidth) ++
        (Slot.heads ((parts.length + 1) * Schema.offsetWidth + part.length) (parts.map .body) ++
          ((part :: parts).flatten ++ rest)) := by
  rw [Slot.assemble, headLength_bodies, bodies_bodies, List.length_cons, List.map_cons, Slot.heads]
  simp only [List.append_assoc]

/-- Behind the table the parts are read one after the other, each with its length as its scope. -/
theorem decodeVariableSeq_assemble {step : Nat → Bytes → Read Value} {least greatest bound : Nat}
    {exact : Bool} {part rest : Bytes} {parts : List Bytes} {vs : List Value}
    (hbounds : ∀ p ∈ part :: parts, least ≤ p.length ∧ p.length ≤ greatest)
    (hlength : (Slot.assemble ((part :: parts).map .body)).length <
      Bytes.capacity Schema.offsetWidth)
    (hcount : countFits exact bound (parts.length + 1) = true)
    (hread : decodeScopes step ((part :: parts).map List.length) []
      ((part :: parts).flatten ++ rest) = some (vs, rest)) :
    decodeVariableSeq step least greatest exact bound
      (Slot.assemble ((part :: parts).map .body)).length
      (Slot.assemble ((part :: parts).map .body) ++ rest) = some (vs, rest) := by
  have hscope : (Slot.assemble ((part :: parts).map .body)).length =
      (parts.length + 1) * Schema.offsetWidth + (part :: parts).flatten.length := by
    rw [Slot.length_assemble, headLength_bodies, bodies_bodies, List.length_cons]
  have hflatten : (part :: parts).flatten.length = part.length + parts.flatten.length := by
    rw [List.flatten_cons, List.length_append]
  have hoffsets := takeOffsets_heads ((part :: parts).flatten ++ rest) parts
    ((parts.length + 1) * Schema.offsetWidth + part.length)
    [(parts.length + 1) * Schema.offsetWidth] (by omega)
  -- The first offset is read before the table, because it tells the length of the table.
  have htable : [(parts.length + 1) * Schema.offsetWidth].reverse ++
      offsetsFrom ((parts.length + 1) * Schema.offsetWidth + part.length) parts =
      offsetsFrom ((parts.length + 1) * Schema.offsetWidth) (part :: parts) := rfl
  rw [htable] at hoffsets
  have hscopes := scopesOf_offsetsFrom hbounds ((parts.length + 1) * Schema.offsetWidth)
  have hpos : 0 < Schema.offsetWidth := by decide
  have hfirst : 0 < (parts.length + 1) * Schema.offsetWidth := Nat.mul_pos (Nat.succ_pos _) hpos
  have hle : ¬ (parts.length + 1) * Schema.offsetWidth + (part :: parts).flatten.length <
      (parts.length + 1) * Schema.offsetWidth := by omega
  unfold decodeVariableSeq
  rw [if_neg (by omega), assemble_bodies_cons, takeOffset_append (by omega)]
  simp only [Nat.mul_div_cancel _ hpos, Nat.mul_mod_left, hcount, Nat.add_sub_cancel, hoffsets]
  rw [hscope, hscopes]
  simp only [hle, Nat.ne_of_gt hfirst, decide_false, Bool.or_false, ne_eq, not_true_eq_false,
    Bool.not_true, Bool.false_eq_true, if_false]
  exact hread

/-- A sequence of variable elements is read back: its first offset tells how many there are. -/
theorem decodeVariableSeq_encodeSeq {element : Schema} (helement : element.ReadsBack)
    (hvariable : element.isFixed = false) {vs : List Value}
    (hvs : vs.all element.admits = true)
    (hlength : (encodeSeq element vs).length < Bytes.capacity Schema.offsetWidth) {exact : Bool}
    {bound : Nat} (hcount : countFits exact bound vs.length = true) (rest : Bytes) :
    decodeVariableSeq (decode element) element.minLength element.maxLength exact bound
      (encodeSeq element vs).length (encodeSeq element vs ++ rest) = some (vs, rest) := by
  have hstream : encodeSeq element vs =
      Slot.assemble ((vs.map (encode element)).map .body) := by
    rw [encodeSeq, hvariable]
    rfl
  have hbounds : ∀ part ∈ vs.map (encode element),
      element.minLength ≤ part.length ∧ part.length ≤ element.maxLength := by
    intro part hpart
    obtain ⟨w, hw, rfl⟩ := List.mem_map.mp hpart
    exact length_encode_bounds (List.all_eq_true.mp hvs w hw)
  have hone : ∀ w ∈ vs, ∀ rest,
      decode element (encode element w).length (encode element w ++ rest) = some (w, rest) := by
    intro w hw rest
    have hpart : (encode element w).length ≤ (vs.map (encode element)).flatten.length :=
      (List.sublist_flatten_of_mem (List.mem_map_of_mem hw)).length_le
    have hwhole : (vs.map (encode element)).flatten.length ≤ (encodeSeq element vs).length := by
      rw [hstream, Slot.length_assemble, bodies_bodies]
      exact Nat.le_add_left _ _
    exact helement w rest (List.all_eq_true.mp hvs w hw) (by omega)
  have hread := decodeScopes_flatten hone rest []
  rw [hstream] at hlength ⊢
  cases vs with
  | nil =>
    -- Without a part there is no table, and the empty input stands for no elements.
    rw [List.length_nil] at hcount
    simp [decodeVariableSeq, Slot.assemble, Slot.heads, Slot.bodies, hcount]
  | cons v vs =>
    refine decodeVariableSeq_assemble hbounds hlength ?_ hread
    rwa [List.length_map]

/-- What a decoder of sequences does with the encoding of one. -/
theorem decode_encodeSeq {element : Schema} (helement : element.ReadsBack)
    (hsize : (!element.isFixed || element.minLength != 0) = true) {vs : List Value}
    (hvs : vs.all element.admits = true)
    (hlength : (encodeSeq element vs).length < Bytes.capacity Schema.offsetWidth) {exact : Bool}
    {bound : Nat} (hcount : countFits exact bound vs.length = true) (rest : Bytes) :
    (if element.isFixed then
      decodeFixedSeq (decode element element.minLength) element.minLength exact bound
        (encodeSeq element vs).length (encodeSeq element vs ++ rest)
    else
      decodeVariableSeq (decode element) element.minLength element.maxLength exact bound
        (encodeSeq element vs).length (encodeSeq element vs ++ rest)) = some (vs, rest) := by
  cases hfixed : element.isFixed with
  | true =>
    have hne : element.minLength ≠ 0 := by simpa [hfixed] using hsize
    exact decodeFixedSeq_encodeSeq helement hfixed hne hvs hlength hcount rest
  | false => exact decodeVariableSeq_encodeSeq helement hfixed hvs hlength hcount rest

theorem readsBack_vector {element : Schema} {length : Nat} (helement : element.ReadsBack)
    (hsize : (!element.isFixed || element.minLength != 0) = true) :
    (Schema.vector element length).ReadsBack := by
  intro v rest hv hlength
  cases v with
  | seq vs =>
    simp only [Schema.admits, Bool.and_eq_true, decide_eq_true_eq] at hv
    obtain ⟨hcount, hvs⟩ := hv
    rw [encode_vector] at hlength ⊢
    rw [decode, decode_encodeSeq helement hsize hvs hlength (by simp [countFits, hcount])]
    rfl
  | _ => simp [Schema.admits] at hv

theorem readsBack_list {element : Schema} {limit : Nat} (helement : element.ReadsBack)
    (hsize : (!element.isFixed || element.minLength != 0) = true) :
    (Schema.list element limit).ReadsBack := by
  intro v rest hv hlength
  cases v with
  | seq vs =>
    simp only [Schema.admits, Bool.and_eq_true, decide_eq_true_eq] at hv
    obtain ⟨hcount, hvs⟩ := hv
    rw [encode_list] at hlength ⊢
    rw [decode, decode_encodeSeq helement hsize hvs hlength (by simp [countFits, hcount])]
    rfl
  | _ => simp [Schema.admits] at hv

/-! ## Containers -/

/-- What the head of a container holds when the next body starts at `offset`. -/
def headsFrom : (offset : Nat) → Fields → List Value → List Head
  | offset, (_, τ) :: fields, v :: vs =>
    if τ.isFixed then .value v :: headsFrom offset fields vs
    else .offset offset :: headsFrom (offset + (encode τ v).length) fields vs
  | _, _, _ => []

theorem headLength_fieldSlots {fields : Fields} :
    ∀ {vs : List Value}, Schema.admitsFields fields vs = true →
      Slot.headLength (fieldSlots fields vs) = Schema.headLength fields := by
  induction fields with
  | nil =>
    intro vs _
    simp [fieldSlots, Slot.headLength, Schema.headLength]
  | cons f fields ih =>
    intro vs hvs
    obtain ⟨name, τ⟩ := f
    cases vs with
    | nil => simp [Schema.admitsFields] at hvs
    | cons v vs =>
      simp only [Schema.admitsFields, Bool.and_eq_true] at hvs
      rw [fieldSlots, Slot.headLength, Schema.headLength, ih hvs.2]
      cases hfixed : τ.isFixed with
      | true => rw [if_pos rfl, if_pos rfl, Slot.headWidth, length_encode_of_isFixed hfixed hvs.1]
      | false => rfl

/-- The next body starts at `offset`, and without one that is where what follows starts. -/
theorem firstOffset?_headsFrom (heads : List Head) {scope : Nat} (fields : Fields) :
    ∀ (vs : List Value) (offset : Nat),
      (firstOffset? heads).getD scope = offset + (Slot.bodies (fieldSlots fields vs)).length →
      (firstOffset? (headsFrom offset fields vs ++ heads)).getD scope = offset := by
  induction fields with
  | nil =>
    intro vs offset hnext
    simpa [headsFrom, fieldSlots, Slot.bodies] using hnext
  | cons f fields ih =>
    intro vs offset hnext
    obtain ⟨name, τ⟩ := f
    cases vs with
    | nil => simpa [headsFrom, fieldSlots, Slot.bodies] using hnext
    | cons v vs =>
      rw [fieldSlots] at hnext
      rw [headsFrom]
      cases hfixed : τ.isFixed with
      | true =>
        simp only [hfixed, if_true, Slot.bodies] at hnext
        exact ih vs offset hnext
      | false => rfl

/-- The head of a container is read back: its fixed fields and the offsets of the others. -/
theorem decodeHeads_heads {fields : Fields} (hfields : ∀ f ∈ fields, f.2.ReadsBack) (rest : Bytes) :
    ∀ {vs : List Value} (offset : Nat), Schema.admitsFields fields vs = true →
      Slot.headLength (fieldSlots fields vs) < Bytes.capacity Schema.offsetWidth →
      offset + (Slot.bodies (fieldSlots fields vs)).length < Bytes.capacity Schema.offsetWidth →
      decodeHeads fields (Slot.heads offset (fieldSlots fields vs) ++ rest) =
        some (headsFrom offset fields vs, rest) := by
  induction fields with
  | nil =>
    intro vs offset _ _ _
    simp [decodeHeads, fieldSlots, Slot.heads, headsFrom]
  | cons f fields ih =>
    intro vs offset hvs hhead hbodies
    obtain ⟨name, τ⟩ := f
    have hτ : τ.ReadsBack := hfields (name, τ) List.mem_cons_self
    have hrest : ∀ f ∈ fields, f.2.ReadsBack := fun f hf => hfields f (List.mem_cons_of_mem _ hf)
    cases vs with
    | nil => simp [Schema.admitsFields] at hvs
    | cons v vs =>
      simp only [Schema.admitsFields, Bool.and_eq_true] at hvs
      rw [fieldSlots] at hhead hbodies ⊢
      rw [decodeHeads, headsFrom]
      cases hfixed : τ.isFixed with
      | true =>
        simp only [hfixed, if_true, Slot.headLength, Slot.headWidth, Slot.bodies] at hhead hbodies
        -- The field is read where it stands.
        have hone := hτ v (Slot.heads offset (fieldSlots fields vs) ++ rest) hvs.1 (by omega)
        rw [length_encode_of_isFixed hfixed hvs.1] at hone
        have htail := ih hrest offset hvs.2 (by omega) hbodies
        simp only [if_true, Slot.heads, List.append_assoc, hone, htail, Option.map_some]
      | false =>
        simp only [hfixed, Bool.false_eq_true, if_false, Slot.headLength, Slot.headWidth,
          Slot.bodies, List.length_append] at hhead hbodies
        -- The offset is read, and the next body starts behind this one.
        have htail := ih hrest (offset + (encode τ v).length) hvs.2 (by omega) (by omega)
        simp only [Bool.false_eq_true, if_false, Slot.heads, List.append_assoc,
          takeOffset_append (show offset < Bytes.capacity Schema.offsetWidth by omega), htail,
          Option.map_some]

/-- The bodies of the first fields of a container are read back and put into their places, if what
follows them starts where they end. -/
theorem decodeBodies_bodies {fields : Fields} (hfields : ∀ f ∈ fields, f.2.ReadsBack)
    (later : Fields) (heads : List Head) (scope : Nat) (stream : Bytes) :
    ∀ {vs : List Value} (offset : Nat), Schema.admitsFields fields vs = true →
      (Slot.bodies (fieldSlots fields vs)).length < Bytes.capacity Schema.offsetWidth →
      (firstOffset? heads).getD scope = offset + (Slot.bodies (fieldSlots fields vs)).length →
      decodeBodies (fields ++ later) (headsFrom offset fields vs ++ heads) scope
        (Slot.bodies (fieldSlots fields vs) ++ stream) =
          (decodeBodies later heads scope stream).map fun (ws, rest) => (vs ++ ws, rest) := by
  induction fields with
  | nil =>
    intro vs offset hvs _ _
    cases vs with
    | nil => simp [headsFrom, fieldSlots, Slot.bodies]
    | cons v vs => simp [Schema.admitsFields] at hvs
  | cons f fields ih =>
    intro vs offset hvs hbodies hnext
    obtain ⟨name, τ⟩ := f
    have hτ : τ.ReadsBack := hfields (name, τ) List.mem_cons_self
    have hrest : ∀ f ∈ fields, f.2.ReadsBack := fun f hf => hfields f (List.mem_cons_of_mem _ hf)
    cases vs with
    | nil => simp [Schema.admitsFields] at hvs
    | cons v vs =>
      simp only [Schema.admitsFields, Bool.and_eq_true] at hvs
      rw [fieldSlots] at hbodies hnext ⊢
      rw [headsFrom]
      cases hfixed : τ.isFixed with
      | true =>
        simp only [hfixed, if_true, Slot.bodies] at hbodies hnext
        have htail := ih hrest offset hvs.2 hbodies hnext
        simp only [if_true, List.cons_append, Slot.bodies, decodeBodies, htail, Option.map_map]
        rfl
      | false =>
        simp only [hfixed, Bool.false_eq_true, if_false, Slot.bodies, List.length_append]
          at hbodies hnext
        -- The next offset, or the start of what follows, lies right behind this body.
        have hbehind : (firstOffset? (headsFrom (offset + (encode τ v).length) fields vs
            ++ heads)).getD scope = offset + (encode τ v).length :=
          firstOffset?_headsFrom heads fields vs _ (by omega)
        have hbounds := length_encode_bounds hvs.1
        have hfits : (offset ≤ offset + (encode τ v).length &&
            τ.minLength ≤ (encode τ v).length && (encode τ v).length ≤ τ.maxLength) = true := by
          simp [hbounds]
        have hone := hτ v (Slot.bodies (fieldSlots fields vs) ++ stream) hvs.1 (by omega)
        have htail := ih hrest (offset + (encode τ v).length) hvs.2 (by omega) (by omega)
        simp only [Bool.false_eq_true, if_false, List.cons_append, Slot.bodies, decodeBodies,
          hbehind, Nat.add_sub_cancel_left, hfits, if_true, List.append_assoc, hone, htail,
          Option.map_map]
        rfl

theorem readsBack_container {name : String} {fields : Fields}
    (hfields : ∀ f ∈ fields, f.2.ReadsBack) : (Schema.container name fields).ReadsBack := by
  intro v rest hv hlength
  cases v with
  | seq vs =>
    have hvs : Schema.admitsFields fields vs = true := hv
    rw [encode, Slot.length_assemble] at hlength
    have hheads := decodeHeads_heads hfields (Slot.bodies (fieldSlots fields vs) ++ rest)
      (Slot.headLength (fieldSlots fields vs)) hvs (by omega) hlength
    have hbodies := decodeBodies_bodies hfields [] [] _ rest
      (Slot.headLength (fieldSlots fields vs)) hvs (by omega) rfl
    simp only [List.append_nil, decodeBodies, Option.map_some] at hbodies
    -- The first body starts where the heads end, and that is not inside them.
    have hfit : headsFit fields
        (headsFrom (Slot.headLength (fieldSlots fields vs)) fields vs) = true := by
      have hfirst := firstOffset?_headsFrom [] fields vs
        (Slot.headLength (fieldSlots fields vs)) rfl
      rw [List.append_nil] at hfirst
      unfold headsFit
      cases hoffset : firstOffset?
          (headsFrom (Slot.headLength (fieldSlots fields vs)) fields vs) with
      | none => rfl
      | some o =>
        rw [hoffset, Option.getD_some] at hfirst
        rw [hfirst, headLength_fieldSlots hvs]
        exact decide_eq_true (Nat.le_refl _)
    rw [encode, Slot.length_assemble, Slot.assemble, List.append_assoc, decode, hheads]
    simp only [hfit, if_true, hbodies, Option.map_some]
  | _ => simp [Schema.admits] at hv

/-! ## All schemas -/

theorem separable_of_mem {fields : Fields} (h : Schema.allSeparable fields = true) :
    ∀ f ∈ fields, f.2.separable = true := by
  induction fields with
  | nil => exact fun f hf => absurd hf List.not_mem_nil
  | cons field rest ih =>
    obtain ⟨hfield, hrest⟩ := (Bool.and_eq_true _ _).mp h
    intro f hf
    rcases List.mem_cons.mp hf with rfl | hf
    · exact hfield
    · exact ih hrest f hf

theorem readsBack (τ : Schema) (h : τ.separable = true) : τ.ReadsBack := by
  induction τ using Schema.byParts with
  | uint width => exact readsBack_uint width
  | boolean => exact readsBack_boolean
  | byteVector length => exact readsBack_byteVector length
  | bitvector length => exact readsBack_bitvector length
  | bitlist limit => exact readsBack_bitlist limit
  | vector element length ih =>
    obtain ⟨helement, hwidth⟩ := (Bool.and_eq_true _ _).mp h
    exact readsBack_vector (ih helement) hwidth
  | list element limit ih =>
    obtain ⟨helement, hwidth⟩ := (Bool.and_eq_true _ _).mp h
    exact readsBack_list (ih helement) hwidth
  | container name fields ih =>
    exact readsBack_container fun f hf => ih f hf (separable_of_mem h f hf)

theorem readsBack_fields (fields : Fields) (h : Schema.allSeparable fields = true) :
    ∀ f ∈ fields, f.2.ReadsBack := fun f hf => readsBack f.2 (separable_of_mem h f hf)

/-- A whole byte string that is the encoding of a value is read as that value. -/
theorem decodeBytes_encode {τ : Schema} (hτ : τ.separable = true) {v : Value}
    (hv : τ.admits v = true)
    (hlength : (encode τ v).length < Bytes.capacity Schema.offsetWidth) :
    decodeBytes τ (encode τ v) = some v := by
  have hread := readsBack τ hτ v [] hv hlength
  rw [List.append_nil] at hread
  -- Numbers and booleans by themselves are not read from a stream.
  cases τ with
  | uint width =>
    cases v with
    | uint n =>
      have hn : n < Bytes.capacity width := by simpa [Schema.admits] using hv
      simp [decodeBytes, encode, Bytes.ofLittleEndian_littleEndian hn, hn]
    | _ => simp [Schema.admits] at hv
  | boolean =>
    cases v with
    | boolean b => cases b <;> simp [decodeBytes, encode]
    | _ => simp [Schema.admits] at hv
  | _ => rw [decodeBytes, hread, Option.map_some] <;> simp

end BeaconHarness.Ssz
