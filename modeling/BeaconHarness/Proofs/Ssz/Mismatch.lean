import BeaconHarness.Proofs.Ssz.Admission
import BeaconHarness.Proofs.Ssz.RoundTrip

/-!
# Reading under another schema

Two containers that begin with the same fields have the same layout up to the first offset, which
tells where the bodies start: behind the head of the container that was written. A reader whose own
head is longer finds that the bodies would start inside it, and refuses. If the heads are of one
length but a field has another schema, then the reader gets as far as that field, and refuses what
the schema of the field refuses.

An encoding may be too long for its offsets, which are then cut off at four bytes and lead the
reader astray. It still cannot get through, if the last field is a variable one of a bounded length:
from an offset that was cut off to the end there are more bytes than the field can have.

Main statements: a container with a longer head refuses the encodings of another
(`refuses_of_headLength_lt`); a container with a field that refuses does so as a whole, behind fixed
fields (`refuses_of_fixed_prefix`) and behind variable ones (`decodeBytes_eq_none_of_refuses`).
-/

namespace BeaconHarness

/-- What is read back of a number in a layout that need not have room for it. -/
theorem Bytes.ofLittleEndian_littleEndian_mod (width n : Nat) :
    ofLittleEndian (littleEndian width n) = n % capacity width := by
  induction width generalizing n with
  | zero =>
    rw [capacity, Nat.mod_one]
    rfl
  | succ width ih =>
    have htail := ih (n / 256)
    simp only [ofLittleEndian] at htail
    simp only [littleEndian, ofLittleEndian, List.foldr_cons, htail, capacity,
      UInt8.toNat_ofNat']
    rw [Nat.mod_mul]

namespace Ssz

/-- Whether a schema refuses all encodings of values of another one, in any scope and with anything
behind them. -/
def Schema.Refuses (σ τ : Schema) : Prop :=
  ∀ (v : Value) (scope : Nat) (rest : Bytes), τ.admits v = true →
    decode σ scope (encode τ v ++ rest) = none

/-! ## How far a fixed schema reads -/

/-- Whether reading a value of a fixed schema takes just the bytes of its length off the stream. -/
def Schema.Advances (τ : Schema) : Prop :=
  ∀ (scope : Nat) (stream : Bytes) (v : Value) (rest : Bytes), τ.isFixed = true →
    decode τ scope stream = some (v, rest) → rest = stream.drop τ.minLength

theorem drop_of_takeExactly {n : Nat} {stream b rest : Bytes}
    (h : takeExactly n stream = some (b, rest)) : rest = stream.drop n := by
  have hif : (if (stream.take n).length = n then some (stream.take n, stream.drop n) else none) =
      some (b, rest) := h
  split at hif
  · exact (Prod.mk.inj (Option.some.inj hif)).2.symm
  · exact absurd hif (by simp)

theorem drop_of_decodeMany {step : Bytes → Read Value} {size : Nat}
    (hstep : ∀ stream v rest, step stream = some (v, rest) → rest = stream.drop size)
    {count : Nat} {read vs : List Value} {stream rest : Bytes}
    (h : decodeMany step count read stream = some (vs, rest)) :
    rest = stream.drop (count * size) := by
  induction count generalizing read stream with
  | zero =>
    obtain ⟨-, rfl⟩ := Prod.mk.inj (Option.some.inj h)
    rw [Nat.zero_mul, List.drop_zero]
  | succ count ih =>
    rw [decodeMany] at h
    split at h
    · exact absurd h (by simp)
    · rename_i v stream' hv
      rw [ih h, hstep stream v stream' hv, List.drop_drop, Nat.succ_mul, Nat.add_comm]

theorem advances_vector {element : Schema} (helement : element.Advances) (length : Nat) :
    (Schema.vector element length).Advances := by
  intro scope stream v rest hfixed h
  have hel : element.isFixed = true := hfixed
  rw [decode, if_pos hel] at h
  obtain ⟨⟨vs, stream'⟩, hvs, heq⟩ := Option.map_eq_some_iff.mp h
  obtain ⟨-, rfl⟩ := Prod.mk.inj heq
  unfold decodeFixedSeq at hvs
  split at hvs
  · rename_i hfits
    have hcount : scope / element.minLength = length :=
      of_decide_eq_true ((Bool.and_eq_true _ _).mp hfits).2
    rw [hcount] at hvs
    rw [Schema.minLength, if_pos hel]
    exact drop_of_decodeMany (fun stream v rest hv => helement _ stream v rest hel hv) hvs
  · exact absurd hvs (by simp)

/-- The head of a container is read to its end. -/
theorem drop_of_decodeHeads {fields : Fields} (hfields : ∀ f ∈ fields, f.2.Advances)
    {stream rest : Bytes} {heads : List Head}
    (h : decodeHeads fields stream = some (heads, rest)) :
    rest = stream.drop (Schema.headLength fields) := by
  induction fields generalizing stream rest heads with
  | nil =>
    obtain ⟨-, rfl⟩ := Prod.mk.inj (Option.some.inj h)
    rfl
  | cons field fields ih =>
    obtain ⟨name, τ⟩ := field
    have hτ : τ.Advances := hfields (name, τ) List.mem_cons_self
    have hrest : ∀ f ∈ fields, f.2.Advances := fun f hf => hfields f (List.mem_cons_of_mem _ hf)
    simp only [decodeHeads] at h
    rw [Schema.headLength, ← List.drop_drop]
    split at h
    · rename_i hfixed
      split at h
      · exact absurd h (by simp)
      · rename_i v stream' hv
        obtain ⟨⟨heads', stream''⟩, hheads, heq⟩ := Option.map_eq_some_iff.mp h
        obtain ⟨-, rfl⟩ := Prod.mk.inj heq
        rw [if_pos hfixed, ← hτ _ stream v stream' hfixed hv]
        exact ih hrest hheads
    · rename_i hvariable
      obtain ⟨⟨heads', stream''⟩, hheads, heq⟩ := Option.map_eq_some_iff.mp h
      obtain ⟨-, rfl⟩ := Prod.mk.inj heq
      rw [if_neg hvariable]
      exact ih hrest hheads

theorem headLength_of_allFixed {fields : Fields} (hfixed : Schema.allFixed fields = true) :
    Schema.headLength fields = Schema.fieldsMinLength fields := by
  induction fields with
  | nil => rfl
  | cons field fields ih =>
    obtain ⟨name, τ⟩ := field
    obtain ⟨hτ, hrest⟩ := (Bool.and_eq_true _ _).mp hfixed
    rw [Schema.headLength, Schema.fieldsMinLength, if_pos hτ, if_pos hτ, ih hrest]

/-- Without variable fields nothing is read behind the head. -/
theorem rest_of_decodeBodies {fields : Fields} (hfixed : Schema.allFixed fields = true)
    {start stream rest : Bytes} {heads : List Head} {scope : Nat} {vs : List Value}
    (hheads : decodeHeads fields start = some (heads, stream))
    (h : decodeBodies fields heads scope stream = some (vs, rest)) : rest = stream := by
  induction fields generalizing start stream heads vs with
  | nil =>
    obtain ⟨rfl, rfl⟩ := Prod.mk.inj (Option.some.inj hheads)
    exact (Prod.mk.inj (Option.some.inj h)).2.symm
  | cons field fields ih =>
    obtain ⟨name, τ⟩ := field
    obtain ⟨hτ, hrest⟩ := (Bool.and_eq_true _ _).mp hfixed
    rw [decodeHeads, if_pos hτ] at hheads
    split at hheads
    · exact absurd hheads (by simp)
    · obtain ⟨⟨heads', stream'⟩, hheads', heq⟩ := Option.map_eq_some_iff.mp hheads
      obtain ⟨rfl, rfl⟩ := Prod.mk.inj heq
      obtain ⟨⟨vs', stream''⟩, hvs, heq⟩ := Option.map_eq_some_iff.mp h
      obtain ⟨-, rfl⟩ := Prod.mk.inj heq
      exact ih hrest hheads' hvs

theorem advances_container {fields : Fields} (hfields : ∀ f ∈ fields, f.2.Advances)
    (name : String) : (Schema.container name fields).Advances := by
  intro scope stream v rest hfixed h
  have hall : Schema.allFixed fields = true := hfixed
  rw [decode] at h
  split at h
  · exact absurd h (by simp)
  · rename_i heads stream' hheads
    split at h
    · obtain ⟨⟨vs, stream''⟩, hvs, heq⟩ := Option.map_eq_some_iff.mp h
      obtain ⟨-, rfl⟩ := Prod.mk.inj heq
      rw [rest_of_decodeBodies hall hheads hvs, drop_of_decodeHeads hfields hheads,
        headLength_of_allFixed hall]
      rfl
    · exact absurd h (by simp)

theorem advances (τ : Schema) : τ.Advances := by
  induction τ using Schema.byParts with
  | uint width =>
    intro scope stream v rest _ h
    simp only [decode, takeBytes] at h
    split at h
    · exact (Prod.mk.inj (Option.some.inj h)).2.symm
    · exact absurd h (by simp)
  | boolean =>
    intro scope stream v rest _ h
    exact (Prod.mk.inj (Option.some.inj h)).2.symm
  | byteVector length =>
    intro scope stream v rest _ h
    simp only [decode] at h
    split at h
    · obtain ⟨⟨b, stream'⟩, hb, heq⟩ := Option.map_eq_some_iff.mp h
      obtain ⟨-, rfl⟩ := Prod.mk.inj heq
      exact drop_of_takeExactly hb
    · exact absurd h (by simp)
  | bitvector length =>
    intro scope stream v rest _ h
    simp only [decode] at h
    split at h
    · rename_i hscope
      split at h
      · exact absurd h (by simp)
      · rename_i b stream' hb
        obtain ⟨bs, -, heq⟩ := Option.map_eq_some_iff.mp h
        obtain ⟨-, rfl⟩ := Prod.mk.inj heq
        rw [drop_of_takeExactly hb, hscope]
        rfl
    · exact absurd h (by simp)
  | bitlist _ | list _ _ _ =>
    exact fun _ _ _ _ hfixed => absurd hfixed (by simp [Schema.isFixed])
  | vector element length helement => exact advances_vector helement length
  | container name fields hfields => exact advances_container hfields name

/-! ## Layouts in two parts -/

namespace Slot

theorem bodies_append (first later : List Slot) :
    bodies (first ++ later) = bodies first ++ bodies later := by
  induction first with
  | nil => rfl
  | cons slot first ih =>
    cases slot with
    | inline part => exact ih
    | body part => rw [List.cons_append, bodies, bodies, ih, List.append_assoc]

/-- The bodies of later slots start where those of the first ones end. -/
theorem heads_append (first later : List Slot) (offset : Nat) :
    heads offset (first ++ later) =
      heads offset first ++ heads (offset + (bodies first).length) later := by
  induction first generalizing offset with
  | nil => rfl
  | cons slot first ih =>
    cases slot with
    | inline part => rw [List.cons_append, heads, heads, ih, List.append_assoc, bodies]
    | body part =>
      rw [List.cons_append, heads, heads, ih, List.append_assoc, bodies, List.length_append,
        Nat.add_assoc]

end Slot

theorem headLength_append (first later : Fields) :
    Schema.headLength (first ++ later) = Schema.headLength first + Schema.headLength later := by
  induction first with
  | nil => exact (Nat.zero_add _).symm
  | cons field first ih =>
    obtain ⟨name, τ⟩ := field
    rw [List.cons_append, Schema.headLength, Schema.headLength, ih, Nat.add_assoc]

/-- Values that belong to fields in two parts come in two parts. -/
theorem exists_of_admitsFields_append {first later : Fields} {vs : List Value}
    (h : Schema.admitsFields (first ++ later) vs = true) :
    ∃ us ws, vs = us ++ ws ∧ Schema.admitsFields first us = true
      ∧ Schema.admitsFields later ws = true := by
  induction first generalizing vs with
  | nil => exact ⟨[], vs, rfl, rfl, h⟩
  | cons field first ih =>
    obtain ⟨name, τ⟩ := field
    cases vs with
    | nil => simp [Schema.admitsFields] at h
    | cons v vs =>
      obtain ⟨hv, hvs⟩ := (Bool.and_eq_true _ _).mp h
      obtain ⟨us, ws, rfl, hus, hws⟩ := ih hvs
      exact ⟨v :: us, ws, rfl, (Bool.and_eq_true _ _).mpr ⟨hv, hus⟩, hws⟩

theorem admitsFields_append {first later : Fields} {us ws : List Value}
    (hus : Schema.admitsFields first us = true) (hws : Schema.admitsFields later ws = true) :
    Schema.admitsFields (first ++ later) (us ++ ws) = true := by
  induction first generalizing us with
  | nil =>
    cases us with
    | nil => exact hws
    | cons u us => simp [Schema.admitsFields] at hus
  | cons field first ih =>
    obtain ⟨name, τ⟩ := field
    cases us with
    | nil => simp [Schema.admitsFields] at hus
    | cons u us =>
      obtain ⟨hu, hus⟩ := (Bool.and_eq_true _ _).mp hus
      exact (Bool.and_eq_true _ _).mpr ⟨hu, ih hus⟩

theorem fieldSlots_append {first : Fields} {us : List Value}
    (hus : Schema.admitsFields first us = true) (later : Fields) (ws : List Value) :
    fieldSlots (first ++ later) (us ++ ws) = fieldSlots first us ++ fieldSlots later ws := by
  induction first generalizing us with
  | nil =>
    cases us with
    | nil => simp [fieldSlots]
    | cons u us => simp [Schema.admitsFields] at hus
  | cons field first ih =>
    obtain ⟨name, τ⟩ := field
    cases us with
    | nil => simp [Schema.admitsFields] at hus
    | cons u us =>
      obtain ⟨-, hus⟩ := (Bool.and_eq_true _ _).mp hus
      simp only [List.cons_append, fieldSlots, ih hus]

theorem decodeHeads_append (first later : Fields) (stream : Bytes) :
    decodeHeads (first ++ later) stream = (decodeHeads first stream).bind fun read =>
      (decodeHeads later read.2).map fun more => (read.1 ++ more.1, more.2) := by
  induction first generalizing stream with
  | nil => simp [decodeHeads]
  | cons field first ih =>
    obtain ⟨name, τ⟩ := field
    have hhead : ∀ (head : Head) (rest : Bytes),
        ((decodeHeads (first ++ later) rest).map fun read => (head :: read.1, read.2)) =
          ((decodeHeads first rest).map fun read => (head :: read.1, read.2)).bind fun read =>
            (decodeHeads later read.2).map fun more => (read.1 ++ more.1, more.2) := by
      intro head rest
      rw [ih rest]
      cases decodeHeads first rest with
      | none => rfl
      | some read =>
        obtain ⟨heads, rest⟩ := read
        cases hlater : decodeHeads later rest <;> simp [hlater]
    rw [List.cons_append, decodeHeads, decodeHeads]
    split
    · split
      · rfl
      · exact hhead _ _
    · exact hhead _ _

theorem firstOffset?_append (first later : List Head) :
    firstOffset? (first ++ later) = (firstOffset? first).or (firstOffset? later) := by
  induction first with
  | nil => rfl
  | cons head first ih =>
    cases head with
    | value v => exact ih
    | offset o => rfl

/-! ## Fixed fields in front -/

theorem bodies_of_allFixed {fields : Fields} (hfixed : Schema.allFixed fields = true)
    (vs : List Value) : Slot.bodies (fieldSlots fields vs) = [] := by
  induction fields generalizing vs with
  | nil => rfl
  | cons field fields ih =>
    obtain ⟨name, τ⟩ := field
    obtain ⟨hτ, hrest⟩ := (Bool.and_eq_true _ _).mp hfixed
    cases vs with
    | nil => rfl
    | cons v vs =>
      rw [fieldSlots, if_pos hτ]
      exact ih hrest vs

theorem firstOffset?_of_allFixed {fields : Fields} (hfixed : Schema.allFixed fields = true)
    (offset : Nat) (vs : List Value) : firstOffset? (headsFrom offset fields vs) = none := by
  induction fields generalizing vs with
  | nil => rfl
  | cons field fields ih =>
    obtain ⟨name, τ⟩ := field
    obtain ⟨hτ, hrest⟩ := (Bool.and_eq_true _ _).mp hfixed
    cases vs with
    | nil => rfl
    | cons v vs =>
      rw [headsFrom, if_pos hτ]
      exact ih hrest vs

/-! ## A variable field behind a common front -/

theorem headLength_around {front : Fields} {field : String} {τ : Schema} (hτ : τ.isFixed = false)
    (later : Fields) : Schema.headLength (front ++ (field, τ) :: later)
      = Schema.headLength front + (Schema.offsetWidth + Schema.headLength later) := by
  rw [headLength_append, Schema.headLength, hτ]
  rfl

section

variable {front later later' : Fields} {name name' field field' : String} {σ τ : Schema}
  {us ws : List Value} {v : Value}

/-- The value of a container, around one of its fields. -/
theorem exists_around {x : Value}
    (hx : (Schema.container name (front ++ (field, τ) :: later)).admits x = true) :
    ∃ us v ws, x = .seq (us ++ v :: ws) ∧ Schema.admitsFields front us = true
      ∧ Schema.admitsFields ((field, τ) :: later) (v :: ws) = true := by
  cases x with
  | seq vs =>
    obtain ⟨us, vs, rfl, hus, hvs⟩ := exists_of_admitsFields_append hx
    cases vs with
    | nil => simp [Schema.admitsFields] at hvs
    | cons v ws => exact ⟨us, v, ws, rfl, hus, hvs⟩
  | _ => simp [Schema.admits] at hx

/-- The layout of a container around one of its variable fields: the head of the front, the offset
of the field and the heads behind it, and then the bodies of the front, of the field and of the
fields behind it. -/
theorem encode_around (hτ : τ.isFixed = false) (hus : Schema.admitsFields front us = true)
    (hvs : Schema.admitsFields ((field, τ) :: later) (v :: ws) = true) :
    let start := Schema.headLength (front ++ (field, τ) :: later)
    let offset := start + (Slot.bodies (fieldSlots front us)).length
    encode (.container name (front ++ (field, τ) :: later)) (.seq (us ++ v :: ws)) =
      Slot.heads start (fieldSlots front us)
        ++ (Bytes.littleEndian Schema.offsetWidth offset
        ++ (Slot.heads (offset + (encode τ v).length) (fieldSlots later ws)
        ++ (Slot.bodies (fieldSlots front us)
        ++ (encode τ v ++ Slot.bodies (fieldSlots later ws))))) := by
  intro start offset
  have hstart : Slot.headLength (fieldSlots (front ++ (field, τ) :: later) (us ++ v :: ws))
      = start := headLength_fieldSlots (admitsFields_append hus hvs)
  have hslots : fieldSlots (front ++ (field, τ) :: later) (us ++ v :: ws)
      = fieldSlots front us ++ .body (encode τ v) :: fieldSlots later ws := by
    rw [fieldSlots_append hus, fieldSlots, hτ]
    rfl
  rw [encode, Slot.assemble, hstart, hslots, Slot.heads_append, Slot.bodies_append, Slot.heads,
    Slot.bodies]
  simp only [List.append_assoc]
  rfl

/-- A reader with the same front finds the fields of the front as they were written, and then the
offset of the variable field. -/
theorem decodeHeads_around (hfront : ∀ f ∈ front, f.2.ReadsBack) (hσ : σ.isFixed = false)
    (hus : Schema.admitsFields front us = true) {start : Nat}
    (hhead : Schema.headLength front < Bytes.capacity Schema.offsetWidth)
    (hoffset : start + (Slot.bodies (fieldSlots front us)).length
      < Bytes.capacity Schema.offsetWidth) (stream : Bytes) :
    decodeHeads (front ++ (field', σ) :: later')
      (Slot.heads start (fieldSlots front us)
        ++ (Bytes.littleEndian Schema.offsetWidth
          (start + (Slot.bodies (fieldSlots front us)).length) ++ stream)) =
      (decodeHeads later' stream).map fun (heads, rest) =>
        (headsFrom start front us
          ++ .offset (start + (Slot.bodies (fieldSlots front us)).length) :: heads, rest) := by
  have hread := decodeHeads_heads hfront (Bytes.littleEndian Schema.offsetWidth
    (start + (Slot.bodies (fieldSlots front us)).length) ++ stream) start hus
    (by rwa [headLength_fieldSlots hus]) hoffset
  rw [decodeHeads_append, hread]
  simp only [Option.bind_some, decodeHeads, hσ, Bool.false_eq_true, if_false,
    takeOffset_append hoffset, Option.map_map]
  rfl

/-- A container that has a longer head than the one that was written refuses it: the first body
would start inside the head. -/
theorem refuses_of_headLength_lt (hfront : ∀ f ∈ front, f.2.ReadsBack)
    (hfixed : Schema.allFixed front = true) (hτ : τ.isFixed = false) (hσ : σ.isFixed = false)
    (hstart : Schema.headLength (front ++ (field, τ) :: later)
      < Bytes.capacity Schema.offsetWidth)
    (hlt : Schema.headLength (front ++ (field, τ) :: later)
      < Schema.headLength (front ++ (field', σ) :: later')) :
    (Schema.container name' (front ++ (field', σ) :: later')).Refuses
      (.container name (front ++ (field, τ) :: later)) := by
  intro x scope rest hx
  obtain ⟨us, v, ws, rfl, hus, hvs⟩ := exists_around hx
  have hhead : Schema.headLength front < Bytes.capacity Schema.offsetWidth := by
    rw [headLength_around hτ] at hstart
    omega
  have hoffset : Schema.headLength (front ++ (field, τ) :: later)
      + (Slot.bodies (fieldSlots front us)).length < Bytes.capacity Schema.offsetWidth := by
    rwa [bodies_of_allFixed hfixed]
  rw [encode_around hτ hus hvs]
  simp only [List.append_assoc]
  rw [decode, decodeHeads_around hfront hσ hus hhead hoffset]
  cases hlater : decodeHeads later' _ with
  | none => rfl
  | some read =>
    obtain ⟨heads, stream⟩ := read
    -- The first offset is the one that was written, and lies inside the reader's head.
    have hfit : headsFit (front ++ (field', σ) :: later')
        (headsFrom (Schema.headLength (front ++ (field, τ) :: later)) front us
          ++ .offset (Schema.headLength (front ++ (field, τ) :: later)
            + (Slot.bodies (fieldSlots front us)).length) :: heads) = false := by
      unfold headsFit
      rw [firstOffset?_append, firstOffset?_of_allFixed hfixed, bodies_of_allFixed hfixed]
      exact decide_eq_false (Nat.not_le_of_lt hlt)
    simp only [Option.map_some, hfit, Bool.false_eq_true, if_false]

/-- A container with a head of the same length gets as far as a field of another schema, and refuses
what that schema refuses. -/
theorem decode_eq_none_of_refuses (hfront : ∀ f ∈ front, f.2.ReadsBack) (hτ : τ.isFixed = false)
    (hσ : σ.isFixed = false) (hrefuses : σ.Refuses τ)
    (hlength : Schema.headLength later' = Schema.headLength later)
    (hus : Schema.admitsFields front us = true)
    (hvs : Schema.admitsFields ((field, τ) :: later) (v :: ws) = true)
    (hoffset : Schema.headLength (front ++ (field, τ) :: later)
      + (Slot.bodies (fieldSlots front us)).length < Bytes.capacity Schema.offsetWidth)
    (scope : Nat) (rest : Bytes) :
    decode (.container name' (front ++ (field', σ) :: later')) scope
      (encode (.container name (front ++ (field, τ) :: later)) (.seq (us ++ v :: ws)) ++ rest)
        = none := by
  have hhead : Schema.headLength front < Bytes.capacity Schema.offsetWidth := by
    rw [headLength_around hτ] at hoffset
    omega
  obtain ⟨hv, hws⟩ := (Bool.and_eq_true _ _).mp hvs
  rw [encode_around hτ hus hvs]
  simp only [List.append_assoc]
  rw [decode, decodeHeads_around hfront hσ hus hhead hoffset]
  generalize hstart : Schema.headLength (front ++ (field, τ) :: later) = start at hoffset
  cases hlater : decodeHeads later' _ with
  | none => rfl
  | some read =>
    obtain ⟨heads, stream⟩ := read
    -- Both heads end at the same place, and so the reader stands in front of the bodies.
    have hstream : stream = Slot.bodies (fieldSlots front us)
        ++ (encode τ v ++ (Slot.bodies (fieldSlots later ws) ++ rest)) := by
      rw [drop_of_decodeHeads (fun f _ => advances f.2) hlater, hlength,
        ← headLength_fieldSlots hws, ← Slot.length_heads, List.drop_left]
    have hbodies := decodeBodies_bodies hfront ((field', σ) :: later')
      (.offset (start + (Slot.bodies (fieldSlots front us)).length) :: heads) scope
      (encode τ v ++ (Slot.bodies (fieldSlots later ws) ++ rest)) start hus (by omega) rfl
    have hfield : decodeBodies ((field', σ) :: later')
        (.offset (start + (Slot.bodies (fieldSlots front us)).length) :: heads) scope
        (encode τ v ++ (Slot.bodies (fieldSlots later ws) ++ rest)) = none := by
      simp only [decodeBodies, hrefuses v _ _ hv, ite_self]
    rw [hfield, ← hstream] at hbodies
    simp only [Option.map_some, hbodies, Option.map_none, ite_self]

/-- With fixed fields alone in front, nothing can lead the reader astray. -/
theorem refuses_of_fixed_prefix (hfront : ∀ f ∈ front, f.2.ReadsBack)
    (hfixed : Schema.allFixed front = true) (hτ : τ.isFixed = false) (hσ : σ.isFixed = false)
    (hrefuses : σ.Refuses τ) (hlength : Schema.headLength later' = Schema.headLength later)
    (hstart : Schema.headLength (front ++ (field, τ) :: later)
      < Bytes.capacity Schema.offsetWidth) :
    (Schema.container name' (front ++ (field', σ) :: later')).Refuses
      (.container name (front ++ (field, τ) :: later)) := by
  intro x scope rest hx
  obtain ⟨us, v, ws, rfl, hus, hvs⟩ := exists_around hx
  refine decode_eq_none_of_refuses hfront hτ hσ hrefuses hlength hus hvs ?_ scope rest
  rwa [bodies_of_allFixed hfixed]

end

/-! ## Offsets that lead through -/

/-- Bodies that are read to the end are read to the end from each of them on. -/
theorem exists_decodeBodies_of_append {first later : Fields} {heads more : List Head}
    (hlength : heads.length = first.length) {scope : Nat} {stream rest : Bytes}
    {vs : List Value}
    (h : decodeBodies (first ++ later) (heads ++ more) scope stream = some (vs, rest)) :
    ∃ stream' ws, decodeBodies later more scope stream' = some (ws, rest) := by
  induction first generalizing heads stream vs with
  | nil =>
    obtain rfl := List.eq_nil_of_length_eq_zero hlength
    exact ⟨stream, vs, h⟩
  | cons field first ih =>
    obtain ⟨name, τ⟩ := field
    cases heads with
    | nil => exact nomatch hlength
    | cons head heads =>
      have hlength' : heads.length = first.length := Nat.succ.inj hlength
      rw [List.cons_append, List.cons_append] at h
      cases head with
      | value v =>
        obtain ⟨⟨vs', stream'⟩, hvs, heq⟩ := Option.map_eq_some_iff.mp h
        obtain ⟨-, rfl⟩ := Prod.mk.inj heq
        exact ih hlength' hvs
      | offset o =>
        simp only [decodeBodies] at h
        split at h
        · split at h
          · exact absurd h (by simp)
          · obtain ⟨⟨vs', stream'⟩, hvs, heq⟩ := Option.map_eq_some_iff.mp h
            obtain ⟨-, rfl⟩ := Prod.mk.inj heq
            exact ih hlength' hvs
        · exact absurd h (by simp)

section

variable {front front' : Fields} {name name' field field' : String} {σ τ : Schema}
  {us : List Value} {v : Value}

/-- The layout of a container that ends with a variable field: the head of the fields in front, the
offset of the field, the bodies in front of it and its own. -/
theorem encode_last (hτ : τ.isFixed = false) (hus : Schema.admitsFields front us = true)
    (hv : τ.admits v = true) :
    let start := Schema.headLength (front ++ [(field, τ)])
    encode (.container name (front ++ [(field, τ)])) (.seq (us ++ [v])) =
      Slot.heads start (fieldSlots front us)
        ++ (Bytes.littleEndian Schema.offsetWidth
            (start + (Slot.bodies (fieldSlots front us)).length)
        ++ (Slot.bodies (fieldSlots front us) ++ encode τ v)) := by
  have hvs : Schema.admitsFields [(field, τ)] [v] = true := (Bool.and_eq_true _ _).mpr ⟨hv, rfl⟩
  rw [encode_around hτ hus hvs]
  simp [fieldSlots, Slot.heads, Slot.bodies]

theorem length_encode_last (hτ : τ.isFixed = false) (hus : Schema.admitsFields front us = true)
    (hv : τ.admits v = true) :
    (encode (.container name (front ++ [(field, τ)])) (.seq (us ++ [v]))).length
      = Schema.headLength (front ++ [(field, τ)]) + (Slot.bodies (fieldSlots front us)).length
        + (encode τ v).length := by
  have hstart : Schema.headLength (front ++ [(field, τ)])
      = Schema.headLength front + Schema.offsetWidth := headLength_around hτ []
  rw [encode_last hτ hus hv, List.length_append, List.length_append, List.length_append,
    Slot.length_heads, headLength_fieldSlots hus, Bytes.length_littleEndian, hstart]
  omega

/-- An offset that does not fit is read as what is left of it. -/
theorem takeOffset_littleEndian (offset : Nat) (rest : Bytes) :
    (takeOffset (Bytes.littleEndian Schema.offsetWidth offset ++ rest)).1
      = offset % Bytes.capacity Schema.offsetWidth := by
  have htake := takeBytes_append (Bytes.littleEndian Schema.offsetWidth offset) rest
  rw [Bytes.length_littleEndian] at htake
  rw [takeOffset, htake]
  exact Bytes.ofLittleEndian_littleEndian_mod _ _

/-- A reader that gets through to a last field of a bounded length has read its offset as it was
meant. -/
theorem offset_lt_of_decode (hτ : τ.isFixed = false) (hσ : σ.isFixed = false)
    (hmax : σ.maxLength < Bytes.capacity Schema.offsetWidth)
    (hlength : Schema.headLength front' = Schema.headLength front)
    (hus : Schema.admitsFields front us = true) (hv : τ.admits v = true) {x : Value}
    {rest : Bytes}
    (h : decode (.container name' (front' ++ [(field', σ)]))
      (encode (.container name (front ++ [(field, τ)])) (.seq (us ++ [v]))).length
      (encode (.container name (front ++ [(field, τ)])) (.seq (us ++ [v]))) = some (x, rest)) :
    Schema.headLength (front ++ [(field, τ)]) + (Slot.bodies (fieldSlots front us)).length
      < Bytes.capacity Schema.offsetWidth := by
  by_contra hcut
  rw [length_encode_last hτ hus hv, encode_last hτ hus hv, decode, decodeHeads_append] at h
  have hhead : (Slot.heads (Schema.headLength (front ++ [(field, τ)]))
      (fieldSlots front us)).length = Schema.headLength front := by
    rw [Slot.length_heads, headLength_fieldSlots hus]
  generalize Schema.headLength (front ++ [(field, τ)]) = start at h hhead hcut
  generalize hoffset : start + (Slot.bodies (fieldSlots front us)).length = offset at h hcut
  cases hheads : decodeHeads front' (Slot.heads start (fieldSlots front us)
      ++ (Bytes.littleEndian Schema.offsetWidth offset
        ++ (Slot.bodies (fieldSlots front us) ++ encode τ v))) with
  | none =>
    rw [hheads] at h
    exact absurd h (by simp)
  | some read =>
    obtain ⟨heads, stream⟩ := read
    have hstream : stream = Bytes.littleEndian Schema.offsetWidth offset
        ++ (Slot.bodies (fieldSlots front us) ++ encode τ v) := by
      rw [drop_of_decodeHeads (fun f _ => advances f.2) hheads, hlength, ← hhead, List.drop_left]
    have hread : (takeOffset stream).1 = offset % Bytes.capacity Schema.offsetWidth := by
      rw [hstream, takeOffset_littleEndian]
    have hcount : heads.length = front'.length :=
      (suits_of_decodeHeads (fun f _ => sound f.2) hheads).length_eq.symm
    simp only [hheads, Option.bind_some, decodeHeads, hσ, Bool.false_eq_true, if_false,
      Option.map_some] at h
    split at h
    · obtain ⟨⟨ws, rest'⟩, hws, -⟩ := Option.map_eq_some_iff.mp h
      obtain ⟨stream', last, hlast⟩ := exists_decodeBodies_of_append hcount hws
      simp only [decodeBodies] at hlast
      split at hlast
      · rename_i hfits
        -- An offset that was cut off leaves more bytes to the field than it can have.
        have hless : offset % Bytes.capacity Schema.offsetWidth
            ≤ offset - Bytes.capacity Schema.offsetWidth := by
          rw [Nat.mod_eq_sub_mod (by omega)]
          exact Nat.mod_le _ _
        simp only [Bool.and_eq_true, decide_eq_true_eq, firstOffset?, Option.getD_none, hread]
          at hfits
        omega
      · exact absurd hlast (by simp)
    · exact absurd h (by simp)

end

/-! ## Whole byte strings -/

theorem decodeBytes_container (name : String) (fields : Fields) (b : Bytes) :
    decodeBytes (.container name fields) b
      = (decode (.container name fields) b.length b).map Prod.fst := rfl

/-- A container that refuses the encodings of another schema refuses them as whole byte strings. -/
theorem Schema.Refuses.decodeBytes {name : String} {fields : Fields} {τ : Schema}
    (h : (Schema.container name fields).Refuses τ) {x : Value} (hx : τ.admits x = true) :
    decodeBytes (.container name fields) (encode τ x) = none := by
  have hnone := h x (encode τ x).length [] hx
  rw [List.append_nil] at hnone
  rw [decodeBytes_container, hnone, Option.map_none]

section

variable {front between between' : Fields} {name name' field field' last last' : String}
  {σ τ ρ ρ' : Schema}

/-- The value of a container, around one of its fields and the last one. -/
theorem exists_around_last {x : Value}
    (hx : (Schema.container name (front ++ (field, τ) :: (between ++ [(last, ρ)]))).admits x
      = true) :
    ∃ us v ws z, x = .seq (us ++ v :: (ws ++ [z])) ∧ Schema.admitsFields front us = true
      ∧ Schema.admitsFields ((field, τ) :: between) (v :: ws) = true ∧ ρ.admits z = true := by
  obtain ⟨us, v, vs, rfl, hus, hvs⟩ := exists_around hx
  obtain ⟨hv, hvs⟩ := (Bool.and_eq_true _ _).mp hvs
  obtain ⟨ws, zs, rfl, hws, hzs⟩ := exists_of_admitsFields_append hvs
  cases zs with
  | nil => simp [Schema.admitsFields] at hzs
  | cons z zs =>
    obtain ⟨hz, hzs⟩ := (Bool.and_eq_true _ _).mp hzs
    cases zs with
    | nil => exact ⟨us, v, ws, z, rfl, hus, (Bool.and_eq_true _ _).mpr ⟨hv, hws⟩, hz⟩
    | cons _ _ => simp [Schema.admitsFields] at hzs

/-- Behind a variable front, too, a field that refuses is enough, if the last field is a variable
one of a bounded length: either the offset of the field is not cut off, or the reader does not get
through to the last field. -/
theorem decodeBytes_eq_none_of_refuses (hfront : ∀ f ∈ front, f.2.ReadsBack)
    (hτ : τ.isFixed = false) (hσ : σ.isFixed = false) (hrefuses : σ.Refuses τ)
    (hlength : Schema.headLength between' = Schema.headLength between) (hρ : ρ.isFixed = false)
    (hρ' : ρ'.isFixed = false) (hmax : ρ'.maxLength < Bytes.capacity Schema.offsetWidth)
    {x : Value}
    (hx : (Schema.container name (front ++ (field, τ) :: (between ++ [(last, ρ)]))).admits x
      = true) :
    decodeBytes (.container name' (front ++ (field', σ) :: (between' ++ [(last', ρ')])))
      (encode (.container name (front ++ (field, τ) :: (between ++ [(last, ρ)]))) x) = none := by
  obtain ⟨us, v, ws, z, rfl, hus, hvs, hz⟩ := exists_around_last hx
  obtain ⟨hv, hws⟩ := (Bool.and_eq_true _ _).mp hvs
  rw [decodeBytes_container]
  cases hread : decode _ _ _ with
  | none => rfl
  | some read =>
    exfalso
    have hassoc (φ : String) (α : Schema) (fields : Fields) (ψ : String) (β : Schema) :
        front ++ (φ, α) :: (fields ++ [(ψ, β)]) = (front ++ (φ, α) :: fields) ++ [(ψ, β)] := by
      rw [List.append_assoc, List.cons_append]
    have hvalues : us ++ v :: (ws ++ [z]) = (us ++ v :: ws) ++ [z] := by
      rw [List.append_assoc, List.cons_append]
    -- The last field was reached, and so no offset was cut off.
    have hlast : Schema.headLength (front ++ (field, τ) :: (between ++ [(last, ρ)]))
        + (Slot.bodies (fieldSlots (front ++ (field, τ) :: between) (us ++ v :: ws))).length
          < Bytes.capacity Schema.offsetWidth := by
      have hheads : Schema.headLength (front ++ (field', σ) :: between')
          = Schema.headLength (front ++ (field, τ) :: between) := by
        rw [headLength_around hτ, headLength_around hσ, hlength]
      have hmany := admitsFields_append hus hvs
      rw [hassoc, hassoc, hvalues] at hread
      rw [hassoc]
      exact offset_lt_of_decode hρ hρ' hmax hheads hmany hz hread
    have hoffset : Schema.headLength (front ++ (field, τ) :: (between ++ [(last, ρ)]))
        + (Slot.bodies (fieldSlots front us)).length < Bytes.capacity Schema.offsetWidth := by
      rw [fieldSlots_append hus, Slot.bodies_append, List.length_append] at hlast
      omega
    have hlater : Schema.headLength (between' ++ [(last', ρ')])
        = Schema.headLength (between ++ [(last, ρ)]) := by
      rw [headLength_around hρ, headLength_around hρ', hlength]
    have hlaterValues : Schema.admitsFields ((field, τ) :: (between ++ [(last, ρ)]))
        (v :: (ws ++ [z])) = true := by
      have hone : Schema.admitsFields [(last, ρ)] [z] = true :=
        (Bool.and_eq_true _ _).mpr ⟨hz, rfl⟩
      exact (Bool.and_eq_true _ _).mpr ⟨hv, admitsFields_append hws hone⟩
    have hnone (scope : Nat) :
        decode (.container name' (front ++ (field', σ) :: (between' ++ [(last', ρ')]))) scope
          (encode (.container name (front ++ (field, τ) :: (between ++ [(last, ρ)])))
            (.seq (us ++ v :: (ws ++ [z]))) ++ []) = none :=
      decode_eq_none_of_refuses hfront hτ hσ hrefuses hlater hus hlaterValues hoffset scope []
    simp only [List.append_nil] at hnone
    exact nomatch hread.symm.trans (hnone _)

end

end Ssz

end BeaconHarness
