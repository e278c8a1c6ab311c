import BeaconHarness.Ssz.Decoding
import BeaconHarness.Proofs.Ssz.Bits
import Mathlib.Data.List.Forall2

/-!
# Decoded values

Whatever a decoder accepts is a value of the schema it was told. The lengths of sequences are
checked before their elements are read, numbers are bounded by the bytes they are read from, bit
strings by the counts that unpack them, and a container has one value for each of its fields,
whether it was read in the head or behind it.

Nothing is said of the bytes: some that are no encoding of any value are accepted as well.

Main statement: `decodeBytes_admits`.
-/

namespace BeaconHarness.Ssz

/-- Whether all that a decoder accepts under a schema belongs to it. -/
def Schema.Sound (τ : Schema) : Prop :=
  ∀ (scope : Nat) (stream : Bytes) (v : Value) (rest : Bytes),
    decode τ scope stream = some (v, rest) → τ.admits v = true

/-! ## Numbers and strings -/

/-- A number is below the bound of its width, also if the stream ends in it. -/
theorem ofLittleEndian_take_lt (width : Nat) (stream : Bytes) :
    Bytes.ofLittleEndian (stream.take width) < Bytes.capacity width := by
  have hlt := Bytes.ofLittleEndian_lt (stream.take width)
  have hle : Bytes.capacity (stream.take width).length ≤ Bytes.capacity width := by
    rw [Bytes.capacity_eq_two_pow, Bytes.capacity_eq_two_pow]
    refine Nat.pow_le_pow_right (by decide) ?_
    have := List.length_take_le width stream
    omega
  omega

theorem length_of_takeExactly {n : Nat} {stream b rest : Bytes}
    (h : takeExactly n stream = some (b, rest)) : b.length = n := by
  have hif : (if (stream.take n).length = n then some (stream.take n, stream.drop n) else none) =
      some (b, rest) := h
  split at hif
  · rename_i hlength
    obtain ⟨rfl, -⟩ := Prod.mk.inj (Option.some.inj hif)
    exact hlength
  · exact absurd hif (by simp)

theorem length_of_unpackBits {length : Nat} {b : Bytes} {bs : List Bool}
    (h : unpackBits length b = some bs) : bs.length = length := by
  simp only [unpackBits] at h
  split at h
  · obtain rfl := Option.some.inj h
    simp [bitsOfNat]
  · exact absurd h (by simp)

theorem length_of_unpackDelimited {limit : Nat} {b : Bytes} {bs : List Bool}
    (h : unpackDelimited limit b = some bs) : bs.length ≤ limit := by
  simp only [unpackDelimited] at h
  split at h
  · exact absurd h (by simp)
  · split at h
    · exact absurd h (by simp)
    · split at h
      · rename_i hlength
        obtain rfl := Option.some.inj h
        simpa [bitsOfNat] using hlength
      · exact absurd h (by simp)

/-! ## Sequences -/

section

variable {P : Value → Prop}

/-- As many parts are read as are asked for, behind those that have been read. -/
theorem forall_of_decodeMany {step : Bytes → Read Value}
    (hstep : ∀ stream v rest, step stream = some (v, rest) → P v) {count : Nat}
    {read vs : List Value} {stream rest : Bytes} (hread : ∀ v ∈ read, P v)
    (h : decodeMany step count read stream = some (vs, rest)) :
    vs.length = read.length + count ∧ ∀ v ∈ vs, P v := by
  induction count generalizing read stream with
  | zero =>
    obtain ⟨rfl, -⟩ := Prod.mk.inj (Option.some.inj h)
    refine ⟨List.length_reverse, ?_⟩
    intro v hv
    exact hread v (List.mem_reverse.mp hv)
  | succ count ih =>
    rw [decodeMany] at h
    split at h
    · exact absurd h (by simp)
    · rename_i v stream' hv
      have hnext : ∀ w ∈ v :: read, P w := by
        intro w hw
        rcases List.mem_cons.mp hw with rfl | hw
        · exact hstep stream w stream' hv
        · exact hread w hw
      obtain ⟨hlength, hall⟩ := ih hnext h
      rw [List.length_cons] at hlength
      exact ⟨by omega, hall⟩

/-- One part is read for each scope. -/
theorem forall_of_decodeScopes {step : Nat → Bytes → Read Value}
    (hstep : ∀ scope stream v rest, step scope stream = some (v, rest) → P v) {scopes : List Nat}
    {read vs : List Value} {stream rest : Bytes} (hread : ∀ v ∈ read, P v)
    (h : decodeScopes step scopes read stream = some (vs, rest)) :
    vs.length = read.length + scopes.length ∧ ∀ v ∈ vs, P v := by
  induction scopes generalizing read stream with
  | nil =>
    obtain ⟨rfl, -⟩ := Prod.mk.inj (Option.some.inj h)
    refine ⟨List.length_reverse, ?_⟩
    intro v hv
    exact hread v (List.mem_reverse.mp hv)
  | cons scope scopes ih =>
    rw [decodeScopes] at h
    split at h
    · exact absurd h (by simp)
    · rename_i v stream' hv
      have hnext : ∀ w ∈ v :: read, P w := by
        intro w hw
        rcases List.mem_cons.mp hw with rfl | hw
        · exact hstep scope stream w stream' hv
        · exact hread w hw
      obtain ⟨hlength, hall⟩ := ih hnext h
      rw [List.length_cons] at hlength ⊢
      exact ⟨by omega, hall⟩

theorem length_takeOffsets (count : Nat) (read : List Nat) (stream : Bytes) :
    (takeOffsets count read stream).1.length = read.length + count := by
  induction count generalizing read stream with
  | zero => exact List.length_reverse
  | succ count ih =>
    show (takeOffsets count ((takeOffset stream).1 :: read) (takeOffset stream).2).1.length = _
    rw [ih, List.length_cons]
    omega

theorem length_of_scopesOf {least greatest stop : Nat} {offsets scopes : List Nat}
    (h : scopesOf least greatest stop offsets = some scopes) : scopes.length = offsets.length := by
  induction offsets generalizing scopes with
  | nil =>
    obtain rfl := Option.some.inj h
    rfl
  | cons offset offsets ih =>
    simp only [scopesOf] at h
    split at h
    · obtain ⟨rest, hrest, rfl⟩ := Option.map_eq_some_iff.mp h
      rw [List.length_cons, List.length_cons, ih hrest]
    · exact absurd h (by simp)

theorem forall_of_decodeFixedSeq {step : Bytes → Read Value}
    (hstep : ∀ stream v rest, step stream = some (v, rest) → P v) {size bound scope : Nat}
    {exact : Bool} {vs : List Value} {stream rest : Bytes}
    (h : decodeFixedSeq step size exact bound scope stream = some (vs, rest)) :
    countFits exact bound vs.length = true ∧ ∀ v ∈ vs, P v := by
  unfold decodeFixedSeq at h
  split at h
  · rename_i hfits
    obtain ⟨-, hcount⟩ := (Bool.and_eq_true _ _).mp hfits
    obtain ⟨hlength, hall⟩ := forall_of_decodeMany hstep (fun v hv => absurd hv (by simp)) h
    rw [List.length_nil, Nat.zero_add] at hlength
    rw [hlength]
    exact ⟨hcount, hall⟩
  · exact absurd h (by simp)

theorem forall_of_decodeVariableSeq {step : Nat → Bytes → Read Value}
    (hstep : ∀ scope stream v rest, step scope stream = some (v, rest) → P v)
    {least greatest bound scope : Nat} {exact : Bool} {vs : List Value} {stream rest : Bytes}
    (h : decodeVariableSeq step least greatest exact bound scope stream = some (vs, rest)) :
    countFits exact bound vs.length = true ∧ ∀ v ∈ vs, P v := by
  simp only [decodeVariableSeq] at h
  split at h
  · split at h
    · rename_i hcount
      obtain ⟨rfl, -⟩ := Prod.mk.inj (Option.some.inj h)
      exact ⟨hcount, fun v hv => absurd hv (by simp)⟩
    · exact absurd h (by simp)
  · split at h
    · exact absurd h (by simp)
    · rename_i hfirst
      split at h
      · exact absurd h (by simp)
      · rename_i scopes hscopes
        obtain ⟨hlength, hall⟩ := forall_of_decodeScopes hstep (fun v hv => absurd hv (by simp)) h
        rw [length_of_scopesOf hscopes, length_takeOffsets] at hlength
        simp only [Bool.or_eq_true, decide_eq_true_eq, Bool.not_eq_true', not_or,
          Bool.not_eq_false] at hfirst
        obtain ⟨⟨⟨hzero, -⟩, hmod⟩, hcount⟩ := hfirst
        -- The first offset is a positive multiple of its width, so that it counts itself.
        have hwidth : Schema.offsetWidth = 4 := rfl
        have hall' : vs.length = (takeOffset stream).1 / Schema.offsetWidth := by
          rw [List.length_nil, List.length_singleton] at hlength
          rw [hwidth] at hmod hlength ⊢
          omega
        rw [hall']
        exact ⟨hcount, hall⟩

end

/-! ## Schemas -/

theorem sound_uint (width : Nat) : (Schema.uint width).Sound := by
  intro scope stream v rest h
  simp only [decode, takeBytes] at h
  split at h
  · obtain ⟨rfl, -⟩ := Prod.mk.inj (Option.some.inj h)
    exact decide_eq_true (ofLittleEndian_take_lt width stream)
  · exact absurd h (by simp)

theorem sound_boolean : Schema.boolean.Sound := by
  intro scope stream v rest h
  simp only [decode, takeBytes] at h
  obtain ⟨rfl, -⟩ := Prod.mk.inj (Option.some.inj h)
  rfl

theorem sound_byteVector (length : Nat) : (Schema.byteVector length).Sound := by
  intro scope stream v rest h
  simp only [decode] at h
  split at h
  · obtain ⟨⟨b, stream'⟩, hb, heq⟩ := Option.map_eq_some_iff.mp h
    obtain ⟨rfl, -⟩ := Prod.mk.inj heq
    exact decide_eq_true (length_of_takeExactly hb)
  · exact absurd h (by simp)

theorem sound_bitvector (length : Nat) : (Schema.bitvector length).Sound := by
  intro scope stream v rest h
  simp only [decode] at h
  split at h
  · split at h
    · exact absurd h (by simp)
    · obtain ⟨bs, hbs, heq⟩ := Option.map_eq_some_iff.mp h
      obtain ⟨rfl, -⟩ := Prod.mk.inj heq
      exact decide_eq_true (length_of_unpackBits hbs)
  · exact absurd h (by simp)

theorem sound_bitlist (limit : Nat) : (Schema.bitlist limit).Sound := by
  intro scope stream v rest h
  simp only [decode] at h
  split at h
  · split at h
    · exact absurd h (by simp)
    · obtain ⟨bs, hbs, heq⟩ := Option.map_eq_some_iff.mp h
      obtain ⟨rfl, -⟩ := Prod.mk.inj heq
      exact decide_eq_true (length_of_unpackDelimited hbs)
  · exact absurd h (by simp)

/-- A sequence has elements of the schema, as many as fit, however they are laid out. -/
theorem forall_of_decodeSeq {element : Schema} (helement : element.Sound) {exact : Bool}
    {bound scope : Nat} {stream rest : Bytes} {v : Value}
    (h : (if element.isFixed then
        decodeFixedSeq (decode element element.minLength) element.minLength exact bound scope stream
      else
        decodeVariableSeq (decode element) element.minLength element.maxLength exact bound scope
          stream).map (fun (vs, rest) => (Value.seq vs, rest)) = some (v, rest)) :
    ∃ vs, v = .seq vs ∧ countFits exact bound vs.length = true ∧
      vs.all element.admits = true := by
  obtain ⟨⟨vs, stream'⟩, hvs, heq⟩ := Option.map_eq_some_iff.mp h
  obtain ⟨rfl, -⟩ := Prod.mk.inj heq
  refine ⟨vs, rfl, ?_⟩
  rw [List.all_eq_true]
  split at hvs
  · exact forall_of_decodeFixedSeq (fun stream v rest hv => helement _ stream v rest hv) hvs
  · exact forall_of_decodeVariableSeq helement hvs

theorem sound_vector {element : Schema} (helement : element.Sound) (length : Nat) :
    (Schema.vector element length).Sound := by
  intro scope stream v rest h
  rw [decode] at h
  obtain ⟨vs, rfl, hcount, hall⟩ := forall_of_decodeSeq helement h
  rw [Schema.admits, hall, Bool.and_true]
  exact hcount

theorem sound_list {element : Schema} (helement : element.Sound) (limit : Nat) :
    (Schema.list element limit).Sound := by
  intro scope stream v rest h
  rw [decode] at h
  obtain ⟨vs, rfl, hcount, hall⟩ := forall_of_decodeSeq helement h
  rw [Schema.admits, hall, Bool.and_true]
  exact hcount

/-! ## Containers -/

/-- What the head of a container holds for a field is an offset or a value of the field. -/
def Head.Suits (field : String × Schema) (head : Head) : Prop :=
  ∀ v, head = .value v → field.2.admits v = true

theorem suits_of_decodeHeads {fields : Fields} (hfields : ∀ f ∈ fields, f.2.Sound)
    {stream rest : Bytes} {heads : List Head}
    (h : decodeHeads fields stream = some (heads, rest)) :
    List.Forall₂ (fun field head => Head.Suits field head) fields heads := by
  induction fields generalizing stream rest heads with
  | nil =>
    obtain ⟨rfl, -⟩ := Prod.mk.inj (Option.some.inj h)
    exact .nil
  | cons field fields ih =>
    obtain ⟨name, τ⟩ := field
    have hτ : τ.Sound := hfields (name, τ) List.mem_cons_self
    have hrest : ∀ f ∈ fields, f.2.Sound := fun f hf => hfields f (List.mem_cons_of_mem _ hf)
    simp only [decodeHeads] at h
    split at h
    · split at h
      · exact absurd h (by simp)
      · rename_i v stream' hv
        obtain ⟨⟨heads', stream''⟩, hheads, heq⟩ := Option.map_eq_some_iff.mp h
        obtain ⟨rfl, -⟩ := Prod.mk.inj heq
        refine .cons ?_ (ih hrest hheads)
        intro w hw
        obtain rfl := Head.value.inj hw
        exact hτ _ stream v stream' hv
    · obtain ⟨⟨heads', stream'⟩, hheads, heq⟩ := Option.map_eq_some_iff.mp h
      obtain ⟨rfl, -⟩ := Prod.mk.inj heq
      exact .cons (fun w hw => nomatch hw) (ih hrest hheads)

theorem admitsFields_of_decodeBodies {fields : Fields} (hfields : ∀ f ∈ fields, f.2.Sound)
    {heads : List Head} {scope : Nat} {stream rest : Bytes} {vs : List Value}
    (hheads : List.Forall₂ (fun field head => Head.Suits field head) fields heads)
    (h : decodeBodies fields heads scope stream = some (vs, rest)) :
    Schema.admitsFields fields vs = true := by
  induction hheads generalizing stream rest vs with
  | nil =>
    obtain ⟨rfl, -⟩ := Prod.mk.inj (Option.some.inj h)
    rfl
  | @cons field head fields heads hhead hheads ih =>
    obtain ⟨name, τ⟩ := field
    have hτ : τ.Sound := hfields (name, τ) List.mem_cons_self
    have hrest : ∀ f ∈ fields, f.2.Sound := fun f hf => hfields f (List.mem_cons_of_mem _ hf)
    cases head with
    | value v =>
      obtain ⟨⟨vs', stream'⟩, hvs, heq⟩ := Option.map_eq_some_iff.mp h
      obtain ⟨rfl, -⟩ := Prod.mk.inj heq
      exact (Bool.and_eq_true _ _).mpr ⟨hhead v rfl, ih hrest hvs⟩
    | offset o =>
      simp only [decodeBodies] at h
      split at h
      · split at h
        · exact absurd h (by simp)
        · rename_i v stream' hv
          obtain ⟨⟨vs', stream''⟩, hvs, heq⟩ := Option.map_eq_some_iff.mp h
          obtain ⟨rfl, -⟩ := Prod.mk.inj heq
          exact (Bool.and_eq_true _ _).mpr ⟨hτ _ stream v stream' hv, ih hrest hvs⟩
      · exact absurd h (by simp)

theorem sound_container {fields : Fields} (hfields : ∀ f ∈ fields, f.2.Sound) (name : String) :
    (Schema.container name fields).Sound := by
  intro scope stream v rest h
  rw [decode] at h
  split at h
  · exact absurd h (by simp)
  · rename_i heads stream' hheads
    split at h
    · obtain ⟨⟨vs, stream''⟩, hvs, heq⟩ := Option.map_eq_some_iff.mp h
      obtain ⟨rfl, -⟩ := Prod.mk.inj heq
      exact admitsFields_of_decodeBodies hfields (suits_of_decodeHeads hfields hheads) hvs
    · exact absurd h (by simp)

/-! ## All schemas -/

theorem sound (τ : Schema) : τ.Sound := by
  induction τ using Schema.byParts with
  | uint width => exact sound_uint width
  | boolean => exact sound_boolean
  | byteVector length => exact sound_byteVector length
  | bitvector length => exact sound_bitvector length
  | bitlist limit => exact sound_bitlist limit
  | vector element length helement => exact sound_vector helement length
  | list element limit helement => exact sound_list helement limit
  | container name fields hfields => exact sound_container hfields name

/-- What is read from a whole byte string belongs to the schema. -/
theorem decodeBytes_admits {τ : Schema} {b : Bytes} {v : Value} (h : decodeBytes τ b = some v) :
    τ.admits v = true := by
  -- Numbers and booleans by themselves are not read from a stream.
  cases τ with
  | uint width =>
    simp only [decodeBytes] at h
    split at h
    · rename_i hlt
      obtain rfl := Option.some.inj h
      exact decide_eq_true hlt
    · exact absurd h (by simp)
  | boolean =>
    obtain rfl := Option.some.inj h
    rfl
  | _ =>
    obtain ⟨⟨w, rest⟩, hw, rfl⟩ := Option.map_eq_some_iff.mp h
    exact sound _ _ b w rest hw

end BeaconHarness.Ssz
