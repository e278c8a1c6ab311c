import BeaconHarness.Proofs.Ssz.Admission
import BeaconHarness.Proofs.Ssz.RoundTrip

/-!
# Encoding what was read

A decoder accepts byte strings that are no encodings: bodies may leave gaps, and bytes may follow
the last one. The value that it reads then has another encoding, the normal form of what was
accepted. The normal form never needs more room: the scopes of the bodies are differences of offsets
that only grow, so that together they fill no more than what lies behind the head, and no body is
longer than its scope. Its offsets therefore fit wherever those that were read did, and it is read
back as the same value.

Main statements: the encoding of what was read is no longer than the scope it was read from
(`length_encode_le_of_decode`), and reading it again changes nothing (`decodeBytes_normal`).
-/

namespace BeaconHarness.Ssz

/-- Whether the encoding of what a decoder accepts under a schema fits the scope. The values of a
fixed schema all have encodings of one length, whatever their scope. -/
def Schema.Contracts (τ : Schema) : Prop :=
  ∀ (scope : Nat) (stream : Bytes) (v : Value) (rest : Bytes), τ.isFixed = false →
    decode τ scope stream = some (v, rest) → (encode τ v).length ≤ scope

/-! ## Bit strings -/

theorem log2_ofLittleEndian_lt {b : Bytes} (hb : b ≠ []) :
    Nat.log2 (Bytes.ofLittleEndian b) < 8 * b.length := by
  have hlt := Bytes.ofLittleEndian_lt b
  rw [Bytes.capacity_eq_two_pow] at hlt
  have hpos : 0 < b.length := List.length_pos_iff.mpr hb
  by_cases hzero : Bytes.ofLittleEndian b = 0
  · rw [hzero, Nat.log2_zero]
    omega
  · exact (Nat.log2_lt hzero).mpr hlt

/-- The closing bit lies in one of the bytes, so that they have room for the bits and for it. -/
theorem length_packDelimited_le {limit : Nat} {b : Bytes} {bs : List Bool}
    (h : unpackDelimited limit b = some bs) : (packDelimited bs).length ≤ b.length := by
  have hbits : bs.length < 8 * b.length := by
    unfold unpackDelimited at h
    split at h
    · exact absurd h (by simp)
    · rename_i last hlast
      have hb : b ≠ [] := by
        rintro rfl
        exact nomatch hlast
      have hlog := log2_ofLittleEndian_lt hb
      simp only at h
      split at h
      · exact absurd h (by simp)
      · split at h
        · obtain rfl := Option.some.inj h
          simpa [bitsOfNat] using hlog
        · exact absurd h (by simp)
  rw [length_packDelimited]
  omega

theorem contracts_bitlist (limit : Nat) : (Schema.bitlist limit).Contracts := by
  intro scope stream v rest _ h
  simp only [decode] at h
  split at h
  · split at h
    · exact absurd h (by simp)
    · rename_i b stream' hb
      obtain ⟨bs, hbs, heq⟩ := Option.map_eq_some_iff.mp h
      obtain ⟨rfl, -⟩ := Prod.mk.inj heq
      rw [encode, ← length_of_takeExactly hb]
      exact length_packDelimited_le hbs
  · exact absurd h (by simp)

/-! ## Sequences -/

/-- Each value is read within its own scope, behind those that have been read. -/
theorem exists_of_decodeScopes {step : Nat → Bytes → Read Value} {scopes : List Nat}
    {read vs : List Value} {stream rest : Bytes}
    (h : decodeScopes step scopes read stream = some (vs, rest)) :
    ∃ more, vs = read.reverse ++ more ∧ List.Forall₂
      (fun scope v => ∃ stream rest, step scope stream = some (v, rest)) scopes more := by
  induction scopes generalizing read stream with
  | nil =>
    obtain ⟨rfl, -⟩ := Prod.mk.inj (Option.some.inj h)
    exact ⟨[], (List.append_nil _).symm, .nil⟩
  | cons scope scopes ih =>
    rw [decodeScopes] at h
    split at h
    · exact absurd h (by simp)
    · rename_i v stream' hv
      obtain ⟨more, rfl, hmore⟩ := ih h
      refine ⟨v :: more, ?_, .cons ⟨stream, stream', hv⟩ hmore⟩
      rw [List.reverse_cons, List.append_assoc]
      rfl

/-- The scopes between offsets fill no more than what lies behind the first offset. -/
theorem headD_add_length_flatten_le {least greatest stop : Nat} {offsets scopes : List Nat}
    {parts : List Bytes} (hscopes : scopesOf least greatest stop offsets = some scopes)
    (hparts : List.Forall₂ (fun scope part => part.length ≤ scope) scopes parts) :
    offsets.headD stop + parts.flatten.length ≤ stop := by
  induction offsets generalizing scopes parts with
  | nil =>
    obtain rfl := Option.some.inj hscopes
    cases hparts
    exact Nat.le_refl stop
  | cons offset offsets ih =>
    simp only [scopesOf] at hscopes
    split at hscopes
    · rename_i hfits
      obtain ⟨later, hlater, rfl⟩ := Option.map_eq_some_iff.mp hscopes
      cases hparts with
      | @cons _ part _ parts hpart hparts =>
        have hrest := ih hlater hparts
        simp only [Bool.and_eq_true, decide_eq_true_eq] at hfits
        rw [List.headD_cons, List.flatten_cons, List.length_append]
        omega
    · exact absurd hscopes (by simp)

/-- The offsets that were read first stay in front. -/
theorem exists_takeOffsets (count : Nat) (read : List Nat) (stream : Bytes) :
    ∃ more, (takeOffsets count read stream).1 = read.reverse ++ more := by
  induction count generalizing read stream with
  | zero => exact ⟨[], (List.append_nil _).symm⟩
  | succ count ih =>
    obtain ⟨more, hmore⟩ := ih ((takeOffset stream).1 :: read) (takeOffset stream).2
    refine ⟨(takeOffset stream).1 :: more, ?_⟩
    show (takeOffsets count ((takeOffset stream).1 :: read) (takeOffset stream).2).1 = _
    rw [hmore, List.reverse_cons, List.append_assoc]
    rfl

/-- The layout of bodies: a table of offsets, and the bodies behind it. -/
theorem length_assemble_map_body (parts : List Bytes) :
    (Slot.assemble (parts.map .body)).length =
      parts.length * Schema.offsetWidth + parts.flatten.length := by
  rw [Slot.length_assemble, headLength_bodies, bodies_bodies]

/-- A sequence of fixed elements has no more of them than the scope has room for. -/
theorem length_encodeSeq_of_decodeFixedSeq {element : Schema} (hfixed : element.isFixed = true)
    {exact : Bool} {bound scope : Nat} {stream rest : Bytes} {vs : List Value}
    (h : decodeFixedSeq (decode element element.minLength) element.minLength exact bound scope
      stream = some (vs, rest)) : (encodeSeq element vs).length ≤ scope := by
  have hvs : vs.all element.admits = true := by
    rw [List.all_eq_true]
    exact (forall_of_decodeFixedSeq (fun stream v rest hv => sound element _ stream v rest hv) h).2
  have hbounds := (length_encodeSeq_bounds (bounded element) hvs).2
  rw [if_pos hfixed, maxLength_of_isFixed element hfixed] at hbounds
  unfold decodeFixedSeq at h
  split at h
  · have hcount := (forall_of_decodeMany (fun _ _ _ _ => trivial) (fun _ _ => trivial) h).1
    rw [List.length_nil, Nat.zero_add] at hcount
    rw [hcount] at hbounds
    exact Nat.le_trans hbounds (Nat.div_mul_le_self scope element.minLength)
  · exact absurd h (by simp)

/-- The table of offsets and the scopes behind it fill no more than the scope of the sequence. -/
theorem length_encodeSeq_of_decodeVariableSeq {element : Schema}
    (hvariable : element.isFixed = false) (helement : element.Contracts) {exact : Bool}
    {least greatest bound scope : Nat} {stream rest : Bytes} {vs : List Value}
    (h : decodeVariableSeq (decode element) least greatest exact bound scope stream
      = some (vs, rest)) : (encodeSeq element vs).length ≤ scope := by
  have hlayout : (encodeSeq element vs).length = vs.length * Schema.offsetWidth
      + (vs.map (encode element)).flatten.length := by
    rw [encodeSeq, hvariable]
    show (Slot.assemble _).length = _
    rw [length_assemble_map_body, List.length_map]
  rw [hlayout]
  simp only [decodeVariableSeq] at h
  split at h
  · split at h
    · obtain ⟨rfl, -⟩ := Prod.mk.inj (Option.some.inj h)
      simp
    · exact absurd h (by simp)
  · split at h
    · exact absurd h (by simp)
    · rename_i hfirst
      split at h
      · exact absurd h (by simp)
      · rename_i scopes hscopes
        obtain ⟨more, hvs, hread⟩ := exists_of_decodeScopes h
        rw [List.reverse_nil, List.nil_append] at hvs
        subst hvs
        have hparts : List.Forall₂ (fun scope part => part.length ≤ scope) scopes
            (vs.map (encode element)) := by
          rw [List.forall₂_map_right_iff]
          refine hread.imp fun scope v hv => ?_
          obtain ⟨stream, rest, hv⟩ := hv
          exact helement scope stream v rest hvariable hv
        have hfill := headD_add_length_flatten_le hscopes hparts
        obtain ⟨later, hlater⟩ := exists_takeOffsets
          ((takeOffset stream).1 / Schema.offsetWidth - 1) [(takeOffset stream).1]
          (takeOffset stream).2
        have hcount := hread.length_eq
        rw [length_of_scopesOf hscopes, length_takeOffsets] at hcount
        rw [hlater] at hfill
        simp only [Bool.or_eq_true, decide_eq_true_eq, not_or] at hfirst
        obtain ⟨⟨⟨hzero, -⟩, hmod⟩, -⟩ := hfirst
        -- The first offset tells the length of the table, which has an entry for each element.
        have htable : vs.length * Schema.offsetWidth = (takeOffset stream).1 := by
          have hwidth : Schema.offsetWidth = 4 := rfl
          rw [hwidth] at hmod hcount ⊢
          rw [List.length_singleton] at hcount
          omega
        rw [htable]
        exact hfill

/-- However a sequence is laid out, its encoding fits the scope it was read from. -/
theorem length_encodeSeq_of_decodeSeq {element : Schema} (helement : element.Contracts)
    {exact : Bool} {bound scope : Nat} {stream rest : Bytes} {v : Value}
    (h : (if element.isFixed then
        decodeFixedSeq (decode element element.minLength) element.minLength exact bound scope stream
      else
        decodeVariableSeq (decode element) element.minLength element.maxLength exact bound scope
          stream).map (fun (vs, rest) => (Value.seq vs, rest)) = some (v, rest)) :
    ∃ vs, v = .seq vs ∧ (encodeSeq element vs).length ≤ scope := by
  obtain ⟨⟨vs, stream'⟩, hvs, heq⟩ := Option.map_eq_some_iff.mp h
  obtain ⟨rfl, -⟩ := Prod.mk.inj heq
  refine ⟨vs, rfl, ?_⟩
  by_cases hfixed : element.isFixed = true
  · rw [if_pos hfixed] at hvs
    exact length_encodeSeq_of_decodeFixedSeq hfixed hvs
  · rw [if_neg hfixed] at hvs
    exact length_encodeSeq_of_decodeVariableSeq (eq_false_of_ne_true hfixed) helement hvs

theorem contracts_vector {element : Schema} (helement : element.Contracts) (length : Nat) :
    (Schema.vector element length).Contracts := by
  intro scope stream v rest _ h
  rw [decode] at h
  obtain ⟨vs, rfl, hlength⟩ := length_encodeSeq_of_decodeSeq helement h
  rw [encode_vector]
  exact hlength

theorem contracts_list {element : Schema} (helement : element.Contracts) (limit : Nat) :
    (Schema.list element limit).Contracts := by
  intro scope stream v rest _ h
  rw [decode] at h
  obtain ⟨vs, rfl, hlength⟩ := length_encodeSeq_of_decodeSeq helement h
  rw [encode_list]
  exact hlength

/-! ## Containers -/

/-- The head of a container holds values of the fixed fields and offsets of the variable ones. -/
def Head.Stands (field : String × Schema) : Head → Prop
  | .value _ => field.2.isFixed = true
  | .offset _ => field.2.isFixed = false

theorem stands_of_decodeHeads {fields : Fields} {stream rest : Bytes} {heads : List Head}
    (h : decodeHeads fields stream = some (heads, rest)) :
    List.Forall₂ Head.Stands fields heads := by
  induction fields generalizing stream rest heads with
  | nil =>
    obtain ⟨rfl, -⟩ := Prod.mk.inj (Option.some.inj h)
    exact .nil
  | cons field fields ih =>
    obtain ⟨name, τ⟩ := field
    simp only [decodeHeads] at h
    split at h
    · rename_i hfixed
      split at h
      · exact absurd h (by simp)
      · obtain ⟨⟨heads', stream'⟩, hheads, heq⟩ := Option.map_eq_some_iff.mp h
        obtain ⟨rfl, -⟩ := Prod.mk.inj heq
        exact .cons hfixed (ih hheads)
    · rename_i hvariable
      obtain ⟨⟨heads', stream'⟩, hheads, heq⟩ := Option.map_eq_some_iff.mp h
      obtain ⟨rfl, -⟩ := Prod.mk.inj heq
      exact .cons (eq_false_of_ne_true hvariable) (ih hheads)

/-- Without an offset in its head a container is fixed. -/
theorem allFixed_of_firstOffset? {fields : Fields} {heads : List Head}
    (hheads : List.Forall₂ Head.Stands fields heads) (hnone : firstOffset? heads = none) :
    Schema.allFixed fields = true := by
  induction hheads with
  | nil => rfl
  | @cons field head fields heads hhead _ ih =>
    obtain ⟨name, τ⟩ := field
    cases head with
    | value v => exact (Bool.and_eq_true _ _).mpr ⟨hhead, ih hnone⟩
    | offset o => exact nomatch hnone

/-- The bodies of a container fill no more than what lies behind the first offset. -/
theorem firstOffset_add_length_bodies_le {fields : Fields}
    (hfields : ∀ f ∈ fields, f.2.Contracts) {heads : List Head} {scope : Nat}
    {stream rest : Bytes} {vs : List Value} (hheads : List.Forall₂ Head.Stands fields heads)
    (h : decodeBodies fields heads scope stream = some (vs, rest)) :
    (firstOffset? heads).getD scope + (Slot.bodies (fieldSlots fields vs)).length ≤ scope := by
  induction hheads generalizing stream rest vs with
  | nil => exact Nat.le_refl scope
  | @cons field head fields heads hhead _ ih =>
    obtain ⟨name, τ⟩ := field
    have hτ : τ.Contracts := hfields (name, τ) List.mem_cons_self
    have hrest : ∀ f ∈ fields, f.2.Contracts := fun f hf => hfields f (List.mem_cons_of_mem _ hf)
    cases head with
    | value v =>
      obtain ⟨⟨vs', stream'⟩, hvs, heq⟩ := Option.map_eq_some_iff.mp h
      obtain ⟨rfl, -⟩ := Prod.mk.inj heq
      have hfixed : τ.isFixed = true := hhead
      rw [fieldSlots, if_pos hfixed]
      exact ih hrest hvs
    | offset o =>
      have hvariable : τ.isFixed = false := hhead
      simp only [decodeBodies] at h
      split at h
      · rename_i hfits
        split at h
        · exact absurd h (by simp)
        · rename_i v stream' hv
          obtain ⟨⟨vs', stream''⟩, hvs, heq⟩ := Option.map_eq_some_iff.mp h
          obtain ⟨rfl, -⟩ := Prod.mk.inj heq
          -- The body fits up to the next offset, and the others behind that.
          have hbody := hτ _ stream v stream' hvariable hv
          have hlater := ih hrest hvs
          simp only [Bool.and_eq_true, decide_eq_true_eq] at hfits
          simp only [fieldSlots, hvariable, Bool.false_eq_true, if_false, Slot.bodies,
            List.length_append, firstOffset?, Option.getD_some]
          omega
      · exact absurd h (by simp)

theorem contracts_container {fields : Fields} (hfields : ∀ f ∈ fields, f.2.Contracts)
    (name : String) : (Schema.container name fields).Contracts := by
  intro scope stream v rest hvariable h
  have hadmits := sound (.container name fields) scope stream v rest h
  rw [decode] at h
  split at h
  · exact absurd h (by simp)
  · rename_i heads stream' hheads
    have hstands := stands_of_decodeHeads hheads
    split at h
    · rename_i hfit
      obtain ⟨⟨vs, stream''⟩, hvs, heq⟩ := Option.map_eq_some_iff.mp h
      obtain ⟨rfl, -⟩ := Prod.mk.inj heq
      have hfill := firstOffset_add_length_bodies_le hfields hstands hvs
      rw [encode, Slot.length_assemble, headLength_fieldSlots hadmits]
      cases hfirst : firstOffset? heads with
      | none =>
        have hfixed : Schema.allFixed fields = true := allFixed_of_firstOffset? hstands hfirst
        exact absurd (hfixed.symm.trans hvariable) (by simp)
      | some o =>
        have hbehind : Schema.headLength fields ≤ o := by
          unfold headsFit at hfit
          rw [hfirst] at hfit
          exact of_decide_eq_true hfit
        rw [hfirst, Option.getD_some] at hfill
        omega
    · exact absurd h (by simp)

/-! ## All schemas -/

theorem contracts (τ : Schema) : τ.Contracts := by
  induction τ using Schema.byParts with
  | uint _ | boolean | byteVector _ | bitvector _ =>
    exact fun _ _ _ _ hvariable => absurd hvariable (by simp [Schema.isFixed])
  | bitlist limit => exact contracts_bitlist limit
  | vector element length helement => exact contracts_vector helement length
  | list element limit helement => exact contracts_list helement limit
  | container name fields hfields => exact contracts_container hfields name

theorem length_encode_le_of_decode {τ : Schema} (hvariable : τ.isFixed = false) {scope : Nat}
    {stream rest : Bytes} {v : Value} (h : decode τ scope stream = some (v, rest)) :
    (encode τ v).length ≤ scope :=
  contracts τ scope stream v rest hvariable h

/-! ## Whole byte strings -/

theorem length_encode_le_of_decodeBytes {τ : Schema} (hvariable : τ.isFixed = false) {b : Bytes}
    {v : Value} (h : decodeBytes τ b = some v) : (encode τ v).length ≤ b.length := by
  -- Numbers and booleans, which are not read from a stream, are fixed.
  cases τ with
  | uint _ | boolean => exact nomatch hvariable
  | _ =>
    obtain ⟨⟨w, rest⟩, hw, rfl⟩ := Option.map_eq_some_iff.mp h
    exact length_encode_le_of_decode hvariable hw

/-- What was read from a whole byte string is read from its own encoding as well. -/
theorem decodeBytes_normal {τ : Schema} (hseparable : τ.separable = true)
    (hvariable : τ.isFixed = false) {b : Bytes} {v : Value}
    (hlength : b.length < Bytes.capacity Schema.offsetWidth) (h : decodeBytes τ b = some v) :
    decodeBytes τ (encode τ v) = some v := by
  have hshort := length_encode_le_of_decodeBytes hvariable h
  exact decodeBytes_encode hseparable (decodeBytes_admits h) (Nat.lt_of_le_of_lt hshort hlength)

end BeaconHarness.Ssz
