import BeaconHarness.Consensus.Records
import BeaconHarness.Proofs.Ssz.Summary
import Mathlib.Data.Set.List

/-!
# Records of values

A record stands for a value of its schema, and every value of the schema is that of a record. The
parts of such a record are within the bounds that building one from unchecked parts asks for, so
that it is built again from its own parts.

Main statement, for each kind of record: every value of the schema is that of a record which is
built again from its parts (`exists_of_admits`).
-/

namespace BeaconHarness

namespace Ssz

/-! ## Values field by field -/

section

variable {name : String} {fields : Fields} {vs : List Value}

theorem exists_cons_of_admits {τ : Schema}
    (h : Schema.admitsFields ((name, τ) :: fields) vs = true) :
    ∃ v rest, vs = v :: rest ∧ τ.admits v = true ∧ Schema.admitsFields fields rest = true := by
  cases vs with
  | nil => exact absurd h (by simp [Schema.admitsFields])
  | cons v rest =>
    obtain ⟨hv, hrest⟩ := (Bool.and_eq_true _ _).mp h
    exact ⟨v, rest, rfl, hv, hrest⟩

theorem exists_uint_cons {width : Nat}
    (h : Schema.admitsFields ((name, .uint width) :: fields) vs = true) :
    ∃ n rest, vs = .uint n :: rest ∧ n < Bytes.capacity width ∧
      Schema.admitsFields fields rest = true := by
  obtain ⟨v, rest, rfl, hv, hrest⟩ := exists_cons_of_admits h
  obtain ⟨n, rfl, hn⟩ := exists_uint_of_admits hv
  exact ⟨n, rest, rfl, hn, hrest⟩

theorem exists_bytes_cons {length : Nat}
    (h : Schema.admitsFields ((name, .byteVector length) :: fields) vs = true) :
    ∃ b rest, vs = .bytes b :: rest ∧ b.length = length ∧
      Schema.admitsFields fields rest = true := by
  obtain ⟨v, rest, rfl, hv, hrest⟩ := exists_cons_of_admits h
  obtain ⟨b, rfl, hb⟩ := exists_bytes_of_admits hv
  exact ⟨b, rest, rfl, hb, hrest⟩

theorem exists_boolean_cons (h : Schema.admitsFields ((name, .boolean) :: fields) vs = true) :
    ∃ b rest, vs = .boolean b :: rest ∧ Schema.admitsFields fields rest = true := by
  obtain ⟨v, rest, rfl, hv, hrest⟩ := exists_cons_of_admits h
  obtain ⟨b, rfl⟩ := exists_boolean_of_admits hv
  exact ⟨b, rest, rfl, hrest⟩

theorem eq_nil_of_admits (h : Schema.admitsFields [] vs = true) : vs = [] := by
  cases vs with
  | nil => rfl
  | cons v vs => exact absurd h (by simp [Schema.admitsFields])

end

/-! ## Lists of values -/

section

variable {element : Schema} {limit : Nat} {v : Value}

theorem exists_elements_of_admits (hv : (Schema.list element limit).admits v = true) :
    ∃ vs, v = .seq vs ∧ ∀ w ∈ vs, element.admits w = true := by
  cases v with
  | seq vs =>
    obtain ⟨-, hall⟩ := (Bool.and_eq_true _ _).mp hv
    exact ⟨vs, rfl, List.all_eq_true.mp hall⟩
  | _ => exact absurd hv (by simp [Schema.admits])

/-- If every element is the value of something, the list holds the values of a list of those. -/
theorem exists_map_of_admits {α : Type} {toValue : α → Value}
    (hv : (Schema.list element limit).admits v = true)
    (h : ∀ w, element.admits w = true → ∃ a, toValue a = w) :
    ∃ as : List α, v = .seq (as.map toValue) := by
  obtain ⟨vs, rfl, hvs⟩ := exists_elements_of_admits hv
  have hrange : vs ∈ Set.range (List.map toValue) := by
    rw [Set.range_list_map]
    exact fun w hw => h w (hvs w hw)
  obtain ⟨as, rfl⟩ := hrange
  exact ⟨as, rfl⟩

end

end Ssz

namespace Consensus

open Ssz (Value exists_seq_of_admits exists_cons_of_admits exists_uint_cons exists_bytes_cons
  exists_boolean_cons eq_nil_of_admits)

variable {v : Value}

/-! ## Records -/

theorem Checkpoint.exists_of_admits (hv : checkpoint.admits v = true) :
    ∃ c : Checkpoint, c.toValue = v ∧ c.epoch < Bytes.capacity 8 ∧
      Checkpoint.make c.epoch c.root = .ok c := by
  obtain ⟨vs, rfl, hvs⟩ := exists_seq_of_admits hv
  obtain ⟨epoch, vs, rfl, hepoch, hvs⟩ := exists_uint_cons hvs
  obtain ⟨root, vs, rfl, hroot, hvs⟩ := exists_bytes_cons hvs
  obtain rfl := eq_nil_of_admits hvs
  refine ⟨⟨epoch, root⟩, rfl, hepoch, ?_⟩
  unfold make
  rw [word_natCast hepoch, exactly_of_length hroot]
  rfl

theorem BlockHeader.exists_of_admits (hv : beaconBlockHeader.admits v = true) :
    ∃ h : BlockHeader, h.toValue = v ∧ h.slot < Bytes.capacity 8 ∧
      h.proposerIndex < Bytes.capacity 8 ∧
      make h.slot h.proposerIndex h.parentRoot h.stateRoot h.bodyRoot = .ok h := by
  obtain ⟨vs, rfl, hvs⟩ := exists_seq_of_admits hv
  obtain ⟨slot, vs, rfl, hslot, hvs⟩ := exists_uint_cons hvs
  obtain ⟨proposer, vs, rfl, hproposer, hvs⟩ := exists_uint_cons hvs
  obtain ⟨parent, vs, rfl, hparent, hvs⟩ := exists_bytes_cons hvs
  obtain ⟨state, vs, rfl, hstate, hvs⟩ := exists_bytes_cons hvs
  obtain ⟨body, vs, rfl, hbody, hvs⟩ := exists_bytes_cons hvs
  obtain rfl := eq_nil_of_admits hvs
  exact ⟨⟨slot, proposer, parent, state, body⟩, rfl, hslot, hproposer,
    make_of_bounds hslot hproposer hparent hstate hbody⟩

/-- Of a signed header the message is a header of its own. -/
theorem SignedHeader.exists_of_admits (hv : signedBeaconBlockHeader.admits v = true) :
    ∃ h : SignedHeader, h.toValue = v ∧ beaconBlockHeader.admits h.message.toValue = true ∧
      make h.message h.signature = .ok h := by
  obtain ⟨vs, rfl, hvs⟩ := exists_seq_of_admits hv
  obtain ⟨message, vs, rfl, hmessage, hvs⟩ := exists_cons_of_admits hvs
  obtain ⟨signature, vs, rfl, hsignature, hvs⟩ := exists_bytes_cons hvs
  obtain rfl := eq_nil_of_admits hvs
  obtain ⟨header, rfl, -⟩ := BlockHeader.exists_of_admits hmessage
  refine ⟨⟨header, signature⟩, rfl, hmessage, ?_⟩
  unfold make
  rw [exactly_of_length hsignature]
  rfl

/-- The epochs of a validator. -/
def Validator.epochs (v : Validator) : List Nat :=
  [v.activationEligibilityEpoch, v.activationEpoch, v.exitEpoch, v.withdrawableEpoch]

theorem Validator.exists_of_admits (hv : validator.admits v = true) :
    ∃ w : Validator, w.toValue = v ∧ w.effectiveBalance < Bytes.capacity 8 ∧
      (∀ epoch ∈ w.epochs, epoch < Bytes.capacity 8) ∧
      make w.pubkey w.withdrawalCredentials w.effectiveBalance w.slashed
        w.activationEligibilityEpoch w.activationEpoch w.exitEpoch w.withdrawableEpoch =
        .ok w := by
  obtain ⟨vs, rfl, hvs⟩ := exists_seq_of_admits hv
  obtain ⟨pubkey, vs, rfl, hpubkey, hvs⟩ := exists_bytes_cons hvs
  obtain ⟨credentials, vs, rfl, hcredentials, hvs⟩ := exists_bytes_cons hvs
  obtain ⟨balance, vs, rfl, hbalance, hvs⟩ := exists_uint_cons hvs
  obtain ⟨slashed, vs, rfl, hvs⟩ := exists_boolean_cons hvs
  obtain ⟨eligibility, vs, rfl, heligibility, hvs⟩ := exists_uint_cons hvs
  obtain ⟨activation, vs, rfl, hactivation, hvs⟩ := exists_uint_cons hvs
  obtain ⟨exit, vs, rfl, hexit, hvs⟩ := exists_uint_cons hvs
  obtain ⟨withdrawable, vs, rfl, hwithdrawable, hvs⟩ := exists_uint_cons hvs
  obtain rfl := eq_nil_of_admits hvs
  refine ⟨⟨pubkey, credentials, balance, slashed, eligibility, activation, exit, withdrawable⟩,
    rfl, hbalance, ?_, ?_⟩
  · intro epoch hepoch
    simp only [epochs, List.mem_cons, List.not_mem_nil, or_false] at hepoch
    rcases hepoch with rfl | rfl | rfl | rfl
    · exact heligibility
    · exact hactivation
    · exact hexit
    · exact hwithdrawable
  · unfold make
    rw [exactly_of_length hpubkey, exactly_of_length hcredentials, word_natCast hbalance,
      word_natCast heligibility, word_natCast hactivation, word_natCast hexit,
      word_natCast hwithdrawable]
    rfl

theorem Withdrawal.exists_of_admits (hv : withdrawal.admits v = true) :
    ∃ w : Withdrawal, w.toValue = v ∧ w.index < Bytes.capacity 8 ∧
      w.validatorIndex < Bytes.capacity 8 ∧ w.amount < Bytes.capacity 8 ∧
      make w.index w.validatorIndex w.address w.amount = .ok w := by
  obtain ⟨vs, rfl, hvs⟩ := exists_seq_of_admits hv
  obtain ⟨index, vs, rfl, hindex, hvs⟩ := exists_uint_cons hvs
  obtain ⟨validator, vs, rfl, hvalidator, hvs⟩ := exists_uint_cons hvs
  obtain ⟨address, vs, rfl, haddress, hvs⟩ := exists_bytes_cons hvs
  obtain ⟨amount, vs, rfl, hamount, hvs⟩ := exists_uint_cons hvs
  obtain rfl := eq_nil_of_admits hvs
  refine ⟨⟨index, validator, address, amount⟩, rfl, hindex, hvalidator, hamount, ?_⟩
  unfold make
  rw [word_natCast hindex, word_natCast hvalidator, exactly_of_length haddress,
    word_natCast hamount]
  rfl

theorem ForkRecord.exists_of_admits (hv : forkRecord.admits v = true) :
    ∃ r : ForkRecord, r.toValue = v ∧ r.epoch < Bytes.capacity 8 ∧
      make r.previousVersion r.currentVersion r.epoch = .ok r := by
  obtain ⟨vs, rfl, hvs⟩ := exists_seq_of_admits hv
  obtain ⟨previous, vs, rfl, hprevious, hvs⟩ := exists_bytes_cons hvs
  obtain ⟨current, vs, rfl, hcurrent, hvs⟩ := exists_bytes_cons hvs
  obtain ⟨epoch, vs, rfl, hepoch, hvs⟩ := exists_uint_cons hvs
  obtain rfl := eq_nil_of_admits hvs
  refine ⟨⟨previous, current, epoch⟩, rfl, hepoch, ?_⟩
  unfold make
  rw [exactly_of_length hprevious, exactly_of_length hcurrent, word_natCast hepoch]
  rfl

end Consensus

end BeaconHarness
