import BeaconHarness.Consensus.State
import BeaconHarness.Proofs.Consensus.Header
import BeaconHarness.Proofs.Ssz.Padding

/-!
# Roots of the consensus layer

The types of the consensus layer are its named schemas and whatever is built from them: lists and
vectors of any length, bit strings, and containers. Their numbers all fit into one chunk, so that
their roots are the padded ones, those of states and blocks among them. A byte string that is asked
for its root by itself has to be a root already.

Main statement: roots are those of full trees (`roots_eq_paddedRoot`).
-/

namespace BeaconHarness

open Ssz (Schema Value Object Fields)

namespace Consensus

/-! ## Types -/

/-- The types that can be built from the named schemas of a preset. -/
inductive Built (p : Preset) : Schema → Prop where
  | named {name : String} {τ : Schema} : schemaNamed? p name = some τ → Built p τ
  | byteVector (length : Nat) : Built p (.byteVector length)
  | bitvector (length : Nat) : Built p (.bitvector length)
  | bitlist (limit : Nat) : Built p (.bitlist limit)
  | vector {τ : Schema} (length : Nat) : Built p τ → Built p (.vector τ length)
  | list {τ : Schema} (limit : Nat) : Built p τ → Built p (.list τ limit)
  | container (name : String) {fields : Fields} :
    (∀ field ∈ fields, Built p field.2) → Built p (.container name fields)

theorem fitsChunks_plainSchemas : ∀ s ∈ plainSchemas, s.2.fitsChunks = true := by
  decide

theorem fitsChunks_containers (p : Preset) :
    ∀ τ ∈ sharedContainers p ++ Fork.all.flatMap (forkContainers p), τ.fitsChunks = true := by
  cases p <;> decide

theorem fitsChunks_of_named {p : Preset} {name : String} {τ : Schema}
    (h : schemaNamed? p name = some τ) : τ.fitsChunks = true :=
  of_named fitsChunks_plainSchemas (fitsChunks_containers p) h

theorem allFitChunks_of_forall {fields : Fields}
    (h : ∀ field ∈ fields, field.2.fitsChunks = true) : Schema.allFitChunks fields = true := by
  induction fields with
  | nil => rfl
  | cons field fields ih =>
    have hfirst := h field List.mem_cons_self
    have hrest := ih fun field hfield => h field (List.mem_cons_of_mem _ hfield)
    exact (Bool.and_eq_true _ _).mpr ⟨hfirst, hrest⟩

/-- All numbers of a type of the consensus layer fit into a chunk. -/
theorem Built.fitsChunks {p : Preset} {τ : Schema} (h : Built p τ) : τ.fitsChunks = true := by
  induction h with
  | named hnamed => exact fitsChunks_of_named hnamed
  | byteVector length => rfl
  | bitvector length => rfl
  | bitlist limit => rfl
  | vector length _ ih => exact ih
  | list limit _ ih => exact ih
  | container name _ ih => exact allFitChunks_of_forall ih

theorem fitsChunks_state (p : Preset) (f : Fork) : (state p f).fitsChunks = true := by
  cases p <;> cases f <;> rfl

end Consensus

/-! ## Roots by themselves -/

/-- The root of a value is that of its full tree, also if the value is taken for a root itself. -/
theorem Signing.rootOf_eq_paddedRoot {τ : Schema} (hfits : τ.fitsChunks = true) {v : Value}
    (hv : τ.admits v = true) (hbytes : ∀ length, τ = .byteVector length → length = 32) :
    Signing.rootOf (.ssz ⟨τ, v⟩) = .ok (Ssz.paddedRoot τ v) := by
  have hroot := Ssz.hashTreeRoot_eq_paddedRoot hfits hv
  rw [← hroot]
  cases v with
  | bytes b =>
    -- Only byte strings of one length are byte strings of a schema.
    cases τ with
    | byteVector length =>
      have hlength : b.length = 32 :=
        (of_decide_eq_true hv : b.length = length).trans (hbytes length rfl)
      obtain rfl : length = 32 := hbytes length rfl
      show (if b.length = 32 then Except.ok b else _) = _
      rw [if_pos hlength]
      exact congrArg Except.ok (Ssz.hashTreeRoot_chunk hlength).symm
    | _ => exact absurd hv (by simp [Schema.admits])
  | _ => rfl

theorem Signing.rootOf_byteVector {length : Nat} {b : Bytes} (hb : b.length = length)
    (h : length ≠ 32) :
    Signing.rootOf (.ssz ⟨.byteVector length, .bytes b⟩) =
      .error (.unreadable (.rootLength length)) := by
  subst hb
  exact if_neg h

/-! ## Main statement -/

/-- Every value of a type of the consensus layer has the root of its full tree, except that a byte
string that is no root by its length is refused. The roots of states are those of their values, and
the roots of blocks those of their messages. -/
theorem roots_eq_paddedRoot :
    (∀ (p : Preset) (τ : Schema) (v : Value), Consensus.Built p τ → τ.admits v = true →
      (∀ length, τ = .byteVector length → length = 32) →
      Signing.rootOf (.ssz ⟨τ, v⟩) = .ok (Ssz.paddedRoot τ v)) ∧
    (∀ (length : Nat) (b : Bytes), (Schema.byteVector length).admits (.bytes b) = true →
      length ≠ 32 →
      Signing.rootOf (.ssz ⟨.byteVector length, .bytes b⟩) =
        .error (.unreadable (.rootLength length))) ∧
    (∀ s : VersionedState, s.Admitted →
      s.root = Ssz.paddedRoot (Consensus.state s.preset s.fork) s.value) ∧
    (∀ b : VersionedBlock, b.Admitted →
      ∃ v, b.message = ⟨Consensus.block b.preset b.fork, v⟩ ∧
        b.root = Ssz.paddedRoot (Consensus.block b.preset b.fork) v) := by
  refine ⟨?_, ?_, ?_, ?_⟩
  · intro p τ v hbuilt hv hbytes
    exact Signing.rootOf_eq_paddedRoot hbuilt.fitsChunks hv hbytes
  · intro length b hb h
    exact Signing.rootOf_byteVector (of_decide_eq_true hb) h
  · intro s hs
    exact Ssz.hashTreeRoot_eq_paddedRoot (Consensus.fitsChunks_state s.preset s.fork) hs
  · intro b hb
    obtain ⟨v, hmessage, hv⟩ := VersionedBlock.exists_message hb
    refine ⟨v, hmessage, ?_⟩
    unfold VersionedBlock.root
    rw [hmessage]
    exact Ssz.hashTreeRoot_eq_paddedRoot (Consensus.fitsChunks_block b.preset b.fork) hv

/-- Five balances in a list with room for a million million, the bits of a list that is not full,
a state with two validators, and a block with attestations and transactions. -/
theorem roots_eq_paddedRoot_balances :
    let balances : Value := .seq [.uint 1, .uint 2, .uint 3, .uint 4, .uint 32000000000]
    let state := VersionedState.registered .mainnet .deneb
    let block := VersionedBlock.attested .minimal .bellatrix
    Signing.rootOf (.ssz ⟨.list Consensus.uint64 Preset.validatorRegistryLimit, balances⟩) =
      .ok (Ssz.paddedRoot (.list Consensus.uint64 Preset.validatorRegistryLimit) balances) ∧
    Signing.rootOf (.ssz ⟨.byteVector 4, .bytes [1, 2, 3, 4]⟩) =
      .error (.unreadable (.rootLength 4)) ∧
    state.root = Ssz.paddedRoot (Consensus.state .mainnet .deneb) state.value ∧
    ∃ v, block.root = Ssz.paddedRoot (Consensus.block .minimal .bellatrix) v := by
  intro balances state block
  have hnamed : Consensus.schemaNamed? .mainnet "uint64" = some Consensus.uint64 := rfl
  have hbuilt : Consensus.Built .mainnet (.list Consensus.uint64 Preset.validatorRegistryLimit) :=
    .list _ (.named hnamed)
  have hbalances : (Schema.list Consensus.uint64 Preset.validatorRegistryLimit).admits balances =
      true := by decide
  obtain ⟨hvalues, hbytes, hstates, hblocks⟩ := roots_eq_paddedRoot
  obtain ⟨v, -, hv⟩ := hblocks block (VersionedBlock.admitted_attested .minimal rfl)
  exact ⟨hvalues .mainnet _ balances hbuilt hbalances (by simp),
    hbytes 4 [1, 2, 3, 4] (by decide) (by decide),
    hstates state (VersionedState.admitted_registered .mainnet .deneb), v, hv⟩

end BeaconHarness
