import BeaconHarness.Consensus.Block
import BeaconHarness.Consensus.State
import BeaconHarness.Proofs.Consensus.Acceptance
import BeaconHarness.Proofs.Engine.Payload
import BeaconHarness.Proofs.Ssz.Path
import BeaconHarness.Proofs.Withdrawal.Supported

/-!
# Parts of payloads

Every part of a state or a signed block is what stands at the end of a path of fields, shown in one
way, or something that stands for its absence. Whether a part is there was written down twice: in
the schemas of the forks, by their fields, and at each part, by the forks that have it. The two
agree, so that no part is looked for in a payload that lacks it and none that is there is passed
over.

Main statement: the parts of well-formed payloads, however these were wrapped
(`Versioned.parts_agree`).
-/

namespace BeaconHarness

open Ssz (Schema Value Object)

/-! ## Accessors -/

open VersionedState (Presence)

/-- How a part of a payload is named, where it stands, which forks have it, how it is shown and what
stands for it where it is not. -/
structure Accessor where
  name : String
  path : List String
  presence : Presence := .always
  shown : Object → Datum := .ssz
  absent : Datum := .null

namespace Accessor

/-- Whether a part is answered as the schema of the payload says: with what stands at the end of the
path if the schema declares it, which is so at the forks of the accessor alone, and with the absent
value otherwise. -/
structure Reads (a : Accessor) {kind : PayloadKind} (x : Versioned kind)
    (got : Except Failure Datum) : Prop where
  gate : ((kind.schema x.preset x.fork).at? a.path).isSome = a.presence.holdsAt x.fork
  declared : ∀ τ, (kind.schema x.preset x.fork).at? a.path = some τ →
    ∃ v, x.object.at? a.path = some ⟨τ, v⟩ ∧ τ.admits v = true ∧ got = .ok (a.shown ⟨τ, v⟩)
  absent : (kind.schema x.preset x.fork).at? a.path = none → got = .ok a.absent

/-- What an accessor gives by its own account of the forks. -/
def value (a : Accessor) {kind : PayloadKind} (x : Versioned kind) : Datum :=
  if a.presence.holdsAt x.fork then a.shown (x.object.along a.path) else a.absent

theorem reads_of_value {a : Accessor} {kind : PayloadKind} {x : Versioned kind}
    {got : Except Failure Datum} (hx : x.Admitted)
    (hgate : ((kind.schema x.preset x.fork).at? a.path).isSome = a.presence.holdsAt x.fork)
    (hgot : got = .ok (a.value x)) : a.Reads x got where
  gate := hgate
  declared τ hτ := by
    obtain ⟨v, hv, hadmits⟩ := Object.at?_of_admits hx hτ
    have halong : x.object.along a.path = ⟨τ, v⟩ := Object.along_of_at? hv
    have hholds : a.presence.holdsAt x.fork = true := by
      rw [← hgate, hτ]
      rfl
    refine ⟨v, hv, hadmits, ?_⟩
    rw [hgot, value, if_pos hholds, halong]
  absent hnone := by
    have hholds : ¬ a.presence.holdsAt x.fork = true := by
      rw [← hgate, hnone]
      exact Bool.false_ne_true
    rw [hgot, value, if_neg hholds]

end Accessor

/-! ## States -/

namespace VersionedState

/-- The parts of a state: its fields at the forks that have them, the versions in its fork record,
and what reads as a number or a hash at every fork. -/
def accessors : List Accessor :=
  presence.map (fun e => { name := e.1, path := [e.1], presence := e.2 }) ++ [
    { name := "data", path := [] },
    { name := "root", path := [], shown := fun x => .bytes x.root },
    { name := "encode_bytes", path := [], shown := fun x => .bytes x.encode },
    { name := "current_version", path := ["fork", "current_version"] },
    { name := "previous_version", path := ["fork", "previous_version"] },
    { name := "latest_execution_payload_header_hash"
      path := ["latest_execution_payload_header", "block_hash"]
      presence := .since .bellatrix
      shown := fun x => .bytes x.toBytes
      absent := .bytes Signing.zeroRoot },
    { name := "next_withdrawal_index", path := ["next_withdrawal_index"]
      presence := .since .capella
      shown := fun x => .int x.toNat
      absent := .int 0 },
    { name := "next_withdrawal_validator_index", path := ["next_withdrawal_validator_index"]
      presence := .since .capella
      shown := fun x => .int x.toNat
      absent := .int 0 }]

theorem gate_accessors (p : Preset) (f : Fork) :
    ∀ a ∈ accessors, ((Consensus.state p f).at? a.path).isSome = a.presence.holdsAt f := by
  cases p <;> cases f <;> decide +kernel

theorem part_accessors (s : VersionedState) :
    ∀ a ∈ accessors, s.part a.name = .ok (a.value s) := by
  obtain ⟨p, f, v⟩ := s
  simp only [accessors, presence, List.map_cons, List.map_nil, List.cons_append, List.nil_append,
    List.forall_mem_cons, List.not_mem_nil, false_implies, implies_true, and_true]
  -- At a given fork each part is found by its name, and its gate is open or closed.
  cases f <;> repeat' (first | exact rfl | constructor)

/-- Every part of a state that has a name of its own is among the accessors. -/
theorem mem_accessors_of_partNames : ∀ name ∈ partNames, ∃ a ∈ accessors, a.name = name := by
  decide +kernel

section

variable {s : VersionedState}

theorem reads_part (hs : s.Admitted) : ∀ a ∈ accessors, a.Reads s (s.part a.name) := by
  intro a ha
  exact Accessor.reads_of_value hs (gate_accessors s.preset s.fork a ha) (part_accessors s a ha)

/-! ## Balances -/

/-- The balances of a state are the numbers in its list of balances. -/
theorem exists_balances (hs : s.Admitted) :
    ∃ ns : List Nat, s.object.at? ["balances"] =
        some ⟨.list Consensus.uint64 Preset.validatorRegistryLimit, .seq (ns.map .uint)⟩ ∧
      s.balances = ns := by
  have hτ : (Consensus.state s.preset s.fork).at? ["balances"] =
      some (.list Consensus.uint64 Preset.validatorRegistryLimit) := by
    cases s.fork <;> rfl
  obtain ⟨v, hfield, hv⟩ := Object.at?_of_admits hs hτ
  obtain ⟨ns, rfl⟩ := Ssz.exists_map_of_admits hv fun w hw =>
    (Ssz.exists_uint_of_admits hw).imp fun n hn => hn.1.symm
  refine ⟨ns, hfield, ?_⟩
  have halong : s.object.field "balances" = _ := Object.along_of_at? hfield
  unfold balances
  rw [halong]
  show (ns.map Value.uint).map Value.toNat = ns
  rw [List.map_map]
  exact (List.map_congr_left fun n _ => rfl).trans (List.map_id ns)

theorem exists_validators (hs : s.Admitted) :
    ∃ vs : List Value, s.object.at? ["validators"] =
        some ⟨.list Consensus.validator Preset.validatorRegistryLimit, .seq vs⟩ ∧
      s.validators.length = vs.length := by
  have hτ : (Consensus.state s.preset s.fork).at? ["validators"] =
      some (.list Consensus.validator Preset.validatorRegistryLimit) := by
    cases s.fork <;> rfl
  obtain ⟨v, hfield, hv⟩ := Object.at?_of_admits hs hτ
  obtain ⟨vs, rfl, -⟩ := Ssz.exists_elements_of_admits hv
  refine ⟨vs, hfield, ?_⟩
  have halong : s.object.field "validators" = _ := Object.along_of_at? hfield
  unfold validators
  rw [halong, List.length_map]
  rfl

theorem balance_of_getElem {position n : Nat} (h : s.balances[position]? = some n) :
    s.balance position = .ok n := by
  obtain ⟨hlt, -⟩ := List.getElem?_eq_some_iff.mp h
  have hrange : (decide ((position : Int) < 0) ||
      decide ((s.balances.length : Int) ≤ position)) = false := by
    rw [Bool.or_eq_false_iff, decide_eq_false_iff_not, decide_eq_false_iff_not]
    omega
  unfold balance
  simp only [hrange, Int.toNat_natCast, List.getD_eq_getElem?_getD, h]
  rfl

theorem balance_of_outside {index : Int} (h : index < 0 ∨ (s.balances.length : Int) ≤ index) :
    s.balance index =
      .error (.validatorIndex (.int index) s.validators.length (some s.balances.length)) := by
  have hrange : (decide (index < 0) || decide ((s.balances.length : Int) ≤ index)) = true := by
    rwa [Bool.or_eq_true, decide_eq_true_eq, decide_eq_true_eq]
  unfold balance
  simp only [hrange]
  rfl

/-! ## Withdrawals -/

theorem nextWithdrawals_of_before (h : s.fork.atLeast .bellatrix = false) (slot : Datum)
    (spec : Spec) :
    s.nextWithdrawalsAt slot spec = .error (.unsupported s.fork.name "next_withdrawals") := by
  unfold nextWithdrawalsAt Versioned.require
  rw [h]
  rfl

theorem supported_nextWithdrawals (h : s.fork.atLeast .bellatrix = true) (slot : Datum)
    (spec : Spec) : Supported (s.nextWithdrawalsAt slot spec) := by
  have hrequire : Supported (s.require .bellatrix "next_withdrawals") := by
    unfold Versioned.require
    rw [h]
    exact .ok ()
  exact hrequire.bind fun _ => (Supported.plainInteger slot).bind fun n =>
    hrequire.bind fun _ => (Supported.slotToEpoch spec n).bind fun epoch =>
      Supported.sweep _ spec _ _ epoch

end

end VersionedState

/-! ## Blocks -/

namespace VersionedBlock

/-- The parts of a block: fields of its message and body, parts of its payload, and whether it has a
payload or commitments at all. -/
def accessors : List Accessor := [
  { name := "data", path := [] },
  { name := "root", path := ["message"], shown := fun x => .bytes x.root },
  { name := "encode_bytes", path := [], shown := fun x => .bytes x.encode },
  { name := "message", path := ["message"] },
  { name := "body", path := ["message", "body"] },
  { name := "state_root", path := ["message", "state_root"] },
  { name := "parent_root", path := ["message", "parent_root"] },
  { name := "slot", path := ["message", "slot"] },
  { name := "proposer_index", path := ["message", "proposer_index"] },
  { name := "signature", path := ["signature"] },
  { name := "graffiti", path := ["message", "body", "graffiti"] },
  { name := "voluntary_exits", path := ["message", "body", "voluntary_exits"] },
  { name := "sync_aggregate", path := ["message", "body", "sync_aggregate"]
    presence := .since .altair },
  { name := "contains_execution_payload", path := ["message", "body", "execution_payload"]
    presence := .since .bellatrix
    shown := fun _ => .bool true
    absent := .bool false },
  { name := "contains_kzg_commitments", path := ["message", "body", "blob_kzg_commitments"]
    presence := .since .deneb
    shown := fun _ => .bool true
    absent := .bool false },
  { name := "execution_payload_block_hash"
    path := ["message", "body", "execution_payload", "block_hash"]
    presence := .since .bellatrix
    shown := fun x => .bytes x.toBytes },
  { name := "kzg_commitments", path := ["message", "body", "blob_kzg_commitments"]
    presence := .since .deneb },
  { name := "withdrawals", path := ["message", "body", "execution_payload", "withdrawals"]
    presence := .since .capella },
  { name := "bls_to_execution_changes", path := ["message", "body", "bls_to_execution_changes"]
    presence := .since .capella }]

theorem gate_accessors (p : Preset) (f : Fork) :
    ∀ a ∈ accessors, ((Consensus.signedBlock p f).at? a.path).isSome = a.presence.holdsAt f := by
  cases p <;> cases f <;> decide +kernel

theorem part_accessors (b : VersionedBlock) :
    ∀ a ∈ accessors, b.part a.name = .ok (a.value b) := by
  obtain ⟨p, f, v⟩ := b
  simp only [accessors, List.forall_mem_cons, List.not_mem_nil, false_implies, implies_true,
    and_true]
  cases f <;> repeat' (first | exact rfl | constructor)

theorem mem_accessors_of_partNames : ∀ name ∈ partNames, ∃ a ∈ accessors, a.name = name := by
  decide +kernel

section

variable {b : VersionedBlock}

theorem reads_part (hb : b.Admitted) : ∀ a ∈ accessors, a.Reads b (b.part a.name) := by
  intro a ha
  exact Accessor.reads_of_value hb (gate_accessors b.preset b.fork a ha) (part_accessors b a ha)

/-! ## Payloads -/

theorem execution_of_before (h : b.fork.atLeast .bellatrix = false) :
    b.execution = .error (.unsupported b.fork.name "execution_payload") := by
  unfold execution Versioned.require
  rw [h]
  rfl

/-- The execution payload of a block that has one. -/
theorem exists_payload (hb : b.Admitted) (h : b.fork.atLeast .bellatrix = true) :
    ∃ e : Engine.Payload, e.Suits b.fork ∧
      b.object.at? ["message", "body", "execution_payload"] =
        some ⟨Consensus.executionPayload b.preset b.fork, e.toValue⟩ := by
  have hτ : (Consensus.signedBlock b.preset b.fork).at? ["message", "body", "execution_payload"] =
      some (Consensus.executionPayload b.preset b.fork) := by
    cases hfork : b.fork with
    | phase0 => exact absurd h (by rw [hfork]; decide)
    | altair => exact absurd h (by rw [hfork]; decide)
    | _ => rfl
  obtain ⟨v, hpayload, hv⟩ := Object.at?_of_admits hb hτ
  obtain ⟨e, rfl, he⟩ := Engine.Payload.exists_of_admits hv
  exact ⟨e, he, hpayload⟩

/-- The Engine API's view of a block with a given payload. -/
theorem execution_of_payload {e : Engine.Payload} (h : b.fork.atLeast .bellatrix = true)
    (he : e.Suits b.fork)
    (hpayload : b.payload = ⟨Consensus.executionPayload b.preset b.fork, e.toValue⟩) :
    b.execution = .ok {
      payload := e
      versionedHashes := b.commitments.map fun cs =>
        cs.value.parts.map fun c => Signing.versionedHash c.toBytes
      parentBeaconRoot := if b.containsCommitments then some b.parentRoot.toBytes else none } := by
  unfold execution Versioned.require
  rw [h, hpayload, Engine.Payload.ofObject_toValue _ he]
  rfl

/-- The execution payload of a block that has one lacks none of the fields that are read of it. -/
theorem exists_execution (hb : b.Admitted) (h : b.fork.atLeast .bellatrix = true) :
    ∃ payload e, b.object.at? ["message", "body", "execution_payload"] = some payload ∧
      Engine.Payload.ofObject? payload = .ok e.payload ∧ b.execution = .ok e := by
  obtain ⟨e, he, hpayload⟩ := exists_payload hb h
  exact ⟨_, _, hpayload, Engine.Payload.ofObject?_toValue _ he,
    execution_of_payload h he (Object.along_of_at? hpayload)⟩

end

end VersionedBlock

/-! ## Payloads -/

theorem Fork.atLeast_bellatrix_eq_false_iff {f : Fork} :
    f.atLeast .bellatrix = false ↔ f = .phase0 ∨ f = .altair := by
  cases f <;> decide

namespace Versioned

/-- The schemas of the forks have names of their own. -/
theorem find?_typeName (kind : PayloadKind) (p : Preset) (f : Fork) :
    Fork.all.find? (fun g => (kind.schema p f).typeName = (kind.schema p g).typeName) = some f := by
  cases kind <;> cases p <;> cases f <;> decide +kernel

theorem ofTagged_object {kind : PayloadKind} {p : Preset} {f : Fork} {tag : Datum} (v : Value)
    (htag : Fork.ofTag tag = .ok f) :
    ofTagged kind p tag (.ssz ⟨kind.schema p f, v⟩) = .ok ⟨p, f, v⟩ := by
  unfold ofTagged
  rw [htag]
  exact if_pos rfl

theorem ofDatum_object (kind : PayloadKind) (p : Preset) (f : Fork) (v : Value) :
    ofDatum kind p (.ssz ⟨kind.schema p f, v⟩) = .ok ⟨p, f, v⟩ := by
  unfold ofDatum
  simp only [find?_typeName]

end Versioned

end BeaconHarness
