import BeaconHarness.Consensus.Schemas
import BeaconHarness.Datum.Body
import BeaconHarness.Proofs.Ssz.Json

/-!
# Request bodies of the consensus layer

No container of the consensus layer has two fields of one name, so that the body of a value never
loses a field behind another. Every value of a named schema, or of one that lies inside a named one,
has a body that renders it, and no other value of the schema has that body.

Main statement: bodies render values and tell them apart (`toBody_of_within`).
-/

namespace BeaconHarness

open Ssz (Schema Value)

namespace Consensus

theorem namesApart_plainSchemas : ∀ s ∈ plainSchemas, s.2.namesApart = true := by
  decide

theorem namesApart_containers (p : Preset) :
    ∀ τ ∈ sharedContainers p ++ Fork.all.flatMap (forkContainers p), τ.namesApart = true := by
  cases p <;> decide +kernel

theorem namesApart_of_within {p : Preset} {name : String} {σ τ : Schema}
    (hσ : schemaNamed? p name = some σ) (hτ : τ.Within σ) : τ.namesApart = true :=
  hτ.namesApart (of_named namesApart_plainSchemas (namesApart_containers p) hσ)

end Consensus

/-- The bodies of two values of one schema are the same only if the values are equal. -/
theorem Ssz.same_toJson_iff {τ : Schema} (hτ : τ.namesApart = true) {v w : Value}
    (hv : τ.admits v = true) (hw : τ.admits w = true) :
    (toJson τ v).same (toJson τ w) = true ↔ v = w := by
  have hvForm := renders_toJson τ hv
  have hwForm := renders_toJson τ hw
  have halike : (toJson τ v).Alike (toJson τ w) := hvForm.alike hτ hwForm
  rw [halike.same_iff]
  constructor
  · exact hvForm.value_unique hwForm
  · rintro rfl
    rfl

/-! ## Main statement -/

/-- Every value of a named schema, and of every schema inside of one, has a body, which renders the
value. Two values of the schema have the same body only if they are equal. -/
theorem toBody_of_within {p : Preset} {name : String} {σ τ : Schema}
    (hσ : Consensus.schemaNamed? p name = some σ) (hτ : τ.Within σ) :
    (∀ v, τ.admits v = true → ∃ d, (Datum.ssz ⟨τ, v⟩).toBody = .ok d ∧ Ssz.Renders τ v d) ∧
    (∀ v w d e, τ.admits v = true → τ.admits w = true →
      (Datum.ssz ⟨τ, v⟩).toBody = .ok d → (Datum.ssz ⟨τ, w⟩).toBody = .ok e →
      (d.same e = true ↔ v = w)) := by
  refine ⟨fun v hv => ⟨Ssz.toJson τ v, rfl, Ssz.renders_toJson τ hv⟩, ?_⟩
  intro v w d e hv hw hd he
  obtain rfl : Ssz.toJson τ v = d := Except.ok.inj hd
  obtain rfl : Ssz.toJson τ w = e := Except.ok.inj he
  exact Ssz.same_toJson_iff (Consensus.namesApart_of_within hσ hτ) hv hw

/-- Two attestations as they stand in block bodies, whose bits differ by one that is not set, have
different bodies. -/
theorem toBody_of_within_attestation :
    let τ : Schema := Consensus.attestation
    let rest : List Value := [Consensus.attestationData.default, Consensus.bytes96.default]
    let v : Value := .seq (.bits [true] :: rest)
    let w : Value := .seq (.bits [true, false] :: rest)
    Consensus.schemaNamed? .minimal "DenebBeaconBlockBody" =
        some (Consensus.blockBody .minimal .deneb) ∧
      τ.Within (Consensus.blockBody .minimal .deneb) ∧
      ∃ d e, (Datum.ssz ⟨τ, v⟩).toBody = .ok d ∧ (Datum.ssz ⟨τ, w⟩).toBody = .ok e ∧
        Ssz.Renders τ v d ∧ Ssz.Renders τ w e ∧ d.same e = false := by
  intro τ rest v w
  have hnamed : Consensus.schemaNamed? .minimal "DenebBeaconBlockBody" =
      some (Consensus.blockBody .minimal .deneb) := by
    rfl
  have hwithin : τ.Within (Consensus.blockBody .minimal .deneb) := by
    have hfield : ("attestations", Schema.list τ Preset.maxAttestations) ∈
        Consensus.bodyFields .minimal .deneb := by
      simp [Consensus.bodyFields, τ]
    exact .field _ hfield (.list _ (.self τ))
  have hv : τ.admits v = true := by decide
  have hw : τ.admits w = true := by decide
  obtain ⟨hbody, hsame⟩ := toBody_of_within hnamed hwithin
  obtain ⟨d, hd, hvd⟩ := hbody v hv
  obtain ⟨e, he, hwe⟩ := hbody w hw
  refine ⟨hnamed, hwithin, d, e, hd, he, hvd, hwe, ?_⟩
  rw [Bool.eq_false_iff, Ne, hsame v w d e hv hw hd he]
  intro heq
  simp [v, w] at heq

end BeaconHarness
