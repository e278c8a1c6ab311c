import BeaconHarness.Node.Api
import BeaconHarness.Proofs.Consensus.Records
import BeaconHarness.Proofs.Datum.Reading

/-!
# Answers that come back

A node writes a value into the body of an answer by one recursion over the value's schema, and a
client reads the body entry by entry, each endpoint in its own way: some take texts behind a mark
for hexadecimal numbers, some pass over the first two characters of a byte string whatever they are.
On what the recursion writes, all of these agree, and what a client reads is the value that the node
had.

Whatever surrounds the value in the answer is read beside it: roots, flags, positions and balances
in any form that has a reading.

Main statement: headers, validators, checkpoints, fork records and lists of withdrawals come back
(`Endpoint.answers_read_back`).
-/

namespace BeaconHarness

namespace Datum

/-- Values of one schema are written one by one. -/
theorem toBodies_ssz (τ : Ssz.Schema) (vs : List Ssz.Value) :
    toBodies (vs.map fun v => ssz ⟨τ, v⟩) = .ok (vs.map (Ssz.toJson τ)) := by
  induction vs with
  | nil => rfl
  | cons v vs ih =>
    have hv : toBody (ssz ⟨τ, v⟩) = .ok (Ssz.toJson τ v) := rfl
    rw [List.map_cons, toBodies, hv, ih]
    rfl

theorem toBody_list (τ : Ssz.Schema) (vs : List Ssz.Value) :
    toBody (list (vs.map fun v => ssz ⟨τ, v⟩)) = .ok (list (vs.map (Ssz.toJson τ))) := by
  rw [toBody, toBodies_ssz]

theorem entry_of_lookup {entries : List (Datum × Datum)} {key : String} {d : Datum}
    (h : lookup key entries = some d) : (dict entries).entry key = .ok d := by
  simp only [entry, h]

end Datum

namespace Node

open Consensus (BlockHeader SignedHeader Checkpoint Validator Withdrawal ForkRecord)
open Datum (lookup entry_of_lookup)
open Ssz (Value)

/-! ## Entries -/

section

variable {d : Datum} {key : String}

/-- Whatever fits into eight bytes has few enough digits to be converted. -/
theorem lt_digitLimit {n : Nat} (h : n < Bytes.capacity 8) :
    n < Nat.pow 10 Text.Integer.digitLimit :=
  Text.Integer.lt_pow_digitLimit (Nat.lt_of_lt_of_le h (by decide))

theorem integerAt_of_entry {n : Nat} (h : d.entry key = .ok (.str (toString n)))
    (hn : n < Bytes.capacity 8) : integerAt d key = .ok n := by
  unfold integerAt
  rw [h]
  exact Datum.integer_decimal (lt_digitLimit hn)

theorem bytesAt_of_entry {b : Bytes} (h : d.entry key = .ok (.str (Text.Hex.marked b))) :
    bytesAt d key = .ok b := by
  unfold bytesAt
  rw [h]
  exact Datum.hexBytes_marked b

theorem flagAt_dict (entries : List (Datum × Datum)) (key : String) :
    flagAt (.dict entries) key = .ok ((lookup key entries).getD (.bool false)).truthy := rfl

end

/-! ## Values -/

section

variable {v : Value}

/-- A header is read from its JSON form, whatever root and flags surround it. -/
theorem exists_headerInfo (hv : Consensus.signedBeaconBlockHeader.admits v = true) :
    ∃ h : SignedHeader, h.toValue = v ∧
      ∀ (outer inner : List (Datum × Datum)) (shown : Datum) (root : Bytes),
        lookup "data" outer = some (.dict inner) →
        lookup "header" inner = some (Ssz.toJson Consensus.signedBeaconBlockHeader v) →
        lookup "root" inner = some shown → shown.hexBytes = .ok root →
        HeaderInfo.ofDatum (.dict outer) = .ok {
          root
          canonical := ((lookup "canonical" inner).getD (.bool false)).truthy
          header := h
          executionOptimistic := ((lookup "execution_optimistic" outer).getD (.bool false)).truthy
          finalized := ((lookup "finalized" outer).getD (.bool false)).truthy } := by
  obtain ⟨h, rfl, hadmits, hsigned⟩ := SignedHeader.exists_of_admits hv
  obtain ⟨message, hmessage, hslot, hproposer, hmake⟩ := BlockHeader.exists_of_admits hadmits
  obtain rfl : message = h.message := by
    have := congrArg BlockHeader.ofValue? hmessage
    simpa [BlockHeader.ofValue?_toValue] using this
  refine ⟨h, rfl, ?_⟩
  intro outer inner shown root hdata hheader hroot hshown
  -- The entries of the JSON forms are found by evaluation.
  let m := Ssz.toJson Consensus.beaconBlockHeader h.message.toValue
  have hmessage : (Ssz.toJson Consensus.signedBeaconBlockHeader h.toValue).entry "message" =
      .ok m := rfl
  have hslot : integerAt m "slot" = .ok h.message.slot := integerAt_of_entry rfl hslot
  have hproposer : integerAt m "proposer_index" = .ok h.message.proposerIndex :=
    integerAt_of_entry rfl hproposer
  have hparent : bytesAt m "parent_root" = .ok h.message.parentRoot := bytesAt_of_entry rfl
  have hstate : bytesAt m "state_root" = .ok h.message.stateRoot := bytesAt_of_entry rfl
  have hbody : bytesAt m "body_root" = .ok h.message.bodyRoot := bytesAt_of_entry rfl
  have hsignature : bytesAt (Ssz.toJson Consensus.signedBeaconBlockHeader h.toValue) "signature" =
      .ok h.signature := bytesAt_of_entry rfl
  have hrootAt : bytesAt (.dict inner) "root" = .ok root := by
    unfold bytesAt
    rw [entry_of_lookup hroot]
    exact hshown
  unfold HeaderInfo.ofDatum
  simp only [bind, Except.bind, entry_of_lookup hdata, entry_of_lookup hheader, hmessage, hslot,
    hproposer, hparent, hstate, hbody, hmake, hsignature, hsigned, hrootAt, flagAt_dict]
  rfl

theorem exists_validatorOf (hv : Consensus.validator.admits v = true) :
    ∃ w : Validator, w.toValue = v ∧
      ValidatorInfo.validatorOf (Ssz.toJson Consensus.validator v) = .ok w := by
  obtain ⟨w, rfl, hbalance, hepochs, hmake⟩ := Validator.exists_of_admits hv
  refine ⟨w, rfl, ?_⟩
  let d := Ssz.toJson Consensus.validator w.toValue
  have hpubkey : bytesAt d "pubkey" = .ok w.pubkey := bytesAt_of_entry rfl
  have hcredentials : bytesAt d "withdrawal_credentials" = .ok w.withdrawalCredentials :=
    bytesAt_of_entry rfl
  have hbalance : integerAt d "effective_balance" = .ok w.effectiveBalance :=
    integerAt_of_entry rfl hbalance
  have hslashed : d.entry "slashed" = .ok (.bool w.slashed) := rfl
  have heligibility : integerAt d "activation_eligibility_epoch" =
      .ok w.activationEligibilityEpoch :=
    integerAt_of_entry rfl (hepochs _ (by simp [Validator.epochs]))
  have hactivation : integerAt d "activation_epoch" = .ok w.activationEpoch :=
    integerAt_of_entry rfl (hepochs _ (by simp [Validator.epochs]))
  have hexit : integerAt d "exit_epoch" = .ok w.exitEpoch :=
    integerAt_of_entry rfl (hepochs _ (by simp [Validator.epochs]))
  have hwithdrawable : integerAt d "withdrawable_epoch" = .ok w.withdrawableEpoch :=
    integerAt_of_entry rfl (hepochs _ (by simp [Validator.epochs]))
  unfold ValidatorInfo.validatorOf
  simp only [bind, Except.bind, d, hpubkey, hcredentials, hbalance, hslashed, heligibility,
    hactivation, hexit, hwithdrawable]
  exact hmake

/-- A validator is read from its JSON form, whatever position, balance and status surround it. -/
theorem exists_validatorInfo (hv : Consensus.validator.admits v = true) :
    ∃ w : Validator, w.toValue = v ∧
      ∀ (entries : List (Datum × Datum)) (index balance : Int) (status : Datum),
        lookup "validator" entries = some (Ssz.toJson Consensus.validator v) →
        integerAt (.dict entries) "index" = .ok index →
        integerAt (.dict entries) "balance" = .ok balance →
        lookup "status" entries = some status →
        ValidatorInfo.ofDatum (.dict entries) = .ok ⟨index, balance, status, w⟩ := by
  obtain ⟨w, hw, hread⟩ := exists_validatorOf hv
  refine ⟨w, hw, ?_⟩
  intro entries index balance status hvalidator hindex hbalance hstatus
  unfold ValidatorInfo.ofDatum
  simp only [bind, Except.bind, entry_of_lookup hvalidator, hread, hindex, hbalance,
    entry_of_lookup hstatus]
  rfl

theorem exists_checkpoint (hv : Consensus.checkpoint.admits v = true) :
    ∃ c : Checkpoint, c.toValue = v ∧
      checkpointOf (Ssz.toJson Consensus.checkpoint v) = .ok c := by
  obtain ⟨c, rfl, hepoch, hmake⟩ := Checkpoint.exists_of_admits hv
  refine ⟨c, rfl, ?_⟩
  let d := Ssz.toJson Consensus.checkpoint c.toValue
  have hepoch : integerAt d "epoch" = .ok c.epoch := integerAt_of_entry rfl hepoch
  have hroot : bytesAt d "root" = .ok c.root := bytesAt_of_entry rfl
  unfold checkpointOf
  simp only [bind, Except.bind, d, hepoch, hroot]
  exact hmake

/-- Three checkpoints are read each from its own entry. -/
theorem finality_of_checkpoints {entries : List (Datum × Datum)}
    {previous current finalized : Datum} {f : Finality}
    (hprevious : lookup "previous_justified" entries = some previous)
    (hcurrent : lookup "current_justified" entries = some current)
    (hfinalized : lookup "finalized" entries = some finalized)
    (hp : checkpointOf previous = .ok f.previousJustified)
    (hc : checkpointOf current = .ok f.currentJustified)
    (hf : checkpointOf finalized = .ok f.finalized) :
    Finality.ofDatum (.dict entries) = .ok f := by
  unfold Finality.ofDatum
  simp only [bind, Except.bind, entry_of_lookup hprevious, entry_of_lookup hcurrent,
    entry_of_lookup hfinalized, hp, hc, hf]
  rfl

namespace Endpoint

theorem exists_forkRecord (hv : Consensus.forkRecord.admits v = true) :
    ∃ r : ForkRecord, r.toValue = v ∧
      ∀ entries : List (Datum × Datum),
        lookup "data" entries = some (Ssz.toJson Consensus.forkRecord v) →
        forkRecordOf (.dict entries) = .ok r := by
  obtain ⟨r, rfl, hepoch, hmake⟩ := ForkRecord.exists_of_admits hv
  refine ⟨r, rfl, ?_⟩
  intro entries hdata
  let d := Ssz.toJson Consensus.forkRecord r.toValue
  have hprevious : d.entry "previous_version" =
      .ok (.str (Text.Hex.marked r.previousVersion)) := rfl
  have hcurrent : d.entry "current_version" =
      .ok (.str (Text.Hex.marked r.currentVersion)) := rfl
  have hepochAt : d.entry "epoch" = .ok (.str (toString r.epoch)) := rfl
  unfold forkRecordOf
  simp only [bind, Except.bind, entry_of_lookup hdata, d, hprevious, hcurrent, hepochAt,
    Datum.hexBytesPastMark_marked, Datum.plainInteger_decimal (lt_digitLimit hepoch)]
  exact hmake

theorem exists_withdrawal (hv : Consensus.withdrawal.admits v = true) :
    ∃ w : Withdrawal, w.toValue = v ∧
      withdrawalOf (Ssz.toJson Consensus.withdrawal v) = .ok w := by
  obtain ⟨w, rfl, hindex, hvalidator, hamount, hmake⟩ := Withdrawal.exists_of_admits hv
  refine ⟨w, rfl, ?_⟩
  let d := Ssz.toJson Consensus.withdrawal w.toValue
  have hindexAt : d.entry "index" = .ok (.str (toString w.index)) := rfl
  have hvalidatorAt : d.entry "validator_index" = .ok (.str (toString w.validatorIndex)) := rfl
  have haddress : d.entry "address" = .ok (.str (Text.Hex.marked w.address)) := rfl
  have hamountAt : d.entry "amount" = .ok (.str (toString w.amount)) := rfl
  unfold withdrawalOf
  simp only [bind, Except.bind, d, hindexAt, hvalidatorAt, haddress, hamountAt,
    Datum.hexBytesPastMark_marked, Datum.plainInteger_decimal (lt_digitLimit hindex),
    Datum.plainInteger_decimal (lt_digitLimit hvalidator),
    Datum.plainInteger_decimal (lt_digitLimit hamount)]
  exact hmake

/-- Withdrawals are read one by one, in their order. -/
theorem exists_withdrawals {vs : List Value}
    (hvs : ∀ v ∈ vs, Consensus.withdrawal.admits v = true) :
    ∃ ws : List Withdrawal, ws.map Withdrawal.toValue = vs ∧
      (vs.map (Ssz.toJson Consensus.withdrawal)).mapM withdrawalOf = .ok ws := by
  induction vs with
  | nil => exact ⟨[], rfl, rfl⟩
  | cons v vs ih =>
    obtain ⟨w, hw, hread⟩ := exists_withdrawal (hvs v List.mem_cons_self)
    obtain ⟨ws, hws, hreads⟩ := ih fun v hv => hvs v (List.mem_cons_of_mem _ hv)
    refine ⟨w :: ws, ?_, ?_⟩
    · rw [List.map_cons, hw, hws]
    · rw [List.map_cons, List.mapM_cons, hread, hreads]
      rfl

end Endpoint

end

/-! ## Answers -/

namespace Endpoint

variable {κ : Type}

/-- What a node wrote into an answer is what a client reads: the signed header of a block, whatever
root and flags surround it; a validator, whatever position, balance and status surround it; the
three checkpoints of a state; a fork record; and withdrawals in their order. -/
theorem answers_read_back :
    (∀ v : Value, Consensus.signedBeaconBlockHeader.admits v = true →
      ∃ body, (Datum.ssz ⟨Consensus.signedBeaconBlockHeader, v⟩).toBody = .ok body ∧
      ∃ h : SignedHeader, h.toValue = v ∧
        ∀ (outer inner : List (Datum × Datum)) (shown : Datum) (root : Bytes),
          lookup "data" outer = some (.dict inner) → lookup "header" inner = some body →
          lookup "root" inner = some shown → shown.hexBytes = .ok root →
          HeaderInfo.ofDatum (.dict outer) = .ok {
            root
            canonical := ((lookup "canonical" inner).getD (.bool false)).truthy
            header := h
            executionOptimistic :=
              ((lookup "execution_optimistic" outer).getD (.bool false)).truthy
            finalized := ((lookup "finalized" outer).getD (.bool false)).truthy }) ∧
    (∀ v : Value, Consensus.validator.admits v = true →
      ∃ body, (Datum.ssz ⟨Consensus.validator, v⟩).toBody = .ok body ∧
      ∃ w : Validator, w.toValue = v ∧
        ∀ (entries : List (Datum × Datum)) (index balance : Int) (status : Datum),
          lookup "validator" entries = some body →
          integerAt (.dict entries) "index" = .ok index →
          integerAt (.dict entries) "balance" = .ok balance →
          lookup "status" entries = some status →
          ValidatorInfo.ofDatum (.dict entries) = .ok ⟨index, balance, status, w⟩) ∧
    (∀ p c f : Value, Consensus.checkpoint.admits p = true →
      Consensus.checkpoint.admits c = true → Consensus.checkpoint.admits f = true →
      ∃ previous current finalized,
        (Datum.ssz ⟨Consensus.checkpoint, p⟩).toBody = .ok previous ∧
        (Datum.ssz ⟨Consensus.checkpoint, c⟩).toBody = .ok current ∧
        (Datum.ssz ⟨Consensus.checkpoint, f⟩).toBody = .ok finalized ∧
      ∃ r : Finality, r.previousJustified.toValue = p ∧ r.currentJustified.toValue = c ∧
        r.finalized.toValue = f ∧
        ∀ entries : List (Datum × Datum),
          lookup "previous_justified" entries = some previous →
          lookup "current_justified" entries = some current →
          lookup "finalized" entries = some finalized →
          Finality.ofDatum (.dict entries) = .ok r) ∧
    (∀ v : Value, Consensus.forkRecord.admits v = true →
      ∃ body, (Datum.ssz ⟨Consensus.forkRecord, v⟩).toBody = .ok body ∧
      ∃ r : ForkRecord, r.toValue = v ∧
        ∀ (κ : Type) (e : Endpoint) (id : Datum) (alarms : List Alarm)
          (s t : Stage (Link κ) Line) (entries : List (Datum × Datum)),
          e.getJson (statePath id "/fork") [] alarms s = (.done (.dict entries), t) →
          lookup "data" entries = some body →
          e.forkRecord id alarms s = (.done r, t)) ∧
    (∀ vs : List Value, (∀ v ∈ vs, Consensus.withdrawal.admits v = true) →
      ∃ body, (Datum.list (vs.map fun v => .ssz ⟨Consensus.withdrawal, v⟩)).toBody = .ok body ∧
      ∃ ws : List Withdrawal, ws.map Withdrawal.toValue = vs ∧
        ∀ (κ : Type) (e : Endpoint) (id : Datum) (alarms : List Alarm)
          (s t : Stage (Link κ) Line) (entries : List (Datum × Datum)),
          e.getJson ("/eth/v1/builder/states/" ++ id.pathText ++ "/expected_withdrawals") []
            alarms s = (.done (.dict entries), t) →
          lookup "data" entries = some body →
          e.expectedWithdrawals id alarms s = (.done ws, t)) := by
  refine ⟨?_, ?_, ?_, ?_, ?_⟩
  · intro v hv
    exact ⟨_, rfl, exists_headerInfo hv⟩
  · intro v hv
    exact ⟨_, rfl, exists_validatorInfo hv⟩
  · intro p c f hp hc hf
    obtain ⟨previous, hprevious, hpread⟩ := exists_checkpoint hp
    obtain ⟨current, hcurrent, hcread⟩ := exists_checkpoint hc
    obtain ⟨finalized, hfinalized, hfread⟩ := exists_checkpoint hf
    refine ⟨_, _, _, rfl, rfl, rfl, ⟨previous, current, finalized⟩, hprevious, hcurrent,
      hfinalized, ?_⟩
    intro entries hp hc hf
    exact finality_of_checkpoints hp hc hf hpread hcread hfread
  · intro v hv
    obtain ⟨r, hr, hread⟩ := exists_forkRecord hv
    refine ⟨_, rfl, r, hr, ?_⟩
    intro κ e id alarms s t entries hanswer hdata
    unfold forkRecord
    rw [Work.andThen_of_done hanswer, hread entries hdata]
    rfl
  · intro vs hvs
    obtain ⟨ws, hws, hread⟩ := exists_withdrawals hvs
    refine ⟨_, Datum.toBody_list Consensus.withdrawal vs, ws, hws, ?_⟩
    intro κ e id alarms s t entries hanswer hdata
    have hitems : dataItems (.dict entries) =
        .ok (vs.map (Ssz.toJson Consensus.withdrawal)) := by
      unfold dataItems Datum.entryOr
      simp only [bind, Except.bind, hdata]
      rfl
    unfold expectedWithdrawals
    rw [Work.andThen_of_done hanswer]
    simp only [bind, Except.bind, hitems, hread]
    rfl

/-- A stage at which a node gives one body to every request for JSON at a path. -/
def answering (e : Endpoint) (path : String) (body : Datum) : Stage (Link Unit) Line :=
  { world :=
      { remote := ({} : Remote).setUp ⟨e.address, Verb.json.name ++ " " ++ path⟩
          [{ json := some body }]
        own := () } }

/-- The largest numbers come back, a root without its mark and in capitals, and two withdrawals. -/
theorem answers_read_back_largest :
    let e : Endpoint := ⟨"http://node", .null, .minimal⟩
    let most : Value := .uint 0xffffffffffffffff
    let root : Value := .bytes (Bytes.zeros 32)
    let header : Value := .seq [.seq [most, most, root, root, root], .bytes (Bytes.zeros 96)]
    let validator : Value :=
      .seq [.bytes (Bytes.zeros 48), root, most, .boolean true, most, most, most, most]
    let checkpoint : Value := .seq [most, root]
    let fork : Value := .seq [.bytes [0, 0, 0, 1], .bytes [1, 0, 0, 1], most]
    let withdrawals : List Value :=
      [.seq [.uint 0, .uint 7, .bytes (Bytes.zeros 20), most],
        .seq [.uint 1, most, .bytes (Bytes.zeros 20), .uint 1]]
    (∃ h : SignedHeader, h.toValue = header ∧
      HeaderInfo.ofDatum (.record [("execution_optimistic", .int 1), ("data", .record [
        ("root", .str "ABcd"),
        ("header", Ssz.toJson Consensus.signedBeaconBlockHeader header)])]) =
        .ok ⟨[0xab, 0xcd], false, h, true, false⟩) ∧
    (∃ w : Validator, w.toValue = validator ∧
      ValidatorInfo.ofDatum (.record [("index", .str "0x10"), ("balance", .str "32"),
        ("status", .null), ("validator", Ssz.toJson Consensus.validator validator)]) =
        .ok ⟨16, 32, .null, w⟩) ∧
    (∃ f : Finality, f.finalized.toValue = checkpoint ∧
      Finality.ofDatum (.record [
        ("previous_justified", Ssz.toJson Consensus.checkpoint checkpoint),
        ("current_justified", Ssz.toJson Consensus.checkpoint checkpoint),
        ("finalized", Ssz.toJson Consensus.checkpoint checkpoint)]) = .ok f) ∧
    (∃ r : ForkRecord, r.toValue = fork ∧ ∃ t,
      e.forkRecord (.str "head") [] (answering e "/eth/v1/beacon/states/head/fork"
        (.record [("data", Ssz.toJson Consensus.forkRecord fork)])) = (.done r, t)) ∧
    (∃ ws : List Withdrawal, ws.map Withdrawal.toValue = withdrawals ∧ ∃ t,
      e.expectedWithdrawals (.str "head") [] (answering e
        "/eth/v1/builder/states/head/expected_withdrawals"
        (.record [("data", .list (withdrawals.map (Ssz.toJson Consensus.withdrawal)))])) =
        (.done ws, t)) := by
  intro e most root header validator checkpoint fork withdrawals
  obtain ⟨hheader, hvalidator, hfinality, hfork, hwithdrawals⟩ := answers_read_back
  refine ⟨?_, ?_, ?_, ?_, ?_⟩
  · obtain ⟨body, hbody, h, hh, hread⟩ := hheader header (by decide +kernel)
    obtain rfl := Except.ok.inj hbody
    let inner : List (Datum × Datum) := [(.str "root", .str "ABcd"),
      (.str "header", Ssz.toJson Consensus.signedBeaconBlockHeader header)]
    let outer : List (Datum × Datum) := [(.str "execution_optimistic", .int 1),
      (.str "data", .dict inner)]
    exact ⟨h, hh, hread outer inner (.str "ABcd") [0xab, 0xcd] rfl rfl rfl (by decide +kernel)⟩
  · obtain ⟨body, hbody, w, hw, hread⟩ := hvalidator validator (by decide +kernel)
    obtain rfl := Except.ok.inj hbody
    exact ⟨w, hw, hread _ 16 32 .null rfl (by rfl) (by rfl) rfl⟩
  · obtain ⟨previous, current, finalized, hprevious, hcurrent, hfinalized, f, -, -, hf, hread⟩ :=
      hfinality checkpoint checkpoint checkpoint (by decide +kernel) (by decide +kernel)
        (by decide +kernel)
    obtain rfl := Except.ok.inj hprevious
    obtain rfl := Except.ok.inj hcurrent
    obtain rfl := Except.ok.inj hfinalized
    exact ⟨f, hf, hread _ rfl rfl rfl⟩
  · obtain ⟨body, hbody, r, hr, hread⟩ := hfork fork (by decide +kernel)
    obtain rfl := Except.ok.inj hbody
    exact ⟨r, hr, _, hread Unit e (.str "head") [] _ _ _ rfl rfl⟩
  · obtain ⟨body, hbody, ws, hws, hread⟩ := hwithdrawals withdrawals (by
      intro v hv
      simp only [withdrawals, List.mem_cons, List.not_mem_nil, or_false] at hv
      rcases hv with rfl | rfl <;> decide +kernel)
    rw [Datum.toBody_list] at hbody
    obtain rfl := Except.ok.inj hbody
    exact ⟨ws, hws, _, hread Unit e (.str "head") [] _ _ _ rfl rfl⟩

end Endpoint

end Node

end BeaconHarness
