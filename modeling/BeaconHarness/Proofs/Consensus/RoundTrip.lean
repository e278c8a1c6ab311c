import BeaconHarness.Node.Api
import BeaconHarness.Proofs.Consensus.Contents
import BeaconHarness.Proofs.Ssz.RoundTrip
import BeaconHarness.Proofs.Text.Digits

/-!
# Payloads that come back

A node sends states and signed blocks as their encodings, together with the name of their fork. The
name finds the schema of the fork whatever its letter case, and every schema of the consensus layer
is separable, so a client has exactly the payload that the node had: the same fork and the same
value, field by field, and with them the same root. The sidecars of a block come without the name of
a fork, and as a list of fixed elements whose encodings are never too long.

Main statement: what is sent comes back, from the bytes alone and from the answer to a request
(`payloads_read_back`).
-/

namespace BeaconHarness

open Ssz (Schema Value Object)

/-! ## Schemas -/

theorem separable_schema (kind : PayloadKind) (p : Preset) (f : Fork) :
    (kind.schema p f).separable = true := by
  cases kind <;> cases p <;> cases f <;> rfl

theorem separable_blobSidecars (p : Preset) : (Consensus.blobSidecars p).separable = true := by
  cases p <;> rfl

theorem maxLength_blobSidecars_lt (p : Preset) :
    (Consensus.blobSidecars p).maxLength < Bytes.capacity Schema.offsetWidth := by
  cases p <;> decide

/-! ## Tags -/

/-- A text whose lower-case form is ASCII is lowered like one. -/
theorem lower_eq_toLower {s : String} (h : ∀ c ∈ s.toLower.toList, c.toNat < 128) :
    Text.lower s = s.toLower := by
  have hlist : s.toLower.toList = s.toList.map Char.toLower := String.toList_map
  have hascii : ∀ c ∈ s.toList, c.toNat < 128 := by
    intro c hc
    refine Text.toNat_lt_of_toLower_lt (h c.toLower ?_)
    rw [hlist]
    exact List.mem_map_of_mem hc
  unfold Text.lower
  rw [Text.lowerFrom_ascii hascii, ← hlist, String.ofList_toList]

/-- A tag names a fork in any letter case. -/
theorem Fork.ofTag_of_toLower {tag : String} {f : Fork} (h : tag.toLower = f.name) :
    Fork.ofTag (.str tag) = .ok f := by
  have hname : (f.name.toList.all fun c => decide (c.toNat < 128)) = true := by
    cases f <;> rfl
  have hascii : ∀ c ∈ tag.toLower.toList, c.toNat < 128 := by
    intro c hc
    rw [h] at hc
    exact of_decide_eq_true (List.all_eq_true.mp hname c hc)
  have hlower : Text.lower tag = f.name := (lower_eq_toLower hascii).trans h
  simp [Fork.ofTag, Datum.display, hlower, Fork.ofName?_name]

theorem Fork.ofTag_str (tag : String) :
    Fork.ofTag (.str tag) = match Fork.ofName? (Text.lower tag) with
      | some f => .ok f
      | none => .error (.unknownSchema tag) := rfl

theorem Fork.ofName?_eq_some_iff {s : String} {f : Fork} : ofName? s = some f ↔ s = f.name := by
  constructor
  · intro h
    rw [ofName?, List.find?_eq_some_iff_append] at h
    exact (of_decide_eq_true h.1).symm
  · rintro rfl
    exact ofName?_name f

/-- It names no other fork, and no fork in any other way. -/
theorem Fork.ofTag_eq_ok_iff {tag : String} {f : Fork} :
    Fork.ofTag (.str tag) = .ok f ↔ Text.lower tag = f.name := by
  rw [← ofName?_eq_some_iff, ofTag_str]
  cases Fork.ofName? (Text.lower tag) <;> simp

theorem Fork.ofTag_of_unknown {tag : String} (h : ∀ f : Fork, Text.lower tag ≠ f.name) :
    Fork.ofTag (.str tag) = .error (.unknownSchema tag) := by
  rw [ofTag_str]
  cases hname : Fork.ofName? (Text.lower tag) with
  | none => rfl
  | some f => exact absurd (ofName?_eq_some_iff.mp hname) (h f)

/-! ## Payloads -/

/-- A payload is read back from its encoding under the name of its fork. -/
theorem ofBytes_encode {kind : PayloadKind} {x : Versioned kind} {tag : String}
    (hx : x.Admitted) (hlength : x.encode.length < Bytes.capacity Schema.offsetWidth)
    (htag : tag.toLower = x.fork.name) :
    Versioned.ofBytes kind x.preset (.str tag) x.encode = .ok x := by
  have hread : Ssz.decodeBytes (kind.schema x.preset x.fork) x.encode = some x.value :=
    Ssz.decodeBytes_encode (separable_schema kind x.preset x.fork) hx hlength
  unfold Versioned.ofBytes
  rw [Fork.ofTag_of_toLower htag]
  simp only [bind, Except.bind, hread]
  rfl

namespace Node.Endpoint

variable {κ : Type}

/-! ## Answers -/

/-- Whether a request for the bytes at a path is answered: the reply comes in time, and its status
tells no failure. -/
structure Answers (e : Endpoint) (path : String) (alarms : List Alarm) (s : Stage (Link κ) Line)
    (reply : Reply) (t : Stage (Link κ) Line) : Prop where
  send : e.send .bytes path [] none alarms s = (.done reply, t)
  success : 200 ≤ reply.status ∧ reply.status < 300

/-- A session opens, if none is open, and leaves the network as it was. -/
theorem openSession_remote (e : Endpoint) (alarms : List Alarm) (s : Stage (Link κ) Line) :
    ∃ t, e.openSession alarms s = (.done (), t) ∧ t.world.remote = s.world.remote := by
  have hworld : Work.world alarms s = (.done s.world, s) := rfl
  unfold openSession
  rw [Work.andThen_of_done hworld]
  by_cases hopen : s.world.isOpen
  · rw [if_pos hopen]
    exact ⟨s, rfl, rfl⟩
  · rw [if_neg hopen]
    exact ⟨_, rfl, rfl⟩

/-- A reply that comes at once is in time for an endpoint that waits at all. -/
theorem await_of_atOnce {e : Endpoint} {reply : Reply}
    (hbound : e.rpcTimeout = .null ∨ e.rpcTimeout.isAtMost reply.delay = .ok false)
    (hdelay : reply.delay.truthy = false) (hfailure : reply.failure = none)
    (alarms : List Alarm) (s : Stage (Link κ) Line) :
    e.await reply alarms s = (.done reply, s) := by
  have hpause : (Work.pause reply.delay : Job κ Unit) alarms s = (.done (), s) := by
    unfold Work.pause
    rw [hdelay]
    rfl
  have hreply : Work.andThen (Work.pause reply.delay) (fun _ => Work.done reply) alarms s =
      (.done reply, s) := Work.andThen_of_done hpause
  unfold await
  rw [hfailure]
  cases htimeout : e.rpcTimeout with
  | null => simpa [bind, pure, Work.done, Work.andThen] using hreply
  | _ =>
    rw [htimeout] at hbound
    have hlate := hbound.resolve_left (by simp)
    simpa [bind, pure, Work.done, Work.andThen, Work.ofExcept, hlate] using hreply

/-- A reply that is set up with a status in the two hundreds answers a request, if it comes at
once. -/
theorem exists_answers {e : Endpoint} {path : String} {s : Stage (Link κ) Line} {reply : Reply}
    (alarms : List Alarm)
    (hreply : s.world.remote.replyTo ⟨e.address, Verb.bytes.name ++ " " ++ path⟩ = reply)
    (hbound : e.rpcTimeout = .null ∨ e.rpcTimeout.isAtMost reply.delay = .ok false)
    (hdelay : reply.delay.truthy = false) (hfailure : reply.failure = none)
    (hsuccess : 200 ≤ reply.status ∧ reply.status < 300) :
    ∃ t, e.Answers path alarms s reply t := by
  obtain ⟨t, hopened, hremote⟩ := e.openSession_remote alarms s
  have hnext : ∀ u : Stage (Link κ) Line, e.await (t.world.remote.replyTo
      ⟨e.address, Verb.bytes.name ++ " " ++ path⟩) alarms u = (.done reply, u) := by
    rw [hremote, hreply]
    exact await_of_atOnce hbound hdelay hfailure alarms
  have hsend : ∃ u, e.send .bytes path [] none alarms s = (.done reply, u) := by
    unfold send
    rw [Work.andThen_of_done hopened]
    exact ⟨_, hnext _⟩
  obtain ⟨u, hu⟩ := hsend
  exact ⟨u, hu, hsuccess⟩

/-- A stage at which a node gives one reply to every request for the bytes at a path. -/
def serving (e : Endpoint) (path : String) (reply : Reply) : Stage (Link Unit) Line :=
  { world :=
      { remote := ({} : Remote).setUp ⟨e.address, Verb.bytes.name ++ " " ++ path⟩ [reply]
        own := () } }

theorem replyTo_serving (e : Endpoint) (path : String) (reply : Reply) :
    (serving e path reply).world.remote.replyTo ⟨e.address, Verb.bytes.name ++ " " ++ path⟩ =
      reply := by
  simp [serving, Remote.setUp, Remote.replyTo]

/-- A client gets the version and the body of an answer. -/
theorem getBytes_of_answers {e : Endpoint} {path : String} {alarms : List Alarm}
    {s t : Stage (Link κ) Line} {reply : Reply} (h : e.Answers path alarms s reply t) :
    e.getBytes path alarms s = (.done (reply.version, reply.body), t) := by
  obtain ⟨hlow, hhigh⟩ := h.success
  have hfault : Reply.fault? reply path = none := by
    have hfound : ¬ reply.status = 404 := by omega
    have hrange : (decide (reply.status < 200) || decide (300 ≤ reply.status)) = false := by
      rw [Bool.or_eq_false_iff, decide_eq_false_iff_not, decide_eq_false_iff_not]
      omega
    simp [Reply.fault?, hfound, hrange]
  have hchecked : checked path reply alarms t = (.done reply, t) := by
    unfold checked
    rw [hfault]
    rfl
  unfold getBytes
  rw [Work.andThen_of_done h.send, Work.andThen_of_done hchecked]
  rfl

/-- The answer with the encoding of a payload gives the payload. -/
theorem payload_of_answers {kind : PayloadKind} {x : Versioned kind} {tag : String}
    (hx : x.Admitted) (hlength : x.encode.length < Bytes.capacity Schema.offsetWidth)
    (htag : tag.toLower = x.fork.name) {e : Endpoint} (hpreset : e.preset = x.preset)
    {path : String} {alarms : List Alarm} {s t : Stage (Link κ) Line} {reply : Reply}
    (h : e.Answers path alarms s reply t) (hversion : reply.version = some tag)
    (hbody : reply.body = x.encode) :
    payload kind e path alarms s = (.done x, t) := by
  unfold payload
  rw [Work.andThen_of_done (getBytes_of_answers h), hversion]
  simp only [hpreset, hbody, ofBytes_encode hx hlength htag]
  rfl

/-- The answer with the encoding of sidecars gives the sidecars. -/
theorem blobSidecars_of_answers {e : Endpoint} {id : Datum} {vs : List Value}
    (hvs : (Consensus.blobSidecars e.preset).admits (.seq vs) = true) {alarms : List Alarm}
    {s t : Stage (Link κ) Line} {reply : Reply}
    (h : e.Answers ("/eth/v1/beacon/blob_sidecars/" ++ id.pathText) alarms s reply t)
    (hbody : reply.body = Ssz.encode (Consensus.blobSidecars e.preset) (.seq vs)) :
    e.blobSidecars id alarms s =
      (.done (vs.map fun v => ⟨Consensus.blobSidecar e.preset, v⟩), t) := by
  have hlength := Nat.lt_of_le_of_lt (Ssz.length_encode_bounds hvs).2
    (maxLength_blobSidecars_lt e.preset)
  have hread : Ssz.decodeBytes (.list (Consensus.blobSidecar e.preset)
      e.preset.maxBlobCommitmentsPerBlock) reply.body = some (.seq vs) := by
    rw [hbody]
    exact Ssz.decodeBytes_encode (separable_blobSidecars e.preset) hvs hlength
  unfold blobSidecars
  rw [Work.andThen_of_done (getBytes_of_answers h)]
  simp only [hread]
  rfl

/-- What a node sends comes back: a state or signed block of any fork whose encoding is shorter than
four gigabytes, under the name of its fork in any letter case, from the bytes alone and from the
answer to a request for it; and the sidecars of a block, in their order. -/
theorem payloads_read_back :
    (∀ (kind : PayloadKind) (x : Versioned kind) (tag : String), x.Admitted →
      x.encode.length < 0x100000000 → tag.toLower = x.fork.name →
      Versioned.ofBytes kind x.preset (.str tag) x.encode = .ok x) ∧
    (∀ (κ : Type) (e : Endpoint) (id : Datum) (alarms : List Alarm) (s t : Stage (Link κ) Line)
        (reply : Reply) (x : VersionedState) (tag : String), x.Admitted →
      x.encode.length < 0x100000000 → tag.toLower = x.fork.name → e.preset = x.preset →
      e.Answers ("/eth/v2/debug/beacon/states/" ++ id.pathText) alarms s reply t →
      reply.version = some tag → reply.body = x.encode →
      e.state id alarms s = (.done x, t)) ∧
    (∀ (κ : Type) (e : Endpoint) (id : Datum) (alarms : List Alarm) (s t : Stage (Link κ) Line)
        (reply : Reply) (x : VersionedBlock) (tag : String), x.Admitted →
      x.encode.length < 0x100000000 → tag.toLower = x.fork.name → e.preset = x.preset →
      e.Answers ("/eth/v2/beacon/blocks/" ++ id.pathText) alarms s reply t →
      reply.version = some tag → reply.body = x.encode →
      e.block id alarms s = (.done x, t)) ∧
    (∀ (κ : Type) (e : Endpoint) (id : Datum) (alarms : List Alarm) (s t : Stage (Link κ) Line)
        (reply : Reply) (sidecars : List Value),
      sidecars.length ≤ e.preset.maxBlobCommitmentsPerBlock →
      (∀ v ∈ sidecars, (Consensus.blobSidecar e.preset).admits v = true) →
      e.Answers ("/eth/v1/beacon/blob_sidecars/" ++ id.pathText) alarms s reply t →
      reply.body = Ssz.encode (Consensus.blobSidecars e.preset) (.seq sidecars) →
      e.blobSidecars id alarms s =
        (.done (sidecars.map fun v => ⟨Consensus.blobSidecar e.preset, v⟩), t)) := by
  refine ⟨?_, ?_, ?_, ?_⟩
  · intro kind x tag hx hlength htag
    exact ofBytes_encode hx hlength htag
  · intro κ e id alarms s t reply x tag hx hlength htag hpreset h hversion hbody
    exact payload_of_answers hx hlength htag hpreset h hversion hbody
  · intro κ e id alarms s t reply x tag hx hlength htag hpreset h hversion hbody
    exact payload_of_answers hx hlength htag hpreset h hversion hbody
  · intro κ e id alarms s t reply sidecars hlimit hsidecars h hbody
    refine blobSidecars_of_answers ?_ h hbody
    show (decide (sidecars.length ≤ e.preset.maxBlobCommitmentsPerBlock) &&
      sidecars.all (Consensus.blobSidecar e.preset).admits) = true
    rw [Bool.and_eq_true, decide_eq_true_eq, List.all_eq_true]
    exact ⟨hlimit, hsidecars⟩

/-- A state with two validators, a block with attestations and transactions, and two sidecars come
back. -/
theorem payloads_read_back_attested :
    let e : Endpoint := ⟨"http://node", .int 3, .minimal⟩
    let x := VersionedState.registered .minimal .phase0
    let b := VersionedBlock.attested .minimal .deneb
    let sidecars := List.replicate 2 (Consensus.blobSidecar .minimal).default
    Versioned.ofBytes .state .minimal (.str "Phase0") x.encode = .ok x ∧
    (∃ t, e.state (.str "head") [] (serving e "/eth/v2/debug/beacon/states/head"
      { version := some "PHASE0", body := x.encode }) = (.done x, t)) ∧
    (∃ t, e.block (.str "head") [] (serving e "/eth/v2/beacon/blocks/head"
      { version := some "deneb", body := b.encode }) = (.done b, t)) ∧
    (∃ t, e.blobSidecars (.str "head") [] (serving e "/eth/v1/beacon/blob_sidecars/head"
      { body := Ssz.encode (Consensus.blobSidecars .minimal) (.seq sidecars) }) =
        (.done (sidecars.map fun v => ⟨Consensus.blobSidecar .minimal, v⟩), t)) := by
  intro e x b sidecars
  have hx : x.encode.length < 0x100000000 := by decide +kernel
  have hb : b.encode.length < 0x100000000 := by decide +kernel
  have hxa : x.Admitted := VersionedState.admitted_registered .minimal .phase0
  have hba : b.Admitted := VersionedBlock.admitted_attested .minimal rfl
  have hbound : e.rpcTimeout = .null ∨ e.rpcTimeout.isAtMost (.int 0) = .ok false := by
    right
    exact Datum.isAtMost_int 3 0
  have hmixed : "Phase0".toLower = "phase0" := by decide +kernel
  have hupper : "PHASE0".toLower = "phase0" := by decide +kernel
  have hlower : "deneb".toLower = "deneb" := by decide +kernel
  obtain ⟨hbytes, hstate, hblock, hsidecars⟩ := payloads_read_back
  refine ⟨?_, ?_, ?_, ?_⟩
  · exact hbytes .state x "Phase0" hxa hx hmixed
  · obtain ⟨t, ht⟩ := exists_answers [] (replyTo_serving e "/eth/v2/debug/beacon/states/head"
      { version := some "PHASE0", body := x.encode }) hbound rfl rfl (by decide)
    exact ⟨t, hstate Unit e (.str "head") [] _ t _ x "PHASE0" hxa hx hupper rfl ht rfl rfl⟩
  · obtain ⟨t, ht⟩ := exists_answers [] (replyTo_serving e "/eth/v2/beacon/blocks/head"
      { version := some "deneb", body := b.encode }) hbound rfl rfl (by decide)
    exact ⟨t, hblock Unit e (.str "head") [] _ t _ b "deneb" hba hb hlower rfl ht rfl rfl⟩
  · obtain ⟨t, ht⟩ := exists_answers [] (replyTo_serving e "/eth/v1/beacon/blob_sidecars/head"
      { body := Ssz.encode (Consensus.blobSidecars .minimal) (.seq sidecars) }) hbound rfl rfl
      (by decide)
    refine ⟨t, hsidecars Unit e (.str "head") [] _ t _ sidecars ?_ ?_ ht rfl⟩
    · show 2 ≤ e.preset.maxBlobCommitmentsPerBlock
      decide
    · intro v hv
      rw [List.eq_of_mem_replicate hv]
      exact Schema.admits_default (Consensus.blobSidecar .minimal)

end Node.Endpoint

end BeaconHarness
