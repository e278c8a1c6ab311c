import BeaconHarness.Proofs.Consensus.Acceptance
import BeaconHarness.Proofs.Node.Inquiry

/-!
# Statuses and tags

With a status outside the two hundreds a call fails as the status tells, whatever else is in the
reply, and what is in its body is never read as an answer. The status 404 is told as something that
was not found, and any other one with the text of the reply. That needs a text: if the body is none,
the call fails with that, and the status is lost.

A state or a block is decoded only under the fork that the reply names.

Main statement: `calls_check_status`.
-/

namespace BeaconHarness

/-- The status that a failed request was answered with. -/
def Failure.status? : Failure → Option Int
  | api status _ => some status
  | notFound _ => some 404
  | _ => none

namespace Node.Endpoint

open Work (ended ended_eq_done_iff)

variable {κ α : Type} {e : Endpoint} {r : Remote} {reply : Reply} {path : String}

/-! ## Bad statuses -/

/-- How a request fails on a path whose reply has a bad status, whatever else is in the reply. The
failure may pass, and knows the status, exactly if the status is 404 or the reply has a text. -/
structure FailsAs (o : Outcome α) (path : String) (reply : Reply) (f : Failure) : Prop where
  outcome : o = .failed f
  missing : reply.status = 404 → f = .notFound (path ++ " not found")
  told : reply.status ≠ 404 → ∀ text, reply.text = some text → f = .api reply.status text
  untold : reply.status ≠ 404 → reply.text = none → f = .notText
  transient_iff : f.isTransient = true ↔ reply.status = 404 ∨ reply.text ≠ none
  api_iff : f.isOneOf [.api] = true ↔ reply.status = 404 ∨ reply.text ≠ none
  status_iff : f.status? = some reply.status ↔ reply.status = 404 ∨ reply.text ≠ none
  notReady_iff : f.isOneOf [.notReady] = true ↔ reply.status = 404

theorem failsAs_of_missing (hmissing : reply.status = 404) :
    FailsAs (.failed (.notFound (path ++ " not found")) : Outcome α) path reply
      (.notFound (path ++ " not found")) where
  outcome := rfl
  missing _ := rfl
  told hother := absurd hmissing hother
  untold hother := absurd hmissing hother
  transient_iff := iff_of_true rfl (.inl hmissing)
  api_iff := iff_of_true rfl (.inl hmissing)
  status_iff := iff_of_true (congrArg some hmissing.symm) (.inl hmissing)
  notReady_iff := iff_of_true rfl hmissing

theorem failsAs_of_text {text : String} (hother : reply.status ≠ 404)
    (htext : reply.text = some text) :
    FailsAs (.failed (.api reply.status text) : Outcome α) path reply
      (.api reply.status text) where
  outcome := rfl
  missing hmissing := absurd hmissing hother
  told _ other h := by rw [Option.some.inj (htext.symm.trans h)]
  untold _ hnone := by rw [htext] at hnone; cases hnone
  transient_iff := iff_of_true rfl (.inr (by rw [htext]; exact Option.some_ne_none _))
  api_iff := iff_of_true rfl (.inr (by rw [htext]; exact Option.some_ne_none _))
  status_iff := iff_of_true rfl (.inr (by rw [htext]; exact Option.some_ne_none _))
  notReady_iff := iff_of_false Bool.false_ne_true hother

theorem failsAs_of_no_text (hother : reply.status ≠ 404) (htext : reply.text = none) :
    FailsAs (.failed .notText : Outcome α) path reply .notText := by
  have hneither : ¬ (reply.status = 404 ∨ reply.text ≠ none) := by
    rintro (hmissing | htold)
    · exact hother hmissing
    · exact htold htext
  exact {
    outcome := rfl
    missing := fun hmissing => absurd hmissing hother
    told := fun _ text h => by rw [htext] at h; cases h
    untold := fun _ _ => rfl
    transient_iff := iff_of_false Bool.false_ne_true hneither
    api_iff := iff_of_false Bool.false_ne_true hneither
    status_iff := iff_of_false nofun hneither
    notReady_iff := iff_of_false Bool.false_ne_true hother }

/-- A bad status is told in one of these ways. -/
theorem exists_failsAs (path : String) (hbad : reply.status < 200 ∨ 300 ≤ reply.status) :
    ∃ f, Reply.fault? reply path = some f ∧ FailsAs (.failed f : Outcome α) path reply f := by
  by_cases hmissing : reply.status = 404
  · exact ⟨_, fault?_of_missing path hmissing, failsAs_of_missing hmissing⟩
  · rw [fault?_of_bad path hmissing hbad]
    cases htext : reply.text with
    | some text => exact ⟨_, rfl, failsAs_of_text hmissing htext⟩
    | none => exact ⟨_, rfl, failsAs_of_no_text hmissing htext⟩

section Exchanges

variable {verb : Verb} {read : Reply → Except Failure α}

/-- What a checked request comes to when a reply has come. -/
theorem exchange_readAccepted (hreply : r.replyTo (e.route verb path) = reply)
    (hreceived : e.received reply = .ok reply) :
    e.exchange verb path (readAccepted path read) r = match Reply.fault? reply path with
      | some f => .error f
      | none => read reply := by
  subst hreply
  rw [exchange_of_received hreceived, readAccepted, accepted]
  cases Reply.fault? (r.replyTo (e.route verb path)) path <;> rfl

/-- It gives a value only for a reply with a good status, and then what is read of the reply. -/
theorem exchange_readAccepted_eq_ok_iff (hreply : r.replyTo (e.route verb path) = reply) {a : α} :
    e.exchange verb path (readAccepted path read) r = .ok a ↔
      (e.received reply = .ok reply ∧ 200 ≤ reply.status ∧ reply.status < 300)
        ∧ read reply = .ok a := by
  cases hreceived : e.received reply with
  | error f =>
    rw [exchange_of_reply hreply, hreceived]
    exact ⟨nofun, fun h => nomatch h.1.1⟩
  | ok received =>
    obtain ⟨-, -, rfl⟩ := received_eq_ok_iff.mp hreceived
    have hgood : Reply.fault? received path = none ↔ _ := fault?_eq_none_iff
    rw [exchange_readAccepted hreply hreceived, ← hgood]
    cases Reply.fault? received path with
    | none => simp
    | some f => simp

end Exchanges

/-- What becomes of a call for which a request is made, or for which none can be made.

In the second case the call fails with what is wrong with its arguments, and sends nothing. In the
first one it makes the request, gives a value only for a reply with a good status, and fails as told
for one with a bad status, or as the transport does for none. -/
inductive Decided (e : Endpoint) (o : Outcome α) (r r' : Remote) :
    Except Failure (Verb × String) → Prop
  | refused {f : Failure} (ho : o = .failed f) (hr : r' = r) : Decided e o r r' (.error f)
  | asked {verb : Verb} {path : String} (reply : Reply)
    (hr : r' = (r.next (e.route verb path)).2) (hreply : r.replyTo (e.route verb path) = reply)
    (hdone : ∀ a, o = .done a →
      e.received reply = .ok reply ∧ 200 ≤ reply.status ∧ reply.status < 300)
    (hlost : ∀ f, e.received reply = .error f → o = .failed f)
    (hbad : e.received reply = .ok reply → reply.status < 200 ∨ 300 ≤ reply.status →
      ∃ f, FailsAs o path reply f) : Decided e o r r' (.ok (verb, path))

theorem Checks.decided {work : Job κ α} {s : Stage (Link κ) Line}
    {asked : Except Failure (Verb × String)} (h : Checks e work s asked) :
    Decided e (work [] s).1 s.world.remote (work [] s).2.world.remote asked := by
  cases h with
  | refuses h =>
    obtain ⟨t, hrun, hremote⟩ := h
    rw [hrun]
    exact .refused rfl hremote
  | @asks verb path read h =>
    obtain ⟨t, hrun, hremote⟩ := h
    rw [hrun]
    refine .asked _ hremote rfl (fun a hdone => ?_) (fun f hlost => ?_) fun hreceived hbad => ?_
    · exact ((exchange_readAccepted_eq_ok_iff rfl).mp (ended_eq_done_iff.mp hdone)).1
    · rw [exchange, hlost]
      rfl
    · obtain ⟨f, hfault, hfails⟩ := exists_failsAs (α := α) path hbad
      rw [exchange_readAccepted rfl hreceived, hfault]
      exact ⟨f, hfails⟩

/-! ## Tags -/

/-- Work that asks for a payload on a path gives one exactly if a reply with a good status has come
that names a fork, in any letter case, and whose body is one of that fork; it is the payload then.
Without the name of a fork the schema is unknown, whatever the body is. -/
structure NeedsTag {kind : PayloadKind} (e : Endpoint) (o : Outcome (Versioned kind))
    (path : String) (reply : Reply) : Prop where
  done_iff : ∀ x, o = .done x ↔
    (e.received reply = .ok reply ∧ 200 ≤ reply.status ∧ reply.status < 300)
      ∧ ∃ tag fork value, reply.version = some tag ∧ Text.lower tag = fork.name
        ∧ Ssz.decodeBytes (kind.schema e.preset fork) reply.body = some value
        ∧ x = ⟨e.preset, fork, value⟩
  missing : e.received reply = .ok reply → 200 ≤ reply.status ∧ reply.status < 300 →
    reply.version = none →
    o = .failed (.unknownSchema ("<missing Eth-Consensus-Version header on " ++ path ++ ">"))
  unknown : e.received reply = .ok reply → 200 ≤ reply.status ∧ reply.status < 300 →
    ∀ tag, reply.version = some tag → (∀ fork : Fork, Text.lower tag ≠ fork.name) →
    o = .failed (.unknownSchema tag)

theorem payloadIn_eq_ok_iff {kind : PayloadKind} {answer : Option String × Bytes}
    {x : Versioned kind} :
    e.payloadIn kind path answer = .ok x ↔ ∃ tag fork value, answer.1 = some tag
      ∧ Text.lower tag = fork.name
      ∧ Ssz.decodeBytes (kind.schema e.preset fork) answer.2 = some value
      ∧ x = ⟨e.preset, fork, value⟩ := by
  obtain ⟨version, body⟩ := answer
  cases version with
  | none => simp [payloadIn]
  | some tag =>
    show Versioned.ofBytes kind e.preset (.str tag) body = .ok x ↔ _
    rw [Versioned.ofBytes_eq_ok_iff, Fork.ofTag_eq_ok_iff]
    constructor
    · rintro ⟨hpreset, htag, hvalue⟩
      exact ⟨tag, x.fork, x.value, rfl, htag, hvalue, by rw [← hpreset]⟩
    · rintro ⟨other, fork, value, hother, htag, hvalue, rfl⟩
      obtain rfl := Option.some.inj hother
      exact ⟨rfl, htag, hvalue⟩

theorem payload_needsTag (kind : PayloadKind) (path : String) (s : Stage (Link κ) Line) :
    NeedsTag e (payload kind e path [] s).1 path
      (s.world.remote.replyTo (e.route .bytes path)) := by
  obtain ⟨t, hrun, -⟩ := asks_accepted_payload e kind path s
  rw [hrun]
  -- With a good status the payload is all that decides.
  have hread : ∀ reply, s.world.remote.replyTo (e.route .bytes path) = reply →
      e.received reply = .ok reply → 200 ≤ reply.status ∧ reply.status < 300 →
      e.exchange .bytes path (readAccepted path fun reply =>
        e.payloadIn kind path (reply.version, reply.body)) s.world.remote
          = e.payloadIn kind path (reply.version, reply.body) := by
    intro reply hreply hreceived hgood
    rw [exchange_readAccepted hreply hreceived, fault?_eq_none_iff.mpr hgood]
  refine ⟨fun x => ?_, fun hreceived hgood hnone => ?_,
    fun hreceived hgood tag htag hunknown => ?_⟩
  · rw [ended_eq_done_iff, exchange_readAccepted_eq_ok_iff rfl, payloadIn_eq_ok_iff]
  · rw [hread _ rfl hreceived hgood, hnone]
    rfl
  · rw [hread _ rfl hreceived hgood, htag]
    show ended (Versioned.ofBytes kind e.preset (.str tag) _) = _
    rw [Versioned.ofBytes, Fork.ofTag_of_unknown hunknown]
    rfl

/-! ## Calls by name -/

theorem asks_eq_ok {q : Inquiry} {args : List Datum} {named : List (String × Datum)}
    {asked : Verb × String} (h : q.asks args named = .ok asked) :
    ∃ bound, Call.bind q.required q.optional args named = .ok bound ∧
      q.request (fun p => (bound.lookup p).getD .null) = .ok asked := by
  rw [Inquiry.asks] at h
  cases hbound : Call.bind q.required q.optional args named with
  | error f => rw [hbound] at h; cases h
  | ok bound =>
    rw [hbound] at h
    exact ⟨bound, rfl, h⟩

theorem requestOn_eq_ok {verb : Verb} {path : Datum → String} {id : Datum} {asked : Verb × String}
    (h : requestOn verb path id = .ok asked) : id.shown = .ok id ∧ asked = (verb, path id) := by
  unfold requestOn Datum.shown at h
  unfold Datum.shown
  split at h
  · cases h
  · next hshort => exact ⟨if_neg hshort, (Except.ok.inj h).symm⟩

/-- The rows of the table are told apart by their names. -/
theorem eq_of_name_eq {q r : Inquiry} (hq : q ∈ inquiries) (hr : r ∈ inquiries)
    (hname : q.name = r.name) : q = r :=
  List.inj_on_of_nodup_map (by decide) hq hr hname

variable {q : Inquiry} {args : List Datum} {named : List (String × Datum)} {asked : Verb × String}

/-- A call on an id does its work on the id that its request is put together from. -/
theorem make_onId {calls : List (Call (Link κ))} {call : Call (Link κ)} {verb : Verb}
    {path : Datum → String} {parameter : String} {answered : α → Datum} {work : Datum → Job κ α}
    (hfind : calls.find? (fun call => call.name = q.name) = some call)
    (hrequired : call.required = q.required) (hoptional : call.optional = q.optional)
    (hanswer : call.answer = fun a => answered <$> Call.onId (a parameter) work)
    (hrequest : q.request = fun a => requestOn verb path (a parameter))
    (h : q.asks args named = .ok asked) :
    ∃ id, asked = (verb, path id) ∧ Call.make calls q.name args named = answered <$> work id := by
  obtain ⟨bound, hbound, hasked⟩ := asks_eq_ok h
  rw [hrequest] at hasked
  obtain ⟨hshown, rfl⟩ := requestOn_eq_ok hasked
  rw [← hrequired, ← hoptional] at hbound
  refine ⟨_, rfl, ?_⟩
  rw [Call.make_of_bound hfind hbound, hanswer]
  dsimp only
  rw [Call.onId, hshown]
  rfl

theorem make_block (e : Endpoint) (hq : q ∈ inquiries) (hname : q.name = "get_block")
    (h : q.asks args named = .ok asked) :
    ∃ id : Datum, asked = (.bytes, blockPath id) ∧
      (Call.make e.calls q.name args named : Job κ Datum) = Call.ofBlock <$> e.block id := by
  obtain rfl : q = inquiries[2] := eq_of_name_eq hq (List.getElem_mem _) hname
  exact make_onId rfl rfl rfl rfl rfl h

theorem make_state (e : Endpoint) (hq : q ∈ inquiries) (hname : q.name = "get_state")
    (h : q.asks args named = .ok asked) :
    ∃ id : Datum, asked = (.bytes, fullStatePath id) ∧
      (Call.make e.calls q.name args named : Job κ Datum) = Call.ofState <$> e.state id := by
  obtain rfl : q = inquiries[7] := eq_of_name_eq hq (List.getElem_mem _) hname
  exact make_onId rfl rfl rfl rfl rfl h

/-! ## Main statement -/

/-- Each call of the table makes the one request that its arguments ask for, if they ask for one,
and never gives a value for a reply with a bad status: with the status 404 it fails as for something
that was not found, with any other one as for a failure with this status and the text of the reply,
and only if the reply has no text as for that. The other calls make no requests.

A state or a block needs the name of a fork in the reply as well, and a body that is one of that
fork. -/
theorem calls_check_status (e : Endpoint) (s : Stage (Link κ) Line) :
    (∀ q ∈ inquiries, ∀ args named,
      Decided e (Call.make e.calls q.name args named [] s).1 s.world.remote
        (Call.make e.calls q.name args named [] s).2.world.remote (q.asks args named))
    ∧ (∀ call ∈ e.calls, call.name ∉ inquiries.map Inquiry.name → ∀ a,
      (call.answer a [] s).2.world.remote = s.world.remote)
    ∧ (∀ q ∈ inquiries, q.name = "get_block" → ∀ args named asked,
      q.asks args named = .ok asked → ∃ id : Datum, asked = (.bytes, blockPath id)
        ∧ Call.make e.calls q.name args named = Call.ofBlock <$> (e.block id : Job κ VersionedBlock)
        ∧ NeedsTag e (e.block id [] s).1 (blockPath id)
          (s.world.remote.replyTo (e.route .bytes (blockPath id))))
    ∧ ∀ q ∈ inquiries, q.name = "get_state" → ∀ args named asked,
      q.asks args named = .ok asked → ∃ id : Datum, asked = (.bytes, fullStatePath id)
        ∧ Call.make e.calls q.name args named = Call.ofState <$> (e.state id : Job κ VersionedState)
        ∧ NeedsTag e (e.state id [] s).1 (fullStatePath id)
          (s.world.remote.replyTo (e.route .bytes (fullStatePath id))) := by
  refine ⟨?_, ?_, ?_, ?_⟩
  · intro q hq args named
    exact (checks_make hq e args named s).decided
  · intro call hcall hname a
    exact answer_remote hcall hname a s
  · intro q hq hname args named asked hasked
    obtain ⟨id, hpath, hmake⟩ := make_block e hq hname hasked
    exact ⟨id, hpath, hmake, payload_needsTag .block _ s⟩
  · intro q hq hname args named asked hasked
    obtain ⟨id, hpath, hmake⟩ := make_state e hq hname hasked
    exact ⟨id, hpath, hmake, payload_needsTag .state _ s⟩

/-- An endpoint that waits for ever. -/
def patient : Endpoint := ⟨"http://node", .null, .minimal⟩

/-- An answer that would do, but for its status. -/
def startingReply (text : Option String) : Reply where
  status := 503
  json := some (.record [("data", .record [("genesis_time", .str "1"),
    ("genesis_validators_root", .str "0x00"), ("genesis_fork_version", .str "0x00")])])
  text := text

/-- A node that is starting up. It tells so when it is asked for the genesis, but not in a text when
it is asked for the configuration. It has a block under a tag in capitals, and one under the tag of
no fork. -/
def startingNode : Stage (Link Unit) Line where
  world := {
    own := ()
    remote.routes := [(patient.route .json genesisPath, [startingReply (some "starting")]),
      (patient.route .json specPath, [startingReply none]),
      (patient.route .bytes "/eth/v2/beacon/blocks/head",
        [{ version := some "ALTAIR", body := (.initial .minimal .altair : VersionedBlock).encode }]),
      (patient.route .bytes "/eth/v2/beacon/blocks/next", [{ version := some "electra" }])] }

/-- The genesis is not read out of the reply with the status 503, and a fork record is not found.
Ids that are no list are refused. One of the two blocks is given. -/
theorem calls_check_status_startingNode :
    (Call.make patient.calls "get_genesis" [] [] [] startingNode).1 = .failed (.api 503 "starting")
    ∧ (Call.make patient.calls "get_fork" [.str "head"] [] [] startingNode).1
      = .failed (.notFound "/eth/v1/beacon/states/head/fork not found")
    ∧ (Call.make patient.calls "get_state_validators" [.str "head", .int 5] [] [] startingNode).1
      = .failed .wrongKind
    ∧ (Call.make patient.calls "get_block" [.str "head"] [] [] startingNode).1
      = .done (Call.ofBlock (.initial .minimal .altair))
    ∧ (Call.make patient.calls "get_block" [] [("block_id", .str "next")] [] startingNode).1
      = .failed (.unknownSchema "electra") := by
  obtain ⟨hcalls, -, hblocks, -⟩ := calls_check_status patient startingNode
  have hget := hblocks inquiries[2] (List.getElem_mem _) rfl
  refine ⟨?_, ?_, ?_, ?_, ?_⟩
  · have hdecided := hcalls inquiries[1] (List.getElem_mem _) [] []
    change Decided _ _ _ _ (.ok (.json, genesisPath)) at hdecided
    cases hdecided with
    | asked reply _ hreply _ _ hbad =>
      obtain rfl : startingReply (some "starting") = reply := hreply
      obtain ⟨f, hfails⟩ := hbad rfl (.inr (by decide))
      exact hfails.outcome.trans (congrArg _ (hfails.told (by decide) "starting" rfl))
  · have hdecided := hcalls inquiries[12] (List.getElem_mem _) [.str "head"] []
    change Decided _ _ _ _ (.ok (.json, "/eth/v1/beacon/states/head/fork")) at hdecided
    cases hdecided with
    | asked reply _ hreply _ _ hbad =>
      obtain rfl : Reply.unknown = reply := hreply
      obtain ⟨f, hfails⟩ := hbad rfl (.inr (by decide))
      exact hfails.outcome.trans (congrArg _ (hfails.missing rfl))
  · have hdecided := hcalls inquiries[9] (List.getElem_mem _) [.str "head", .int 5] []
    change Decided _ _ _ _ (.error .wrongKind) at hdecided
    cases hdecided with
    | refused ho _ => exact ho
  · obtain ⟨id, hasked, hmake, hneeds⟩ := hget [.str "head"] [] _ rfl
    obtain hpath : "/eth/v2/beacon/blocks/head" = blockPath id := (Prod.mk.inj hasked).2
    rw [← hpath] at hneeds
    have htag : "ALTAIR".toLower = Fork.name .altair := by decide +kernel
    have hadmitted : (Versioned.initial .minimal .altair : VersionedBlock).Admitted :=
      Versioned.admitted_initial .minimal .altair
    have hread := ofBytes_encode hadmitted (by decide +kernel) htag
    obtain ⟨-, htag, hvalue⟩ := Versioned.ofBytes_eq_ok_iff.mp hread
    have hblock : (patient.block id [] startingNode).1 = .done (.initial .minimal .altair) :=
      (hneeds.done_iff _).mpr ⟨⟨rfl, by decide, by decide⟩,
        "ALTAIR", .altair, _, rfl, Fork.ofTag_eq_ok_iff.mp htag, hvalue, rfl⟩
    exact (congrArg (fun work => (work [] startingNode).1) hmake).trans
      (congrArg Prod.fst (Work.andThen_of_done (Prod.ext hblock rfl)))
  · obtain ⟨id, hasked, hmake, hneeds⟩ := hget [] [("block_id", .str "next")] _ rfl
    obtain hpath : "/eth/v2/beacon/blocks/next" = blockPath id := (Prod.mk.inj hasked).2
    rw [← hpath] at hneeds
    have hnone : ∀ fork : Fork, Text.lower "electra" ≠ fork.name := by
      intro fork
      cases fork <;> decide
    have hblock : (patient.block id [] startingNode).1 = .failed (.unknownSchema "electra") :=
      hneeds.unknown rfl ⟨by decide, by decide⟩ "electra" rfl hnone
    exact (congrArg (fun work => (work [] startingNode).1) hmake).trans
      (congrArg Prod.fst (Work.andThen_of_failed (Prod.ext hblock rfl)))

/-- Without a text the status 503 is lost: the call fails with that instead, which does not mean
that it should be made again later. -/
theorem spec_fails_without_text :
    (startingReply none).status = 503
    ∧ startingNode.world.remote.replyTo (patient.route .json specPath) = startingReply none
    ∧ (Call.make patient.calls "get_spec" [] [] [] startingNode).1 = .failed .notText
    ∧ Failure.isTransient .notText = false ∧ Failure.isOneOf .notText [.api] = false :=
  ⟨rfl, rfl, rfl, rfl, rfl⟩

end Node.Endpoint

end BeaconHarness
