import BeaconHarness.Proofs.Node.Exchange

/-!
# What a reply comes to

A reply is waited for, then a failure may come in its place, then its status may tell one, and only
then its body is read. Which of this makes a request fail can be told from the kind of the failure:
a bad status is told by kinds of its own, as is a body that cannot be decoded, also where it only
has to give the text of a bad status.

Main statements: what is received (`received_eq_error_iff`, `received_eq_ok_iff`), and when a block
is not found, or not to be had for a while (`notFound_iff`, `fleeting_iff`).
-/

namespace BeaconHarness

/-! ## Failures that may pass -/

/-- The kinds of failures that mean "ask again later", one by one. -/
def fleetingKinds : List FailureKind :=
  [.notReady, .notFound, .api, .transport, .connection, .timedOut]

/-- Failures of just these kinds mean "ask again later". -/
theorem Failure.isTransient_iff {f : Failure} : f.isTransient = true ↔ f.kind ∈ fleetingKinds := by
  rw [isTransient, isOneOf]
  generalize f.kind = kind
  cases kind with
  | other name => exact ⟨nofun, fun h => absurd h (by simp [fleetingKinds])⟩
  | _ => decide

/-- No other kind of failure means that nothing was found. -/
theorem Failure.isOneOf_notFound_iff {f : Failure} :
    f.isOneOf [.notFound] = true ↔ f.kind = .notFound := by
  rw [isOneOf]
  generalize f.kind = kind
  cases kind with
  | other name => exact ⟨nofun, nofun⟩
  | _ => decide

namespace Node.Endpoint

/-! ## What is received -/

/-- What the wait for a reply comes to, whatever it is that comes at its end. -/
def waited (e : Endpoint) (reply : Reply) : Except Failure Unit := do
  if ← e.isLate reply then
    let _ ← e.rpcTimeout.span
    .error .timedOut
  else
    let _ ← if reply.delay.truthy then reply.delay.span else .ok 0
    return ()

variable {e : Endpoint} {reply : Reply} {f : Failure}

theorem received_eq (e : Endpoint) (reply : Reply) :
    e.received reply = match e.waited reply with
      | .error failure => .error failure
      | .ok _ => match reply.failure with
        | some failure => .error failure
        | none => .ok reply := by
  rw [received, waited]
  cases e.isLate reply with
  | error f => rfl
  | ok late =>
    cases late with
    | true => cases e.rpcTimeout.span <;> rfl
    | false =>
      cases reply.delay.truthy with
      | false => rfl
      | true => cases reply.delay.span <;> rfl

/-- Nothing but a failure is received if the wait fails, or if a failure comes in place of a
reply. -/
theorem received_eq_error_iff :
    e.received reply = .error f
      ↔ e.waited reply = .error f ∨ e.waited reply = .ok () ∧ reply.failure = some f := by
  rw [received_eq]
  cases e.waited reply with
  | error g => simp
  | ok _ => cases reply.failure <;> simp

theorem received_eq_ok_iff {r : Reply} :
    e.received reply = .ok r ↔ e.waited reply = .ok () ∧ reply.failure = none ∧ r = reply := by
  rw [received_eq]
  cases e.waited reply with
  | error g => simp
  | ok _ =>
    cases reply.failure with
    | some g => simp
    | none => simp [eq_comm]

/-! ## Bodies -/

/-- JSON is refused for the status of its reply first, and then for a body that is none. -/
theorem jsonOf_eq (path : String) (reply : Reply) :
    jsonOf path reply = match Reply.fault? reply path with
      | some failure => .error failure
      | none => match reply.json with
        | some d => .ok d
        | none => .error .notJson := by
  rw [jsonOf, accepted]
  cases Reply.fault? reply path with
  | some failure => rfl
  | none => rfl

/-- There is JSON in a reply if its status tells no failure and its body is JSON. -/
theorem jsonOf_eq_ok_iff {path : String} {d : Datum} :
    jsonOf path reply = .ok d ↔ Reply.fault? reply path = none ∧ reply.json = some d := by
  rw [jsonOf_eq]
  cases Reply.fault? reply path with
  | some g => simp
  | none => cases reply.json <;> simp

theorem jsonOf_eq_error {path : String} (h : jsonOf path reply = .error f) :
    Reply.fault? reply path = some f ∨ f = .notJson := by
  rw [jsonOf_eq] at h
  cases hfault : Reply.fault? reply path with
  | some g =>
    rw [hfault] at h
    exact .inl (congrArg some (Except.error.inj h))
  | none =>
    rw [hfault] at h
    cases hjson : reply.json with
    | some d =>
      rw [hjson] at h
      cases h
    | none =>
      rw [hjson] at h
      exact .inr (Except.error.inj h).symm

/-- There are bytes in a reply if its status tells no failure. -/
theorem bytesOf_eq (path : String) (reply : Reply) :
    bytesOf path reply = match Reply.fault? reply path with
      | some failure => .error failure
      | none => .ok (reply.version, reply.body) := by
  rw [bytesOf, accepted]
  cases Reply.fault? reply path <;> rfl

/-! ## Kinds of failures -/

theorem fault?_of_missing (path : String) (h : reply.status = 404) :
    Reply.fault? reply path = some (.notFound (path ++ " not found")) := by
  rw [Reply.fault?, if_pos h]

/-- A status outside the two hundreds tells a failure, that nothing was found or another one. -/
theorem fault?_eq_none_iff {path : String} :
    Reply.fault? reply path = none ↔ 200 ≤ reply.status ∧ reply.status < 300 := by
  rw [Reply.fault?]
  split
  next hmissing => exact ⟨nofun, fun h => by omega⟩
  next =>
    split
    next hbad =>
      rw [Bool.or_eq_true, decide_eq_true_eq, decide_eq_true_eq] at hbad
      refine ⟨fun h => ?_, fun h => by omega⟩
      cases htext : reply.text <;> rw [htext] at h <;> cases h
    next hgood =>
      rw [Bool.or_eq_true, decide_eq_true_eq, decide_eq_true_eq] at hgood
      exact ⟨fun _ => by omega, fun _ => rfl⟩

/-- A bad status other than 404 is told with the text of the reply, if there is one. -/
theorem fault?_of_bad (path : String) (hmissing : reply.status ≠ 404)
    (hbad : reply.status < 200 ∨ 300 ≤ reply.status) :
    Reply.fault? reply path = match reply.text with
      | some text => some (.api reply.status text)
      | none => some .notText := by
  have hrange : (decide (reply.status < 200) || decide (300 ≤ reply.status)) = true := by
    rw [Bool.or_eq_true, decide_eq_true_eq, decide_eq_true_eq]
    exact hbad
  cases htext : reply.text with
  | some text => rw [Reply.fault?, if_neg hmissing, if_pos hrange, htext]
  | none => rw [Reply.fault?, if_neg hmissing, if_pos hrange, htext]

/-- What a bad status tells, by the kind of the failure. -/
inductive Faulty (reply : Reply) (f : Failure) : Prop
  | missing (hstatus : reply.status = 404) (hkind : f.kind = .notFound)
  | told (hstatus : reply.status ≠ 404) (htext : reply.text ≠ none) (hkind : f.kind = .api)
  | untold (hstatus : reply.status ≠ 404) (htext : reply.text = none) (hkind : f.kind = .notText)

theorem kind_of_fault {path : String} (h : Reply.fault? reply path = some f) : Faulty reply f := by
  by_cases hmissing : reply.status = 404
  · rw [fault?_of_missing path hmissing] at h
    rw [← Option.some.inj h]
    exact .missing hmissing rfl
  · have hbad : reply.status < 200 ∨ 300 ≤ reply.status := by
      by_contra hgood
      rw [fault?_eq_none_iff.mpr (by omega)] at h
      cases h
    rw [fault?_of_bad path hmissing hbad] at h
    cases htext : reply.text with
    | some text =>
      rw [htext] at h
      rw [← Option.some.inj h]
      exact .told hmissing (by rw [htext]; nofun) rfl
    | none =>
      rw [htext] at h
      rw [← Option.some.inj h]
      exact .untold hmissing htext rfl

/-- A failure that a status tells may pass, unless the text of the reply is missing. -/
theorem fleeting_of_fault_iff {path : String} (h : Reply.fault? reply path = some f) :
    f.kind ∈ fleetingKinds ↔ reply.status = 404 ∨ reply.text ≠ none := by
  cases kind_of_fault h with
  | missing hstatus hkind => exact ⟨fun _ => .inl hstatus, fun _ => by rw [hkind]; decide⟩
  | told _ htext hkind => exact ⟨fun _ => .inr htext, fun _ => by rw [hkind]; decide⟩
  | untold hstatus htext hkind =>
    rw [hkind]
    refine iff_of_false (by decide) ?_
    rintro (hmissing | htold)
    · exact hstatus hmissing
    · exact htold htext

/-- Bytes that are no payload name an unknown fork, or none, or are malformed. -/
theorem kind_of_payloadIn {kind : PayloadKind} {path : String} {answer : Option String × Bytes}
    (h : e.payloadIn kind path answer = .error f) :
    f.kind = .unknownSchema ∨ f.kind = .malformed := by
  obtain ⟨version, body⟩ := answer
  cases version with
  | none =>
    obtain rfl := Except.error.inj h
    exact .inl rfl
  | some tag =>
    have hread : Versioned.ofBytes kind e.preset (.str tag) body = .error f := h
    cases hfork : Fork.ofTag (.str tag) with
    | error unknown =>
      simp only [Versioned.ofBytes, hfork, bind, Except.bind] at hread
      obtain rfl := Except.error.inj hread
      simp only [Fork.ofTag] at hfork
      split at hfork
      · exact nomatch hfork
      · obtain rfl := Except.error.inj hfork
        exact .inl rfl
    | ok fork =>
      simp only [Versioned.ofBytes, hfork, bind, Except.bind] at hread
      split at hread
      · exact nomatch hread
      · obtain rfl := Except.error.inj hread
        exact .inr rfl

/-! ## Blocks that do not come -/

variable {id : Datum} {r : Remote}

/-- A reply that comes is refused for its status, or read as a block. -/
theorem exchange_block_of_received
    (h : r.replyTo (e.route .bytes (blockPath id)) = reply)
    (hreceived : e.received reply = .ok reply) :
    e.exchange .bytes (blockPath id) (e.blockOf id) r
      = match Reply.fault? reply (blockPath id) with
        | some failure => .error failure
        | none => e.payloadIn .block (blockPath id) (reply.version, reply.body) := by
  rw [← h] at hreceived
  rw [exchange_of_received hreceived, h, blockOf, payloadOf, bytesOf_eq]
  cases Reply.fault? reply (blockPath id) <;> rfl

/-- A reply that comes fails in a way that is neither of those of bytes that are no block exactly if
its status tells such a failure. -/
theorem exchange_block_fails_iff {kinds : List FailureKind} (hschema : .unknownSchema ∉ kinds)
    (hmalformed : .malformed ∉ kinds) (h : r.replyTo (e.route .bytes (blockPath id)) = reply)
    (hreceived : e.received reply = .ok reply) :
    (∃ f, e.exchange .bytes (blockPath id) (e.blockOf id) r = .error f ∧ f.kind ∈ kinds)
      ↔ ∃ f, Reply.fault? reply (blockPath id) = some f ∧ f.kind ∈ kinds := by
  rw [exchange_block_of_received h hreceived]
  cases hfault : Reply.fault? reply (blockPath id) with
  | some g => simp
  | none =>
    refine iff_of_false ?_ (by simp)
    rintro ⟨f, hfailed, hkind⟩
    rcases kind_of_payloadIn hfailed with hother | hother
    · rw [hother] at hkind
      exact hschema hkind
    · rw [hother] at hkind
      exact hmalformed hkind

/-- Of the replies that come, just those with the status 404 tell that there is no block. -/
theorem notFound_iff (h : r.replyTo (e.route .bytes (blockPath id)) = reply)
    (hreceived : e.received reply = .ok reply) :
    (∃ f, e.exchange .bytes (blockPath id) (e.blockOf id) r = .error f ∧ f.kind = .notFound)
      ↔ reply.status = 404 := by
  have hfails := exchange_block_fails_iff (by decide : .unknownSchema ∉ [FailureKind.notFound])
    (by decide) h hreceived
  simp only [List.mem_singleton] at hfails
  rw [hfails]
  constructor
  · rintro ⟨f, hfault, hkind⟩
    cases kind_of_fault hfault with
    | missing hmissing => exact hmissing
    | told _ _ hother | untold _ _ hother =>
      rw [hother] at hkind
      cases hkind
  · intro hmissing
    exact ⟨_, fault?_of_missing _ hmissing, rfl⟩

/-- Of the replies that come, just those with a bad status tell that a block may come later; a text
has to tell it, unless the status is 404. -/
theorem fleeting_iff (h : r.replyTo (e.route .bytes (blockPath id)) = reply)
    (hreceived : e.received reply = .ok reply) :
    (∃ f, e.exchange .bytes (blockPath id) (e.blockOf id) r = .error f ∧ f.kind ∈ fleetingKinds)
      ↔ (reply.status < 200 ∨ 300 ≤ reply.status)
        ∧ (reply.status = 404 ∨ reply.text ≠ none) := by
  rw [exchange_block_fails_iff (by decide) (by decide) h hreceived]
  constructor
  · rintro ⟨f, hfault, hkind⟩
    refine ⟨?_, (fleeting_of_fault_iff hfault).mp hkind⟩
    by_contra hgood
    rw [fault?_eq_none_iff.mpr (by omega)] at hfault
    cases hfault
  · rintro ⟨hbad, htold⟩
    cases hfault : Reply.fault? reply (blockPath id) with
    | none =>
      have hgood := fault?_eq_none_iff.mp hfault
      omega
    | some f => exact ⟨f, rfl, (fleeting_of_fault_iff hfault).mpr htold⟩

end Node.Endpoint

end BeaconHarness
