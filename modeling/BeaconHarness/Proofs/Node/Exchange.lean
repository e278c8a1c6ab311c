import BeaconHarness.Proofs.Node.Request
import BeaconHarness.Proofs.Wait.Clock
import BeaconHarness.Proofs.Wait.Plain

/-!
# Exchanges with a node

What a single request comes to, and when, depends on nothing but the reply that is due and the
instant of the request. Replies are due in order, and from some request on the same one is due for
ever.

Main statements: what a request for a header or a block comes to (`asks_header`, `asks_block`),
and that replies repeat themselves once all that are set up for a route have been used up
(`replyTo_of_spent`).
-/

namespace BeaconHarness

namespace Node

open Work (ended Plain elapse)

/-! ## Replies in order -/

namespace Remote

/-- How many replies are set up on a route. -/
def supply (r : Remote) (route : Route) : Nat := ((r.routes.lookup route).getD []).length

/-- The reply that is due on a route whose replies are known. -/
theorem replyTo_of_lookup {r : Remote} {route : Route} {replies : List Reply}
    (h : r.routes.lookup route = some replies) :
    r.replyTo route = replies[r.asked.count route]?.getD (replies.getLastD .unknown) := by
  rw [replyTo, h]
  cases hdue : replies[r.asked.count route]? with
  | none => simp only [hdue, Option.getD_none]
  | some due => simp only [hdue, Option.getD_some]

theorem replyTo_of_lookup_none {r : Remote} {route : Route} (h : r.routes.lookup route = none) :
    r.replyTo route = .unknown := by
  rw [replyTo, h]

/-- A single reply is due for ever. -/
theorem replyTo_of_lookup_singleton {r : Remote} {route : Route} {reply : Reply}
    (h : r.routes.lookup route = some [reply]) : r.replyTo route = reply := by
  rw [replyTo_of_lookup h]
  cases r.asked.count route <;> rfl

/-- Once as many requests have been made as there are replies, the last reply is due for ever. -/
theorem replyTo_of_spent {r : Remote} {route : Route}
    (h : r.supply route ≤ r.asked.count route) :
    r.replyTo route = ((r.routes.lookup route).getD []).getLastD .unknown := by
  rw [replyTo]
  cases hreplies : r.routes.lookup route with
  | none => rfl
  | some replies =>
    rw [supply, hreplies] at h
    have hnone : replies[r.asked.count route]? = none := List.getElem?_eq_none h
    simp only [hnone, Option.getD_some]

/-- A request on one route uses up no reply on another. -/
theorem replyTo_of_ne {r : Remote} {route other : Route} (h : other ≠ route) :
    { r with asked := other :: r.asked }.replyTo route = r.replyTo route := by
  simp only [replyTo, List.count_cons_of_ne h]

/-- Requests on other routes use up no reply on a route. -/
theorem replyTo_of_not_mem {r : Remote} {route : Route} {requests : List Route}
    (h : route ∉ requests) :
    { r with asked := requests ++ r.asked }.replyTo route = r.replyTo route := by
  simp only [replyTo, List.count_append, List.count_eq_zero.mpr h, Nat.zero_add]

theorem supply_le_replyCount (r : Remote) (route : Route) : r.supply route ≤ r.replyCount := by
  rw [supply, replyCount]
  induction r.routes with
  | nil => exact Nat.le_refl 0
  | cons entry routes ih =>
    rw [List.flatMap_cons, List.length_append, List.lookup_cons]
    cases route == entry.1 with
    | true => exact Nat.le_add_right _ _
    | false => exact Nat.le_trans ih (Nat.le_add_left _ _)

/-- Replies on two routes are replies of their own. -/
theorem supply_add_le_replyCount (r : Remote) {route other : Route} (h : route ≠ other) :
    r.supply route + r.supply other ≤ r.replyCount := by
  have hone : ∀ (routes : List (Route × List Reply)) (route : Route),
      ((routes.lookup route).getD []).length ≤ (routes.flatMap fun e => e.2).length :=
    fun routes route => supply_le_replyCount ⟨routes, []⟩ route
  rw [supply, supply, replyCount]
  induction r.routes with
  | nil => exact Nat.le_refl 0
  | cons entry routes ih =>
    have hroute := hone routes route
    have hother := hone routes other
    rw [List.flatMap_cons, List.length_append, List.lookup_cons, List.lookup_cons]
    cases hfirst : route == entry.1 with
    | true =>
      have hdifferent : (other == entry.1) = false := by
        rw [← eq_of_beq hfirst]
        exact beq_false_of_ne h.symm
      simp only [hdifferent, Option.getD_some]
      omega
    | false =>
      cases other == entry.1 with
      | true =>
        simp only [Option.getD_some]
        omega
      | false => exact Nat.le_trans ih (Nat.le_add_left _ _)

end Remote

/-! ## One reply -/

namespace Endpoint

variable {κ α β : Type}

/-- Whether a reply takes longer than the endpoint waits for it. -/
def isLate (e : Endpoint) (reply : Reply) : Except Failure Bool :=
  match e.rpcTimeout with
  | .null => .ok false
  | bound => bound.isAtMost reply.delay

/-- What is received of a reply: the reply itself, or the failure that comes in its place. -/
def received (e : Endpoint) (reply : Reply) : Except Failure Reply := do
  if ← e.isLate reply then
    let _ ← e.rpcTimeout.span
    .error .timedOut
  else
    let _ ← if reply.delay.truthy then reply.delay.span else .ok 0
    match reply.failure with
    | some failure => .error failure
    | none => return reply

/-- The instant at which the wait for a reply ends. -/
def arrival (e : Endpoint) (reply : Reply) (now : Nat) : Nat :=
  match e.isLate reply with
  | .ok true => elapse e.rpcTimeout now
  | .ok false => if reply.delay.truthy then elapse reply.delay now else now
  | .error _ => now

/-- Where a client stands after some requests, newest first. -/
structure After (s t : Stage (Link κ) Line) (requests : List Route) (now : Nat) : Prop where
  now : t.now = now
  remote : t.world.remote = { s.world.remote with asked := requests ++ s.world.remote.asked }
  own : t.world.own = s.world.own

theorem After.trans {s t u : Stage (Link κ) Line} {first second : List Route} {now later : Nat}
    (h : After s t first now) (h' : After t u second later) :
    After s u (second ++ first) later where
  now := h'.now
  remote := by rw [h'.remote, h.remote, List.append_assoc]
  own := h'.own.trans h.own

/-! ## One request -/

theorem openSession_eq (e : Endpoint) (s : Stage (Link κ) Line) :
    ∃ t, e.openSession [] s = (.done (), t) ∧ After s t [] s.now := by
  have hopen : e.openSession [] s = (if s.world.isOpen then return
      else do
        logRequest ("session timeout=" ++ e.rpcTimeout.display)
        Work.change fun link => { link with isOpen := true } : Job κ Unit) [] s := rfl
  rw [hopen]
  split
  · exact ⟨s, rfl, rfl, rfl, rfl⟩
  · exact ⟨_, rfl, rfl, rfl, rfl⟩

/-- A wait of a length that is no length fails at once; any other one only moves the clock. -/
theorem sleepFor_eq (d : Datum) (s : Stage (Link κ) Line) :
    ∃ t, Work.sleepFor d [] s = (ended (d.span >>= fun _ => .ok ()), t)
      ∧ After s t [] (elapse d s.now) := by
  cases hspan : d.span with
  | error failure =>
    obtain ⟨hrun, hnow⟩ := Work.sleepFor_of_error (ν := Line) hspan s
    exact ⟨s, hrun, hnow.symm, rfl, rfl⟩
  | ok length =>
    obtain ⟨t, hrun, hnow, hworld⟩ := Work.sleepFor_of_ok (ν := Line) hspan s
    exact ⟨t, hrun, hnow, by rw [hworld]; rfl, by rw [hworld]⟩

theorem pause_eq (d : Datum) (s : Stage (Link κ) Line) :
    ∃ t, Work.pause d [] s = (ended ((if d.truthy then d.span else .ok 0) >>= fun _ => .ok ()), t)
      ∧ After s t [] (if d.truthy then elapse d s.now else s.now) := by
  rw [Work.pause]
  cases d.truthy with
  | false => exact ⟨s, rfl, rfl, rfl, rfl⟩
  | true => exact sleepFor_eq d s

theorem await_eq (e : Endpoint) (reply : Reply) (s : Stage (Link κ) Line) :
    ∃ t, e.await reply [] s = (ended (e.received reply), t)
      ∧ After s t [] (e.arrival reply s.now) := by
  have hawait : e.await reply [] s = (do
      if ← Work.ofExcept (e.isLate reply) then
        Work.sleepFor e.rpcTimeout
        Work.fail .timedOut
      else Work.pause reply.delay
      match reply.failure with
      | some failure => Work.fail failure
      | none => return reply : Job κ Reply) [] s := by
    rw [await, isLate]
    cases e.rpcTimeout <;> rfl
  rw [hawait, received, arrival]
  -- A late reply is waited for as long as the endpoint allows, any other one until it comes.
  cases e.isLate reply with
  | error failure => exact ⟨s, rfl, rfl, rfl, rfl⟩
  | ok isLate =>
    cases isLate with
    | true =>
      obtain ⟨t, hrun, hafter⟩ := sleepFor_eq e.rpcTimeout s
      refine ⟨t, ?_, hafter⟩
      show (Work.sleepFor e.rpcTimeout >>= _) [] s = _
      cases hspan : e.rpcTimeout.span with
      | error failure =>
        rw [hspan] at hrun
        exact Work.andThen_of_failed hrun
      | ok length =>
        rw [hspan] at hrun
        exact Work.andThen_of_done hrun
    | false =>
      have hreceive : ∀ t : Stage (Link κ) Line, (match reply.failure with
          | some failure => Work.fail failure
          | none => return reply : Job κ Reply) [] t
            = (ended (match reply.failure with
              | some failure => .error failure
              | none => .ok reply), t) := by
        intro t
        cases reply.failure <;> rfl
      obtain ⟨t, hrun, hafter⟩ := pause_eq reply.delay s
      refine ⟨t, ?_, hafter⟩
      show (Work.pause reply.delay >>= _) [] s = _
      cases htakes : reply.delay.truthy with
      | false =>
        rw [htakes] at hrun
        exact (Work.andThen_of_done hrun).trans (hreceive t)
      | true =>
        rw [htakes, if_pos rfl] at hrun
        cases hspan : reply.delay.span with
        | error failure =>
          rw [hspan] at hrun
          exact Work.andThen_of_failed hrun
        | ok length =>
          rw [hspan] at hrun
          exact (Work.andThen_of_done hrun).trans (hreceive t)

/-- A request uses up the reply that is due, and waits for it. -/
theorem send_eq (e : Endpoint) (verb : Verb) (path : String) (query : List (String × String))
    (payload : Option Datum) (s : Stage (Link κ) Line) :
    ∃ t, e.send verb path query payload [] s
        = (ended (e.received (s.world.remote.replyTo (e.route verb path))), t)
      ∧ After s t [e.route verb path]
        (e.arrival (s.world.remote.replyTo (e.route verb path)) s.now) := by
  obtain ⟨t, hopen, hopened⟩ := openSession_eq e s
  have hremote : t.world.remote = s.world.remote := hopened.remote
  obtain ⟨asking, hsend, hasked⟩ : ∃ asking, e.send verb path query payload [] s
      = e.await (t.world.remote.replyTo (e.route verb path)) [] asking
        ∧ After s asking [e.route verb path] s.now := by
    rw [send, Work.andThen_of_done hopen]
    refine ⟨_, rfl, hopened.now, ?_, hopened.own⟩
    show (t.world.remote.next (e.route verb path)).2 = _
    rw [hremote]
    rfl
  obtain ⟨u, hawait, hawaited⟩ := await_eq e (t.world.remote.replyTo (e.route verb path)) asking
  have hnow : asking.now = s.now := hasked.now
  rw [hremote] at hsend hawait hawaited
  rw [hnow] at hawaited
  exact ⟨u, hsend.trans hawait, hasked.trans hawaited⟩

/-! ## Requests whose reply is read -/

/-- What a request comes to whose reply is read. -/
def exchange (e : Endpoint) (verb : Verb) (path : String) (read : Reply → Except Failure α)
    (r : Remote) : Except Failure α := e.received (r.replyTo (e.route verb path)) >>= read

theorem exchange_of_received {e : Endpoint} {verb : Verb} {path : String}
    {read : Reply → Except Failure α} {r : Remote} {reply : Reply}
    (h : e.received (r.replyTo (e.route verb path)) = .ok reply) :
    e.exchange verb path read r = read reply := by
  rw [exchange, h]
  rfl

theorem exchange_of_reply {e : Endpoint} {verb : Verb} {path : String}
    {read : Reply → Except Failure α} {r : Remote} {reply : Reply}
    (h : r.replyTo (e.route verb path) = reply) :
    e.exchange verb path read r = e.received reply >>= read :=
  congrArg (fun reply => e.received reply >>= read) h

/-- What a request comes to is told by the reply that is due. -/
theorem exchange_congr {e : Endpoint} {verb : Verb} {path : String}
    {read : Reply → Except Failure α} {r r' : Remote}
    (h : r'.replyTo (e.route verb path) = r.replyTo (e.route verb path)) :
    e.exchange verb path read r' = e.exchange verb path read r :=
  exchange_of_reply h

theorem exchange_of_not_mem {e : Endpoint} {verb : Verb} {path : String}
    {read : Reply → Except Failure α} {r : Remote} {requests : List Route}
    (h : e.route verb path ∉ requests) :
    e.exchange verb path read { r with asked := requests ++ r.asked }
      = e.exchange verb path read r :=
  exchange_congr (Remote.replyTo_of_not_mem h)

/-- Work that makes one request and reads the reply. -/
def Asks (work : Job κ α) (e : Endpoint) (verb : Verb) (path : String)
    (read : Reply → Except Failure α) : Prop :=
  ∀ s : Stage (Link κ) Line, ∃ t,
    work [] s = (ended (e.exchange verb path read s.world.remote), t)
    ∧ After s t [e.route verb path]
      (e.arrival (s.world.remote.replyTo (e.route verb path)) s.now)

theorem asks_send (e : Endpoint) (verb : Verb) (path : String) :
    Asks (κ := κ) (e.send verb path [] none) e verb path .ok := by
  intro s
  obtain ⟨t, hsend, hafter⟩ := send_eq e verb path [] none s
  refine ⟨t, ?_, hafter⟩
  rw [hsend, exchange]
  cases e.received (s.world.remote.replyTo (e.route verb path)) <;> rfl

/-- A request that is made after one on another route comes to what it would have come to before
that. -/
theorem Asks.after {work : Job κ α} {e : Endpoint} {verb : Verb} {path : String}
    {read : Reply → Except Failure α} (h : Asks work e verb path read) {s t : Stage (Link κ) Line}
    {first : Route} {now : Nat} (hfirst : After s t [first] now) (hne : first ≠ e.route verb path) :
    ∃ u, work [] t = (ended (e.exchange verb path read s.world.remote), u)
      ∧ After s u [e.route verb path, first]
        (e.arrival (s.world.remote.replyTo (e.route verb path)) now) := by
  obtain ⟨u, hwork, hafter⟩ := h t
  have hreply : t.world.remote.replyTo (e.route verb path)
      = s.world.remote.replyTo (e.route verb path) := by
    rw [hfirst.remote]
    exact Remote.replyTo_of_ne hne
  rw [exchange, hreply] at hwork
  rw [hreply, hfirst.now] at hafter
  exact ⟨u, hwork, hfirst.trans hafter⟩

/-- What has been read of a reply is read further by work that does nothing else. -/
theorem Asks.bind {work : Job κ α} {next : α → Job κ β} {e : Endpoint} {verb : Verb}
    {path : String} {read : Reply → Except Failure α} {further : α → Except Failure β}
    (h : Asks work e verb path read)
    (hnext : ∀ a (s : Stage (Link κ) Line), next a [] s = (ended (further a), s)) :
    Asks (work >>= next) e verb path fun reply => read reply >>= further := by
  intro s
  obtain ⟨t, hrun, hafter⟩ := h s
  refine ⟨t, ?_, hafter⟩
  -- What is received does not depend on how it is read.
  have hexchange : e.exchange verb path (fun reply => read reply >>= further) s.world.remote
      = e.exchange verb path read s.world.remote >>= further := by
    simp only [exchange, bind_assoc]
  rw [hexchange]
  cases hfirst : e.exchange verb path read s.world.remote with
  | error failure =>
    rw [hfirst] at hrun
    exact Work.andThen_of_failed hrun
  | ok a =>
    rw [hfirst] at hrun
    rw [Work.andThen_of_done hrun]
    exact hnext a t

/-- The reply, unless its status tells a failure. -/
def accepted (path : String) (reply : Reply) : Except Failure Reply :=
  match Reply.fault? reply path with
  | some failure => .error failure
  | none => .ok reply

theorem checked_eq (path : String) (reply : Reply) (s : Stage (Link κ) Line) :
    checked path reply [] s = (ended (accepted path reply), s) := by
  rw [checked, accepted]
  cases Reply.fault? reply path <;> rfl

/-- The JSON body of an accepted reply. -/
def jsonOf (path : String) (reply : Reply) : Except Failure Datum := do
  match (← accepted path reply).json with
  | some d => .ok d
  | none => .error .notJson

/-- The fork that an accepted reply names, and its body. -/
def bytesOf (path : String) (reply : Reply) : Except Failure (Option String × Bytes) := do
  let reply ← accepted path reply
  return (reply.version, reply.body)

theorem asks_getJson (e : Endpoint) (path : String) :
    Asks (κ := κ) (e.getJson path []) e .json path (jsonOf path) := by
  have hread : ∀ reply (s : Stage (Link κ) Line), (do
      match (← checked path reply).json with
      | some d => return d
      | none => Work.fail .notJson : Job κ Datum) [] s = (ended (jsonOf path reply), s) := by
    intro reply s
    have hchecked := checked_eq path reply s
    rw [jsonOf]
    cases haccepted : accepted path reply with
    | error failure =>
      rw [haccepted] at hchecked
      exact Work.andThen_of_failed hchecked
    | ok reply =>
      rw [haccepted] at hchecked
      rw [Work.andThen_of_done hchecked]
      show _ = (ended (match reply.json with
        | some d => .ok d
        | none => .error .notJson), s)
      cases reply.json <;> rfl
  exact (asks_send e .json path).bind hread

theorem asks_getBytes (e : Endpoint) (path : String) :
    Asks (κ := κ) (e.getBytes path) e .bytes path (bytesOf path) := by
  have hread : ∀ reply (s : Stage (Link κ) Line), (do
      let reply ← checked path reply
      return (reply.version, reply.body) : Job κ (Option String × Bytes)) [] s
        = (ended (bytesOf path reply), s) := by
    intro reply s
    have hchecked := checked_eq path reply s
    rw [bytesOf]
    cases haccepted : accepted path reply with
    | error failure =>
      rw [haccepted] at hchecked
      exact Work.andThen_of_failed hchecked
    | ok reply =>
      rw [haccepted] at hchecked
      exact Work.andThen_of_done hchecked
  exact (asks_send e .bytes path).bind hread

/-! ## Endpoints -/

/-- The configuration in a reply. -/
def specOf (reply : Reply) : Except Failure Datum := do
  (← jsonOf specPath reply).entryOr "data" (.dict [])

/-- The genesis in a reply. -/
def genesisOf (reply : Reply) : Except Failure Genesis := do
  Genesis.ofDatum (← (← jsonOf genesisPath reply).entry "data")

/-- The path of a block's header. -/
def headerPath (id : Datum) : String := "/eth/v1/beacon/headers/" ++ id.pathText

/-- The header in a reply. -/
def headerOf (id : Datum) (reply : Reply) : Except Failure HeaderInfo := do
  HeaderInfo.ofDatum (← jsonOf (headerPath id) reply)

theorem headerOf_of_json {id : Datum} {reply : Reply} {d : Datum}
    (h : jsonOf (headerPath id) reply = .ok d) : headerOf id reply = HeaderInfo.ofDatum d := by
  rw [headerOf, h]
  rfl

/-- The path of a block. -/
def blockPath (id : Datum) : String := "/eth/v2/beacon/blocks/" ++ id.pathText

/-- The flag in a reply that tells whether the execution layer has yet to check a block; one that is
null is none. -/
def flagOf (id : Datum) (reply : Reply) : Except Failure (Option Bool) := do
  match ← (← jsonOf (blockPath id) reply).entryOr "execution_optimistic" .null with
  | .null => .ok none
  | d => .ok (some d.truthy)

/-- The payload in the body of a reply, under the fork that the reply names. -/
def payloadIn (e : Endpoint) (kind : PayloadKind) (path : String) :
    Option String × Bytes → Except Failure (Versioned kind)
  | (none, _) => .error (missingVersion path)
  | (some tag, body) => Versioned.ofBytes kind e.preset (.str tag) body

/-- The payload in a reply. -/
def payloadOf (e : Endpoint) (kind : PayloadKind) (path : String) (reply : Reply) :
    Except Failure (Versioned kind) := do
  e.payloadIn kind path (← bytesOf path reply)

/-- The block in a reply. -/
def blockOf (e : Endpoint) (id : Datum) : Reply → Except Failure VersionedBlock :=
  e.payloadOf .block (blockPath id)

theorem asks_spec (e : Endpoint) : Asks (κ := κ) e.spec e .json specPath specOf :=
  (asks_getJson e specPath).bind fun _ s => Work.ofExcept_eq _ s

theorem asks_genesis (e : Endpoint) : Asks (κ := κ) e.genesis e .json genesisPath genesisOf :=
  (asks_getJson e genesisPath).bind fun _ s => Work.ofExcept_eq _ s

theorem asks_header (e : Endpoint) (id : Datum) :
    Asks (κ := κ) (e.header id) e .json (headerPath id) (headerOf id) :=
  (asks_getJson e (headerPath id)).bind fun _ s => Work.ofExcept_eq _ s

theorem asks_isOptimistic (e : Endpoint) (id : Datum) :
    Asks (κ := κ) (e.isOptimistic id) e .json (blockPath id) (flagOf id) := by
  refine (asks_getJson e (blockPath id)).bind fun answer s => ?_
  have hentry : (Work.ofExcept (answer.entryOr "execution_optimistic" .null) : Job κ Datum) [] s
      = (ended (answer.entryOr "execution_optimistic" .null), s) := Work.ofExcept_eq _ s
  cases h : answer.entryOr "execution_optimistic" .null with
  | error failure =>
    rw [h] at hentry
    exact Work.andThen_of_failed hentry
  | ok flag =>
    rw [h] at hentry
    rw [Work.andThen_of_done hentry]
    cases flag <;> rfl

theorem asks_payload (e : Endpoint) (kind : PayloadKind) (path : String) :
    Asks (κ := κ) (payload kind e path) e .bytes path (e.payloadOf kind path) := by
  refine (asks_getBytes e path).bind fun answer s => ?_
  obtain ⟨version, body⟩ := answer
  cases version with
  | none => rfl
  | some tag => exact Work.ofExcept_eq _ s

theorem asks_block (e : Endpoint) (id : Datum) :
    Asks (κ := κ) (e.block id) e .bytes (blockPath id) (e.blockOf id) :=
  asks_payload e .block (blockPath id)

/-! ## Requests are plain -/

theorem plain_openSession (e : Endpoint) : Plain (e.openSession : Job κ Unit) := by
  refine .bind .world fun link => ?_
  split
  · exact .done ()
  · exact .bind (.note _) fun _ => .change _

theorem plain_await (e : Endpoint) (reply : Reply) : Plain (e.await reply : Job κ Reply) := by
  have hlast : Plain (match reply.failure with
      | some failure => Work.fail failure
      | none => return reply : Job κ Reply) := by
    split
    · exact .fail _
    · exact .done _
  have hwait : ∀ isLate : Bool, Plain (do
      if isLate then
        Work.sleepFor e.rpcTimeout
        Work.fail .timedOut
      else Work.pause reply.delay
      match reply.failure with
      | some failure => Work.fail failure
      | none => return reply : Job κ Reply) := by
    intro isLate
    cases isLate with
    | true => exact .bind (.sleepFor _) fun _ => .bind (.fail _) fun _ => hlast
    | false => exact .bind (.pause _) fun _ => hlast
  rw [await]
  split
  · exact .bind (.done false) hwait
  · exact .bind (.ofExcept _) hwait

theorem plain_send (e : Endpoint) (verb : Verb) (path : String) (query : List (String × String))
    (payload : Option Datum) : Plain (e.send verb path query payload : Job κ Reply) :=
  .bind (plain_openSession e) fun _ => .bind (.note _) fun _ => .bind .world fun _ =>
    .bind (.change _) fun _ => plain_await e _

theorem plain_checked (path : String) (reply : Reply) :
    Plain (checked path reply : Job κ Reply) := by
  rw [checked]
  split
  · exact .fail _
  · exact .done _

theorem plain_getJson (e : Endpoint) (path : String) (query : List (String × String)) :
    Plain (e.getJson path query : Job κ Datum) := by
  refine .bind (plain_send e _ path query none) fun reply => ?_
  refine .bind (plain_checked path reply) fun reply => ?_
  split
  · exact .done _
  · exact .fail _

theorem plain_spec (e : Endpoint) : Plain (e.spec : Job κ Datum) :=
  .bind (plain_getJson e specPath []) fun _ => .ofExcept _

theorem plain_genesis (e : Endpoint) : Plain (e.genesis : Job κ Genesis) :=
  .bind (plain_getJson e genesisPath []) fun _ => .ofExcept _

theorem plain_header (e : Endpoint) (id : Datum) : Plain (e.header id : Job κ HeaderInfo) :=
  .bind (plain_getJson e (headerPath id) []) fun _ => .ofExcept _

theorem plain_isOptimistic (e : Endpoint) (id : Datum) :
    Plain (e.isOptimistic id : Job κ (Option Bool)) := by
  refine .bind (plain_getJson e (blockPath id) []) fun answer => ?_
  refine .bind (.ofExcept _) fun flag => ?_
  split
  · exact .done _
  · exact .done _

theorem plain_block (e : Endpoint) (id : Datum) : Plain (e.block id : Job κ VersionedBlock) := by
  refine .bind (.bind (plain_send e .bytes (blockPath id) [] none) fun reply =>
    .bind (plain_checked _ reply) fun _ => .done _) fun answer => ?_
  obtain ⟨version, body⟩ := answer
  cases version with
  | none => exact .fail _
  | some tag => exact .ofExcept _

end Endpoint

end Node

end BeaconHarness
