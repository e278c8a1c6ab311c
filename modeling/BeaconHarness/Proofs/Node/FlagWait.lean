import BeaconHarness.Proofs.Node.PayloadWait

/-!
# Waiting for a flag

A client waits for the flag of a block tick by tick: a tick is a slot that passes and a glance at
the flag after it. A glance at which the flag is the wanted one asks for the header of the block as
well, and that request decides the wait, whatever it comes to. A flag that is not to be had is asked
for again, even where the same failure of the request for the header would end the wait.

Main statement: `waitForOptimisticState_ends`.
-/

namespace BeaconHarness.Client

open Node (Link Line Remote Route Reply HeaderInfo)
open Node.Endpoint (After blockPath flagOf headerPath headerOf asks_isOptimistic asks_header)
open Work (ended elapse verdict? Plain)

variable (c : Client) (id : Datum) (wanted : Bool)

/-! ## Glances -/

/-- The request for the flag of a block. -/
def flagRoute : Route := c.endpoint.route .json (blockPath id)

/-- The request for the header of a block. -/
def headerRoute : Route := c.endpoint.route .json (headerPath id)

/-- What the request for the flag of a block comes to. -/
def flagAt (r : Remote) : Except Failure (Option Bool) :=
  c.endpoint.exchange .json (blockPath id) (flagOf id) r

/-- What the request for the header of a block comes to. -/
def headerAt (r : Remote) : Except Failure HeaderInfo :=
  c.endpoint.exchange .json (headerPath id) (headerOf id) r

/-- Whether the flag of a block is there and is the wanted one; a missing flag is not set. -/
def Meets (r : Remote) : Prop := ∃ flag, c.flagAt id r = .ok flag ∧ flag.getD false = wanted

/-- Whether the flag of a block is there but is not the wanted one, or the request for it fails in
a way that calls for another one. -/
def Passes (r : Remote) : Prop :=
  (∃ flag, c.flagAt id r = .ok flag ∧ flag.getD false ≠ wanted)
    ∨ ∃ e, c.flagAt id r = .error e ∧ e.isOneOf flagKinds = true

/-- The glance at the flag of a block, as a view of the network. -/
def glance (r : Remote) : Node.Glimpse HeaderInfo :=
  match c.flagAt id r with
  | .error e =>
    ⟨if e.isOneOf flagKinds then .ok none else .error e, [c.flagRoute id],
      c.endpoint.arrival (r.replyTo (c.flagRoute id))⟩
  | .ok flag =>
    if flag.getD false = wanted then
      ⟨(c.headerAt id r).map some, [c.headerRoute id, c.flagRoute id],
        c.endpoint.arrival (r.replyTo (c.headerRoute id))
          ∘ c.endpoint.arrival (r.replyTo (c.flagRoute id))⟩
    else ⟨.ok none, [c.flagRoute id], c.endpoint.arrival (r.replyTo (c.flagRoute id))⟩

variable {c id wanted} {r : Remote}

theorem glance_of_error {e : Failure} (h : c.flagAt id r = .error e) :
    c.glance id wanted r = ⟨if e.isOneOf flagKinds then .ok none else .error e,
      [c.flagRoute id], c.endpoint.arrival (r.replyTo (c.flagRoute id))⟩ := by
  rw [glance, h]

theorem glance_of_ne {flag : Option Bool} (h : c.flagAt id r = .ok flag)
    (hflag : flag.getD false ≠ wanted) :
    c.glance id wanted r
      = ⟨.ok none, [c.flagRoute id], c.endpoint.arrival (r.replyTo (c.flagRoute id))⟩ := by
  simp only [glance, h, if_neg hflag]

theorem glance_of_meets (h : c.Meets id wanted r) :
    c.glance id wanted r = ⟨(c.headerAt id r).map some, [c.headerRoute id, c.flagRoute id],
      c.endpoint.arrival (r.replyTo (c.headerRoute id))
        ∘ c.endpoint.arrival (r.replyTo (c.flagRoute id))⟩ := by
  obtain ⟨flag, hserved, hflag⟩ := h
  simp only [glance, hserved, if_pos hflag]

theorem glance_of_passes (h : c.Passes id wanted r) :
    c.glance id wanted r
      = ⟨.ok none, [c.flagRoute id], c.endpoint.arrival (r.replyTo (c.flagRoute id))⟩ := by
  rcases h with ⟨flag, hserved, hflag⟩ | ⟨e, hfailed, hkind⟩
  · exact glance_of_ne hserved hflag
  · rw [glance_of_error hfailed, if_pos hkind]

/-- A glance that neither passes nor meets the wanted flag fails for good. -/
theorem passes_or_meets_or_fails (c : Client) (id : Datum) (wanted : Bool) (r : Remote) :
    c.Passes id wanted r ∨ c.Meets id wanted r
      ∨ ∃ e, c.flagAt id r = .error e ∧ e.isOneOf flagKinds = false := by
  cases hserved : c.flagAt id r with
  | error e =>
    cases hkind : e.isOneOf flagKinds with
    | true => exact .inl (.inr ⟨e, hserved, hkind⟩)
    | false => exact .inr (.inr ⟨e, rfl, hkind⟩)
  | ok flag =>
    by_cases hflag : flag.getD false = wanted
    · exact .inr (.inl ⟨flag, hserved, hflag⟩)
    · exact .inl (.inl ⟨flag, hserved, hflag⟩)

/-- Nothing is found at a glance exactly where it passes. -/
theorem answer_eq_none_iff :
    (c.glance id wanted r).answer = .ok none ↔ c.Passes id wanted r := by
  refine ⟨fun h => ?_, fun h => by rw [glance_of_passes h]⟩
  rcases passes_or_meets_or_fails c id wanted r with hpasses | hmeets | ⟨e, hfailed, hkind⟩
  · exact hpasses
  · rw [glance_of_meets hmeets] at h
    cases hheader : c.headerAt id r <;> rw [hheader] at h <;> exact nomatch h
  · rw [glance_of_error hfailed, hkind] at h
    exact nomatch h

/-- A wait goes on after a glance exactly where that passes. -/
theorem undecided_iff_passes :
    verdict? [] (c.glance id wanted r).answer = none ↔ c.Passes id wanted r :=
  verdict?_eq_none_iff.trans answer_eq_none_iff

/-- A glance finds a header exactly where the flag is the wanted one and the header is there. -/
theorem answer_eq_some_iff {header : HeaderInfo} :
    (c.glance id wanted r).answer = .ok (some header)
      ↔ c.Meets id wanted r ∧ c.headerAt id r = .ok header := by
  constructor
  · intro h
    rcases passes_or_meets_or_fails c id wanted r with hpasses | hmeets | ⟨e, hfailed, hkind⟩
    · rw [glance_of_passes hpasses] at h
      exact nomatch h
    · rw [glance_of_meets hmeets] at h
      obtain ⟨found, hheader, rfl⟩ : ∃ found, c.headerAt id r = .ok found ∧ found = header := by
        cases hheader : c.headerAt id r with
        | error e => rw [hheader] at h; exact nomatch h
        | ok found =>
          rw [hheader] at h
          exact ⟨found, rfl, Option.some.inj (Except.ok.inj h)⟩
      exact ⟨hmeets, hheader⟩
    · rw [glance_of_error hfailed, hkind] at h
      exact nomatch h
  · rintro ⟨hmeets, hheader⟩
    rw [glance_of_meets hmeets, hheader]
    rfl

/-! ## Glancing -/

/-- Blocks are asked for at the second version of the interface, and headers at the first. -/
theorem blockPath_ne_headerPath (id other : Datum) : blockPath id ≠ headerPath other := by
  have hblock : (blockPath id).toList[6]? = some '2' := Node.Endpoint.getElem?_path (by decide)
  have hheader : (headerPath other).toList[6]? = some '1' := Node.Endpoint.getElem?_path (by decide)
  intro h
  rw [h, hheader] at hblock
  exact absurd hblock (by decide)

/-- Replies for flags and headers are set up on routes of their own. -/
theorem flagRoute_ne_headerRoute (c : Client) (id : Datum) : c.flagRoute id ≠ c.headerRoute id := by
  intro h
  have hrequest : "GET" ++ " " ++ blockPath id = "GET" ++ " " ++ headerPath id :=
    congrArg Route.request h
  exact blockPath_ne_headerPath id id ((String.append_right_inj _).mp hrequest)

/-- A glance at a flag makes the requests that it has to, and comes to what the replies to them
tell. -/
theorem shows_checkFlag (c : Client) (id : Datum) (wanted : Bool) :
    Node.Shows (c.checkFlag id (.bool wanted)) (c.glance id wanted) := by
  intro s
  obtain ⟨t, hflag, hasked⟩ := asks_isOptimistic c.endpoint id s
  have htold : Work.attempt (c.endpoint.isOptimistic id) [] s
      = (.done (c.flagAt id s.world.remote), t) := attempt_of_ended hflag
  rw [checkFlag]
  show ∃ u, (Work.attempt (c.endpoint.isOptimistic id) >>= _) [] s = _ ∧ _
  rw [Work.andThen_of_done htold]
  cases hserved : c.flagAt id s.world.remote with
  | error e =>
    rw [glance_of_error hserved]
    refine ⟨t, ?_, hasked⟩
    show (if e.isOneOf flagKinds then return none else Work.fail e : Job (Option HeaderInfo)) [] t
      = _
    cases e.isOneOf flagKinds <;> rfl
  | ok flag =>
    by_cases hwanted : flag.getD false = wanted
    · rw [glance_of_meets ⟨flag, hserved, hwanted⟩]
      obtain ⟨u, hheader, hafter⟩ :=
        (asks_header c.endpoint id).after hasked (flagRoute_ne_headerRoute c id)
      refine ⟨u, ?_, hafter⟩
      simp only [Datum.same_bool, decide_eq_true hwanted.symm, if_true]
      show (c.endpoint.header id >>= _) [] t = _
      change c.endpoint.header id [] t = (ended (c.headerAt id s.world.remote), u) at hheader
      cases hserved : c.headerAt id s.world.remote with
      | error e =>
        rw [hserved] at hheader
        exact Work.andThen_of_failed hheader
      | ok header =>
        rw [hserved] at hheader
        exact Work.andThen_of_done hheader
    · rw [glance_of_ne hserved hwanted]
      refine ⟨t, ?_, hasked⟩
      simp only [Datum.same_bool, decide_eq_false (Ne.symm hwanted)]
      rfl

theorem plain_checkFlag (c : Client) (id wanted : Datum) : Plain (c.checkFlag id wanted) := by
  refine .bind (.attempt (Node.Endpoint.plain_isOptimistic c.endpoint id)) fun told => ?_
  split
  · split
    · exact .done _
    · exact .fail _
  · split
    · exact .bind (Node.Endpoint.plain_header c.endpoint id) fun _ => .done _
    · exact .done _

/-! ## Glances repeat themselves -/

/-- The request for the header that the reply to the request for the flag leads to. -/
def nextHeader (c : Client) (id : Datum) (wanted : Bool) (reply : Reply) : Option Route :=
  match c.endpoint.received reply >>= flagOf id with
  | .error _ => none
  | .ok flag => if flag.getD false = wanted then some (c.headerRoute id) else none

/-- Only the wanted flag leads to the header. -/
theorem nextHeader_eq_some_iff {route : Route} :
    c.nextHeader id wanted (r.replyTo (c.flagRoute id)) = some route
      ↔ c.Meets id wanted r ∧ route = c.headerRoute id := by
  have hserved : c.endpoint.received (r.replyTo (c.flagRoute id)) >>= flagOf id = c.flagAt id r :=
    rfl
  rw [nextHeader, hserved, Meets]
  cases c.flagAt id r with
  | error e => simp
  | ok flag => simp [eq_comm]

/-- A glance makes one request or two. -/
theorem reads_glance (c : Client) (id : Datum) (wanted : Bool) :
    Node.Reads (c.glance id wanted) (c.flagRoute id) (c.nextHeader id wanted) where
  asks_first r := by
    rcases passes_or_meets_or_fails c id wanted r with hpasses | hmeets | ⟨e, hfailed, -⟩
    · rw [glance_of_passes hpasses]
      exact List.mem_cons_self
    · rw [glance_of_meets hmeets]
      exact List.mem_cons_of_mem _ List.mem_cons_self
    · rw [glance_of_error hfailed]
      exact List.mem_cons_self
  asks_second r route h := by
    obtain ⟨hmeets, rfl⟩ := nextHeader_eq_some_iff.mp h
    rw [glance_of_meets hmeets]
    exact List.mem_cons_self
  ne reply route h := by
    have hroute : route = c.headerRoute id := by
      rw [nextHeader] at h
      split at h
      · exact nomatch h
      · split at h
        · exact (Option.some.inj h).symm
        · exact nomatch h
    rw [hroute]
    exact flagRoute_ne_headerRoute c id
  congr r r' hflag hheader := by
    have hserved : c.flagAt id r' = c.flagAt id r :=
      Node.Endpoint.exchange_congr hflag
    rcases passes_or_meets_or_fails c id wanted r with hpasses | hmeets | ⟨e, hfailed, -⟩
    · have hpasses' : c.Passes id wanted r' := by rwa [Passes, hserved]
      rw [glance_of_passes hpasses, glance_of_passes hpasses', hflag]
    · have hmeets' : c.Meets id wanted r' := by rwa [Meets, hserved]
      have hreply := hheader _ (nextHeader_eq_some_iff.mpr ⟨hmeets, rfl⟩)
      have hheaderAt : c.headerAt id r' = c.headerAt id r :=
        Node.Endpoint.exchange_congr hreply
      rw [glance_of_meets hmeets, glance_of_meets hmeets', hflag, hreply, hheaderAt]
    · rw [glance_of_error hfailed, glance_of_error (hserved.trans hfailed), hflag]

/-! ## The wait -/

variable {spec : Spec}

/-- Where a client stands that has told the log which node it waits for. -/
def announcedFlag (c : Client) (s : Stage (Link ClientConfig) Line) :
    Stage (Link ClientConfig) Line :=
  { s with
    journal := .note (.info ("Waiting for optimistic sync on " ++ c.labelOf s.world.own))
      :: s.journal }

/-- What a wait for a flag is called. -/
def flagTitle (c : Client) (id : Datum) (wanted : Bool) (own : ClientConfig) : String :=
  "optimistic=" ++ (Datum.bool wanted).display ++ " for block " ++ id.display ++ " on "
    ++ c.labelOf own

/-- A wait for a flag that has begun, as a poll of a number of rounds. -/
def pollFlag (c : Client) (id : Datum) (wanted : Bool) (spec : Spec)
    (deadline : Option Work.Limit) (own : ClientConfig) (rounds : Nat) : Job HeaderInfo :=
  Work.pollUntil rounds (Work.sleepFor spec.secondsPerSlot) deadline (c.flagTitle id wanted own) []
    (c.checkFlag id (.bool wanted))

theorem waitForOptimisticState_begins (c : Client) (id : Datum) (wanted : Bool) {limit : Datum}
    {deadline : Option Work.Limit} (alarms : List Alarm) {s : Stage (Link ClientConfig) Line}
    (hspec : s.world.own.spec = some spec) (hlimit : limit.limit = .ok deadline) :
    c.waitForOptimisticState id (.bool wanted) limit alarms s
      = withRounds deadline (c.pollFlag id wanted spec deadline s.world.own) alarms
        (c.announcedFlag s) := by
  have hlabel : c.label alarms s = (.done (c.labelOf s.world.own), s) := rfl
  have hlog : Node.logInfo ("Waiting for optimistic sync on " ++ c.labelOf s.world.own) alarms s
      = (.done (), c.announcedFlag s) := rfl
  have hdeadline : (Work.ofExcept limit.limit : Job (Option Work.Limit)) alarms (c.announcedFlag s)
      = (.done deadline, c.announcedFlag s) := by
    rw [hlimit]
    rfl
  rw [waitForOptimisticState, Work.andThen_of_done (spec_of_some hspec),
    Work.andThen_of_done hlabel, Work.andThen_of_done hlog, Work.andThen_of_done hdeadline]
  rfl

/-- The wait is a poll, with a number of rounds that depends on the network and the deadline. -/
theorem waitForOptimisticState_eq (c : Client) (id : Datum) (wanted : Bool) {limit : Datum}
    {deadline : Option Work.Limit} {s : Stage (Link ClientConfig) Line}
    (hspec : s.world.own.spec = some spec) (hlimit : limit.limit = .ok deadline) :
    c.waitForOptimisticState id (.bool wanted) limit [] s
      = Work.pollUntil (s.world.remote.replyCount + (deadline.map Work.Limit.span).getD 0 + 2)
        (Work.sleepFor spec.secondsPerSlot) deadline (c.flagTitle id wanted s.world.own) []
        (c.checkFlag id (.bool wanted)) [] (c.announcedFlag s) := by
  rw [waitForOptimisticState_begins c id wanted [] hspec hlimit, withRounds_eq]
  rfl

/-- A tick that is passed over asks for the flag alone, and finds nothing. -/
theorem tick_of_passes {length : Nat} {s : Stage (Link ClientConfig) Line} {k : Nat}
    (hslots : spec.secondsPerSlot.span = .ok length)
    (hk : c.Passes id wanted (Node.afterTicks spec.secondsPerSlot (c.checkFlag id (.bool wanted)) s
      k).world.remote) :
    let u := Node.afterTicks spec.secondsPerSlot (c.checkFlag id (.bool wanted)) s
    Node.tick spec.secondsPerSlot (c.checkFlag id (.bool wanted)) [] (u k) = (.done none, u (k + 1))
      ∧ (u (k + 1)).world.remote
        = { (u k).world.remote with asked := c.flagRoute id :: (u k).world.remote.asked } := by
  intro u
  have hshows := shows_checkFlag c id wanted
  have htick := Node.afterTicks_eq hslots hshows s k
  have hafter := (Node.afterTicks_after hslots hshows s k).remote
  rw [glance_of_passes hk] at htick hafter
  exact ⟨htick, hafter⟩

/-- A node that answers for the flag of one block, and for nothing else. -/
def flagged (flags : List Reply) : Stage (Link ClientConfig) Line where
  world := {
    own := { spec := some {} }
    remote.routes := [(watcher.flagRoute (.int 5), flags)] }

/-- The network of that node after some requests for the flag. -/
def askedFor (flags : List Reply) (k : Nat) : Remote :=
  { (flagged flags).world.remote with
    asked := List.replicate k (watcher.flagRoute (.int 5)) }

theorem flagAt_askedFor (flags : List Reply) (k : Nat) :
    watcher.flagAt (.int 5) (askedFor flags k)
      = watcher.endpoint.received (flags[k]?.getD (flags.getLastD .unknown))
        >>= flagOf (.int 5) := by
  have hlookup : (askedFor flags k).routes.lookup (watcher.flagRoute (.int 5)) = some flags :=
    List.lookup_cons_self
  have hcount : (askedFor flags k).asked.count (watcher.flagRoute (.int 5)) = k :=
    List.count_replicate_self
  have hreply := Remote.replyTo_of_lookup hlookup
  rw [hcount] at hreply
  exact congrArg (fun reply => watcher.endpoint.received reply >>= flagOf (.int 5)) hreply

/-- The node does not know headers. -/
theorem headerAt_askedFor (flags : List Reply) (k : Nat) :
    watcher.headerAt (.int 5) (askedFor flags k)
      = .error (.notFound "/eth/v1/beacon/headers/5 not found") := by
  have hother : (watcher.headerRoute (.int 5) == watcher.flagRoute (.int 5)) = false :=
    beq_false_of_ne (flagRoute_ne_headerRoute _ _).symm
  have hlookup : (askedFor flags k).routes.lookup (watcher.headerRoute (.int 5)) = none := by
    show List.lookup _ [_] = none
    rw [List.lookup_cons, hother]
    rfl
  have hreply : (askedFor flags k).replyTo (watcher.headerRoute (.int 5)) = .unknown := by
    rw [Remote.replyTo, hlookup]
  have hreceived : watcher.headerAt (.int 5) (askedFor flags k)
      = watcher.endpoint.received .unknown >>= headerOf (.int 5) :=
    congrArg (fun reply => watcher.endpoint.received reply >>= headerOf (.int 5)) hreply
  rw [hreceived]
  rfl

/-- Ticks that are passed over ask that node for the flag, once each. -/
theorem remote_of_passed {flags : List Reply} {m : Nat}
    (h : ∀ k < m, watcher.Passes (.int 5) true (askedFor flags k)) {k : Nat} (hk : k ≤ m) :
    (Node.afterTicks ({} : Spec).secondsPerSlot (watcher.checkFlag (.int 5) (.bool true))
      (watcher.announcedFlag (flagged flags)) k).world.remote = askedFor flags k := by
  induction k with
  | zero => rfl
  | succ k ih =>
    have hremote := ih (by omega)
    have hpasses := h k (by omega)
    rw [← hremote] at hpasses
    rw [(tick_of_passes span_twelveSeconds hpasses).2, hremote]
    rfl

theorem passes_afterTicks {flags : List Reply} {m : Nat}
    (h : ∀ k < m, watcher.Passes (.int 5) true (askedFor flags k)) {k : Nat} (hk : k < m) :
    watcher.Passes (.int 5) true (Node.afterTicks ({} : Spec).secondsPerSlot
      (watcher.checkFlag (.int 5) (.bool true)) (watcher.announcedFlag (flagged flags))
      k).world.remote := by
  rw [remote_of_passed h (Nat.le_of_lt hk)]
  exact h k hk

end BeaconHarness.Client
