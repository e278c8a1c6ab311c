import BeaconHarness.Proofs.Node.Served

/-!
# Waiting for a payload

A client waits for a payload tick by tick: a tick is a slot that passes and a look at the head after
it. The wait ends with the first tick that finds a payload or fails for good, or at its deadline.

Main statement: `waitForExecutionPayload_ends`.
-/

namespace BeaconHarness.Client

open Node (Link Line Remote Route)
open Node.Endpoint (After)
open Work (ended elapse verdict?)

variable {c : Client} {spec : Spec} {genesisTime : Datum}

/-! ## Ticks -/

/-- Slots can be waited for and counted: the length of a slot is one of time, and every instant of
the client's clock lies in a slot. -/
structure Slotted (c : Client) (spec : Spec) (genesisTime : Datum) : Prop where
  span : ∃ length, spec.secondsPerSlot.span = .ok length
  slot : ∀ now, ∃ slot, c.slotAt spec genesisTime now = .ok slot

/-- Slots of a whole number of seconds can be counted from a whole second. -/
theorem slotted_of_int {seconds start : Int} (hseconds : spec.secondsPerSlot = .int seconds)
    (hsome : seconds ≠ 0) (hrange : seconds.natAbs < Nat.pow 2 1000) :
    c.Slotted spec (.int start) where
  span := by
    rw [hseconds]
    exact Datum.exists_span_int hrange
  slot now := by
    rw [slotAt]
    generalize (secondsOfTicks (c.timeOfDay + now)).truncate?.getD 0 = time
    rw [Spec.timeToSlot, Datum.isBelow_int, hseconds]
    by_cases hearly : time < start
    · rw [decide_eq_true hearly]
      exact ⟨_, rfl⟩
    · have hquotient : Datum.floorDivide (time - start) (.int seconds)
          = .ok (.int ((time - start).fdiv seconds)) := by
        rw [Datum.floorDivide_int, if_neg hsome]
      rw [decide_eq_false hearly]
      simp only [Datum.plainInteger, bind, Except.bind, hquotient, Datum.plus_int]
      exact ⟨_, rfl⟩

/-- Where slots can be counted, a look at the head comes to what is to be seen there. -/
theorem shows_checkHead (h : c.Slotted spec genesisTime) :
    Node.Shows (c.checkHead spec genesisTime) c.look := by
  intro s
  obtain ⟨slot, hslot⟩ := h.slot s.now
  exact checkHead_eq hslot

/-- Looks that nothing stops repeat themselves in the end. -/
theorem exists_repeats (h : c.Slotted spec genesisTime) (s : Stage (Link ClientConfig) Line) :
    let u := Node.afterTicks spec.secondsPerSlot (c.checkHead spec genesisTime) s
    ∃ n ≤ s.world.remote.replyCount, Work.Repeats spec.secondsPerSlot []
      (c.checkHead spec genesisTime) u (fun k => (c.look (u k).world.remote).answer) n := by
  obtain ⟨length, hspan⟩ := h.span
  exact Node.exists_repeats_of_reads hspan (shows_checkHead h) (plain_checkHead spec genesisTime)
    (reads_look c) s

/-! ## The wait -/

/-- Where a client stands that has told the log what it waits for. -/
def announced (c : Client) (s : Stage (Link ClientConfig) Line) : Stage (Link ClientConfig) Line :=
  { s with
    journal := .note (.info ("Waiting for execution payload on " ++ c.labelOf s.world.own))
      :: s.journal }

/-- A wait for a payload that has begun, as a poll of a number of rounds. -/
def pollPayload (c : Client) (spec : Spec) (genesisTime : Datum) (deadline : Option Work.Limit)
    (own : ClientConfig) (rounds : Nat) : Job Bytes :=
  Work.pollUntil rounds (Work.sleepFor spec.secondsPerSlot) deadline
    ("execution payload on " ++ c.labelOf own) [] (c.checkHead spec genesisTime)

theorem waitForExecutionPayload_begins (c : Client) {limit : Datum}
    {deadline : Option Work.Limit} (alarms : List Alarm) {s : Stage (Link ClientConfig) Line}
    (hspec : s.world.own.spec = some spec)
    (hgenesis : s.world.own.genesisTime = some genesisTime) (hlimit : limit.limit = .ok deadline) :
    c.waitForExecutionPayload limit alarms s
      = withRounds deadline (c.pollPayload spec genesisTime deadline s.world.own) alarms
        (c.announced s) := by
  have hgenesisRun : c.genesisTime alarms s = (.done genesisTime, s) := by
    show (c.resolved "genesis" s.world.own.genesisTime) alarms s = _
    rw [hgenesis]
    rfl
  have hlabel : c.label alarms s = (.done (c.labelOf s.world.own), s) := rfl
  have hlog : Node.logInfo ("Waiting for execution payload on " ++ c.labelOf s.world.own) alarms s
      = (.done (), c.announced s) := rfl
  have hdeadline : (Work.ofExcept limit.limit : Job (Option Work.Limit)) alarms (c.announced s)
      = (.done deadline, c.announced s) := by
    rw [hlimit]
    rfl
  rw [waitForExecutionPayload, Work.andThen_of_done (spec_of_some hspec),
    Work.andThen_of_done hgenesisRun, Work.andThen_of_done hlabel, Work.andThen_of_done hlog,
    Work.andThen_of_done hdeadline]
  rfl

/-- The wait is a poll, with a number of rounds that depends on the network and the deadline. -/
theorem waitForExecutionPayload_eq (c : Client) {limit : Datum}
    {deadline : Option Work.Limit} {s : Stage (Link ClientConfig) Line}
    (hspec : s.world.own.spec = some spec)
    (hgenesis : s.world.own.genesisTime = some genesisTime) (hlimit : limit.limit = .ok deadline) :
    c.waitForExecutionPayload limit [] s
      = Work.pollUntil (s.world.remote.replyCount + (deadline.map Work.Limit.span).getD 0 + 2)
        (Work.sleepFor spec.secondsPerSlot) deadline
        ("execution payload on " ++ c.labelOf s.world.own) [] (c.checkHead spec genesisTime) []
        (c.announced s) := by
  rw [waitForExecutionPayload_begins c [] hspec hgenesis hlimit, withRounds_eq]
  rfl

/-- An answer with the header of the head. -/
def headReply (canonical : Bool) : Node.Reply :=
  headerReply canonical (headerAfter 0 Signing.zeroRoot)

/-- A node with these headers, and one block with a payload. -/
def watched (headers : List Node.Reply) : Stage (Link ClientConfig) Line where
  world := {
    own := { spec := some {}, genesisTime := some (.int 0) }
    remote.routes := [(watcher.headRoute, headers),
      (watcher.blockRoute [0x22], [blockReply filledBlock])] }

theorem slotted_watcher : watcher.Slotted {} (.int 0) :=
  slotted_of_int rfl (by decide) (by decide +kernel)

section Watched

variable {r : Remote} {canonical : Bool}

theorem exists_head (h : r.replyTo watcher.headRoute = headReply canonical) :
    ∃ head, watcher.headAt r = .ok head ∧ head.canonical = canonical ∧ head.root = [0x22] := by
  obtain ⟨head, hserved, hroot, hcanonical, -⟩ :=
    Node.Endpoint.exchange_headerReply (e := watcher.endpoint) rfl (by decide +kernel) h
  exact ⟨head, hserved, hcanonical, hroot⟩

/-- A head that is not canonical is nothing to go by. -/
theorem looked_detached (h : r.replyTo watcher.headRoute = headReply false) :
    watcher.Looked r (.ok none) [watcher.headRoute] := by
  obtain ⟨head, hserved, hdetached, -⟩ := exists_head h
  exact .detached hserved hdetached

/-- The payload of that block is found in a canonical head. -/
theorem looked_filled (h : r.replyTo watcher.headRoute = headReply true)
    (hblock : r.replyTo (watcher.blockRoute [0x22]) = blockReply filledBlock) :
    watcher.Looked r (.ok (some someHash)) [watcher.blockRoute [0x22], watcher.headRoute] := by
  obtain ⟨head, hserved, hcanonical, hroot⟩ := exists_head h
  have hfilled : watcher.blockAt head.root r = .ok filledBlock := by
    rw [hroot]
    exact exchange_filledBlock hblock
  rw [← hroot]
  exact .filled hserved hcanonical hfilled payloadHash_filledBlock someHash_ne_zeroRoot

/-- The header that is due on that node after some requests. -/
theorem replyTo_head {headers : List Node.Reply} {reply : Node.Reply}
    (h : r.routes = (watched headers).world.remote.routes)
    (hdue : headers[r.asked.count watcher.headRoute]?.getD (headers.getLastD .unknown) = reply) :
    r.replyTo watcher.headRoute = reply := by
  rw [← hdue]
  refine Remote.replyTo_of_lookup ?_
  rw [h]
  exact List.lookup_cons_self

/-- Its block is there whatever has been asked for. -/
theorem replyTo_block {headers : List Node.Reply}
    (h : r.routes = (watched headers).world.remote.routes) :
    r.replyTo (watcher.blockRoute [0x22]) = blockReply filledBlock := by
  refine Remote.replyTo_of_lookup_singleton ?_
  have hother : (watcher.blockRoute [0x22] == watcher.headRoute) = false :=
    beq_false_of_ne (headRoute_ne_blockRoute _).symm
  rw [h]
  show List.lookup _ [_, _] = _
  rw [List.lookup_cons, hother]
  exact List.lookup_cons_self

end Watched

end BeaconHarness.Client
