import BeaconHarness.Proofs.Network.Schedule
import BeaconHarness.Proofs.Node.PayloadWait
import BeaconHarness.Proofs.Node.Search

/-!
# Searches for payloads

A client searches its node for three blocks: the latest one with a payload, from the head back to
slot 1, the first one with a payload, from slot 0 up to the slot at the time of day, and the one
whose payload has a given hash, from the head back again. The first of these searches skips a slot
only if the node does not know a block for it. The other two skip a slot also if its block may come
later.

Main statements: `latestExecutionBlock_is_latest` and `searches_find_payloads`.
-/

namespace BeaconHarness.Client

open Node (Link Line Remote Route HeaderInfo)
open Node.Endpoint (asks_header)
open Work (ended)

variable {c : Client} {s : Stage (Link ClientConfig) Line} {head : HeaderInfo}

/-! ## Ways to search -/

theorem seeks_filled :
    Seeks [.notFound] VersionedBlock.isFilled [.notFound] VersionedBlock.Filled where
  kind _ := Failure.isOneOf_notFound_iff.trans List.mem_singleton.symm
  block _ := VersionedBlock.isFilled_iff

theorem seeks_filled_later :
    Seeks transientKinds VersionedBlock.isFilled fleetingKinds VersionedBlock.Filled where
  kind _ := Failure.isTransient_iff
  block _ := VersionedBlock.isFilled_iff

theorem seeks_hash (hash : Bytes) :
    Seeks transientKinds (fun block => block.payloadHash = some hash) fleetingKinds
      (VersionedBlock.HasHash hash) where
  kind _ := Failure.isTransient_iff
  block _ := decide_eq_true_iff

/-! ## Beginnings -/

/-- Replies for headers and blocks are set up on routes of their own. -/
theorem slotRoute_not_mem_headRoute (slot : Nat) : c.slotRoute slot ∉ [c.headRoute] := by
  rw [List.mem_singleton]
  exact (Node.Endpoint.route_json_ne_bytes c.endpoint _ _).symm

/-- A header that is there has been asked for once. -/
theorem header_of_headAt (h : c.headAt s.world.remote = .ok head) :
    ∃ t, c.endpoint.header (.str "head") [] s = (.done head, t)
      ∧ t.world.remote
        = { s.world.remote with asked := [c.headRoute] ++ s.world.remote.asked } := by
  obtain ⟨t, hheader, hasked⟩ := asks_header c.endpoint (.str "head") s
  refine ⟨t, ?_, hasked.remote⟩
  rw [hheader]
  exact congrArg (fun result => (ended result, t)) h

/-- The slots from the head down to the first one come in order, none of them twice. -/
theorem descending (slot : Nat) : (List.range' 1 slot).reverse.Pairwise (· > ·) := by
  rw [List.pairwise_reverse]
  exact List.pairwise_lt_range'

theorem mem_descending {slot k : Nat} :
    k ∈ (List.range' 1 slot).reverse ↔ 1 ≤ k ∧ k ≤ slot := by
  rw [List.mem_reverse, List.mem_range'_1]
  omega

theorem latestExecutionBlock_begins (h : c.headAt s.world.remote = .ok head) :
    ∃ t, c.latestExecutionBlock [] s = c.searchAll [.notFound] VersionedBlock.isFilled
        (List.range' 1 head.slot).reverse [] t
      ∧ t.world.remote
        = { s.world.remote with asked := [c.headRoute] ++ s.world.remote.asked } := by
  obtain ⟨t, hheader, hremote⟩ := header_of_headAt h
  refine ⟨t, ?_, hremote⟩
  rw [latestExecutionBlock, Work.andThen_of_done hheader, searchDown_eq]

theorem blockByExecutionHash_begins (h : c.headAt s.world.remote = .ok head) {d : Datum}
    {hash : Bytes} (hhash : d.toBytes = .ok hash) :
    ∃ t, c.blockByExecutionHash d [] s = c.searchAll transientKinds
        (fun block => block.payloadHash = some hash) (List.range' 1 head.slot).reverse [] t
      ∧ t.world.remote
        = { s.world.remote with asked := [c.headRoute] ++ s.world.remote.asked } := by
  obtain ⟨t, hheader, hremote⟩ := header_of_headAt h
  have hread : (Work.ofExcept d.toBytes : Job Bytes) [] t = (.done hash, t) := by
    rw [hhash]
    rfl
  refine ⟨t, ?_, hremote⟩
  rw [blockByExecutionHash, Work.andThen_of_done hheader, Work.andThen_of_done hread, searchDown_eq]

/-- The time of day at an instant of the client's clock, in whole seconds. -/
def secondsAt (c : Client) (now : Nat) : Int :=
  (secondsOfTicks (c.timeOfDay + now)).truncate?.getD 0

theorem currentSlot_eq {spec : Spec} {genesis slot : Datum}
    (hspec : s.world.own.spec = some spec) (hgenesis : s.world.own.genesisTime = some genesis)
    (hslot : spec.timeToSlot (.int (c.secondsAt s.now)) genesis = .ok slot) :
    c.currentSlot [] s = (.done slot, s) := by
  have hclock : c.wallClock [] s = (.done (.int (c.secondsAt s.now)), s) := rfl
  have htime : c.genesisTime [] s = (.done genesis, s) := by
    show (c.resolved "genesis" s.world.own.genesisTime) [] s = _
    rw [hgenesis]
    rfl
  rw [currentSlot, Work.andThen_of_done (spec_of_some hspec), Work.andThen_of_done hclock,
    Work.andThen_of_done htime, hslot]
  rfl

/-- The slot at the time of day is taken once, before the first request. -/
theorem firstExecutionBlock_of_currentSlot {slot : Nat}
    (h : c.currentSlot [] s = (.done (.int slot), s)) :
    c.firstExecutionBlock [] s = c.searchAll transientKinds VersionedBlock.isFilled
      (List.range (slot + 1)) [] s := by
  rw [firstExecutionBlock, Work.andThen_of_done h, List.range_eq_range']
  exact congrFun (congrFun (searchUp_eq c transientKinds VersionedBlock.isFilled (slot + 1) 0) []) s

theorem firstExecutionBlock_begins {spec : Spec} {genesis : Datum}
    (hspec : s.world.own.spec = some spec) (hgenesis : s.world.own.genesisTime = some genesis)
    {slot : Nat} (hslot : spec.timeToSlot (.int (c.secondsAt s.now)) genesis = .ok (.int slot)) :
    c.firstExecutionBlock [] s = c.searchAll transientKinds VersionedBlock.isFilled
      (List.range (slot + 1)) [] s :=
  firstExecutionBlock_of_currentSlot (currentSlot_eq hspec hgenesis hslot)

/-! ## The searches -/

/-- Where the head is at a slot, the search for the latest block with a payload asks for the blocks
of that slot and of those below it, down to slot 1. It passes over a slot exactly if the request
fails because nothing is found, or if the block comes before there are payloads or has the empty
one. Every other slot ends the search, with its block or with the failure of the request for it. Of
the replies that come, just those with the status 404 tell that nothing is found.

So no later block has a payload than the one that is found, and none has been missed because the
request for it failed in another way. -/
theorem latestExecutionBlock_is_latest (c : Client) (s : Stage (Link ClientConfig) Line)
    {head : HeaderInfo} (hhead : c.headAt s.world.remote = .ok head) :
    let r := s.world.remote
    let Passes := c.Skips [.notFound] VersionedBlock.Filled r
    let found := (c.latestExecutionBlock [] s).1
    c.Walks c.latestExecutionBlock s [c.headRoute] (List.range' 1 head.slot).reverse Passes
    ∧ c.Ends found r (fun slot => 1 ≤ slot ∧ slot ≤ head.slot) (· > ·) Passes
    ∧ (∀ block, found = .done (some block) → ∃ slot, 1 ≤ slot ∧ slot ≤ head.slot
      ∧ c.slotBlockAt slot r = .ok block ∧ block.Filled ∧ ∀ k, slot < k → k ≤ head.slot →
        (∀ other, c.slotBlockAt k r = .ok other → ¬ other.Filled)
        ∧ ∀ e, c.slotBlockAt k r = .error e → e.kind = .notFound)
    ∧ (∀ block : VersionedBlock, ¬ block.Filled ↔ block.fork = .phase0 ∨ block.fork = .altair
      ∨ block.payloadHash = some Signing.zeroRoot)
    ∧ ∀ slot reply, r.replyTo (c.slotRoute slot) = reply → c.endpoint.received reply = .ok reply →
      ((∃ e, c.slotBlockAt slot r = .error e ∧ e.kind = .notFound) ↔ reply.status = 404) := by
  intro r Passes found
  obtain ⟨t, hbegins, hremote⟩ := latestExecutionBlock_begins hhead
  have hwalks : c.Walks c.latestExecutionBlock s [c.headRoute] (List.range' 1 head.slot).reverse
      Passes := walks_of_begins seeks_filled hbegins hremote slotRoute_not_mem_headRoute
    (descending head.slot).nodup
  have hends := hwalks.ends (descending head.slot) (fun _ _ => Nat.lt_asymm)
    fun _ => mem_descending
  refine ⟨hwalks, hends, ?_, fun _ => VersionedBlock.not_filled_iff, ?_⟩
  · intro block hfound
    obtain ⟨slot, ⟨hfirst, hlast⟩, hstops, hserved, hlater⟩ := (hends.some_iff block).mp hfound
    -- It would have been passed over otherwise.
    have hfilled : block.Filled := by
      by_contra hempty
      exact hstops (.inr ⟨block, hserved, hempty⟩)
    refine ⟨slot, hfirst, hlast, hserved, hfilled, fun k hk hle => ?_⟩
    have hskips : Passes k := hlater k ⟨by omega, hle⟩ hk
    exact ⟨fun other hother => Skips.not_sought hskips hother,
      fun e hfailed => List.mem_singleton.mp (Skips.kind_mem hskips hfailed)⟩
  · intro slot reply hreply hreceived
    exact Node.Endpoint.notFound_iff hreply hreceived

/-- A node that has no block for slots 0 and 2, and one with a payload at slot 1. This slot has just
begun. -/
def shortChain : Stage (Link ClientConfig) Line where
  world := {
    own := { spec := some {}, genesisTime := some (.int (-12)) }
    remote.routes := [(watcher.headRoute, [headerReply true (headerAfter 2 Signing.zeroRoot)]),
      (watcher.slotRoute 1, [blockReply filledBlock])] }

theorem exists_head_shortChain :
    ∃ head, watcher.headAt shortChain.world.remote = .ok head ∧ head.slot = 2 := by
  have hreply : shortChain.world.remote.replyTo watcher.headRoute
      = headerReply true (headerAfter 2 Signing.zeroRoot) :=
    Remote.replyTo_of_lookup_singleton List.lookup_cons_self
  obtain ⟨head, hserved, -, -, hheader⟩ :=
    Node.Endpoint.exchange_headerReply (e := watcher.endpoint) rfl (by decide +kernel) hreply
  refine ⟨head, hserved, ?_⟩
  rw [Node.HeaderInfo.slot, hheader]
  rfl

theorem slotBlockAt_shortChain :
    watcher.slotBlockAt 1 shortChain.world.remote = .ok filledBlock := by
  refine exchange_filledBlock ?_
  have hother : (watcher.slotRoute 1 == watcher.headRoute) = false :=
    beq_false_of_ne fun h => slotRoute_not_mem_headRoute 1 (List.mem_singleton.mpr h)
  have hlookup : shortChain.world.remote.routes.lookup (watcher.slotRoute 1)
      = some [blockReply filledBlock] := by
    show List.lookup _ [_, _] = _
    rw [List.lookup_cons, hother]
    exact List.lookup_cons_self
  exact Remote.replyTo_of_lookup hlookup

/-- The node has blocks for no other slots. -/
theorem slotBlockAt_shortChain_of_ne {slot : Nat} (h : slot ≠ 1) :
    ∃ e, watcher.slotBlockAt slot shortChain.world.remote = .error e ∧ e.kind = .notFound := by
  have hhead : (watcher.slotRoute slot == watcher.headRoute) = false :=
    beq_false_of_ne fun h => slotRoute_not_mem_headRoute slot (List.mem_singleton.mpr h)
  have hother : (watcher.slotRoute slot == watcher.slotRoute 1) = false :=
    beq_false_of_ne fun hsame => h (slotRoute_injective _ hsame)
  have hlookup : shortChain.world.remote.routes.lookup (watcher.slotRoute slot) = none := by
    show List.lookup _ [_, _] = _
    rw [List.lookup_cons, hhead, List.lookup_cons, hother]
    rfl
  have hreply : shortChain.world.remote.replyTo (watcher.slotRoute slot) = .unknown := by
    rw [Remote.replyTo, hlookup]
  exact (Node.Endpoint.notFound_iff hreply rfl).mpr rfl

/-- The block of slot 1 is found by every search for it that skips slots without a block. -/
theorem found_shortChain {o : Outcome (Option VersionedBlock)} {Among : Nat → Prop}
    {before : Nat → Nat → Prop} {kinds : List FailureKind} {Sought : VersionedBlock → Prop}
    (h : watcher.Ends o shortChain.world.remote Among before
      (watcher.Skips kinds Sought shortChain.world.remote))
    (hkinds : .notFound ∈ kinds) (hsought : Sought filledBlock) (hamong : Among 1)
    (hbefore : ∀ k, before k 1 → k ≠ 1) : o = .done (some filledBlock) := by
  refine (h.some_iff filledBlock).mpr
    ⟨1, hamong, fun hskips => Skips.not_sought hskips slotBlockAt_shortChain hsought,
      slotBlockAt_shortChain, ?_⟩
  intro k _ hk
  obtain ⟨e, hmissing, hkind⟩ := slotBlockAt_shortChain_of_ne (hbefore k hk)
  exact .inl ⟨e, hmissing, hkind ▸ hkinds⟩

theorem filled_filledBlock : filledBlock.Filled :=
  ⟨someHash, payloadHash_filledBlock, someHash_ne_zeroRoot⟩

/-- The latest block with a payload is found below a slot without a block. -/
theorem latestExecutionBlock_is_latest_shortChain :
    (watcher.latestExecutionBlock [] shortChain).1 = .done (some filledBlock) := by
  obtain ⟨head, hhead, hslot⟩ := exists_head_shortChain
  obtain ⟨-, hends, -⟩ := latestExecutionBlock_is_latest watcher shortChain hhead
  exact found_shortChain hends (by decide) filled_filledBlock ⟨Nat.le_refl 1, by omega⟩
    fun k hk => Nat.ne_of_gt hk

/-- The search for the first block with a payload asks for the blocks of slot 0 and of those above
it, up to the slot at the time of day, which is slot 0 before genesis. Where the head is at a slot,
the search for a block by the hash of its payload asks for the blocks of that slot and of those
below it, down to slot 1.

Both pass over a slot exactly if the request for its block fails in a way that may pass, or if its
block is none of those sought. Every other slot ends the search, with its block or with the failure
of the request for it. Of the replies that come, just those with a bad status tell that a block may
come later, if it is 404 or comes with a text. A block from before there are payloads is never
sought, whatever the hash. -/
theorem searches_find_payloads (c : Client) (s : Stage (Link ClientConfig) Line) {spec : Spec}
    {seconds genesis : Int} {head : HeaderInfo} {d : Datum} {hash : Bytes}
    (hspec : s.world.own.spec = some spec) (hseconds : spec.secondsPerSlot = .int seconds)
    (hpos : 1 ≤ seconds) (hgenesis : s.world.own.genesisTime = some (.int genesis))
    (hhead : c.headAt s.world.remote = .ok head) (hhash : d.toBytes = .ok hash) :
    let r := s.world.remote
    let time := c.secondsAt s.now
    let PassesUnfilled := c.Skips fleetingKinds VersionedBlock.Filled r
    let PassesOther := c.Skips fleetingKinds (VersionedBlock.HasHash hash) r
    (∃ last : Nat, (time < genesis → last = 0)
      ∧ (genesis ≤ time → genesis + last * seconds ≤ time ∧ time < genesis + (last + 1) * seconds)
      ∧ c.Walks c.firstExecutionBlock s [] (List.range (last + 1)) PassesUnfilled
      ∧ c.Ends (c.firstExecutionBlock [] s).1 r (fun slot => slot ≤ last) (· < ·)
        PassesUnfilled)
    ∧ c.Walks (c.blockByExecutionHash d) s [c.headRoute] (List.range' 1 head.slot).reverse
      PassesOther
    ∧ c.Ends (c.blockByExecutionHash d [] s).1 r (fun slot => 1 ≤ slot ∧ slot ≤ head.slot) (· > ·)
      PassesOther
    ∧ (∀ block : VersionedBlock, block.fork = .phase0 ∨ block.fork = .altair →
      ¬ block.Filled ∧ ∀ other, ¬ block.HasHash other)
    ∧ ∀ slot reply, r.replyTo (c.slotRoute slot) = reply → c.endpoint.received reply = .ok reply →
      ((∃ e, c.slotBlockAt slot r = .error e ∧ e.kind ∈ fleetingKinds)
        ↔ (reply.status < 200 ∨ 300 ≤ reply.status)
          ∧ (reply.status = 404 ∨ reply.text ≠ none)) := by
  intro r time PassesUnfilled PassesOther
  refine ⟨?_, ?_⟩
  · obtain ⟨last, hslot, hbefore, hafter⟩ :=
      Spec.exists_natural_slot hseconds hpos genesis (c.secondsAt s.now)
    have hwalks : c.Walks c.firstExecutionBlock s [] (List.range (last + 1)) PassesUnfilled :=
      walks_of_begins seeks_filled_later (firstExecutionBlock_begins hspec hgenesis hslot) rfl
        (fun _ => List.not_mem_nil) List.nodup_range
    refine ⟨last, hbefore, hafter, hwalks, ?_⟩
    exact hwalks.ends List.pairwise_lt_range (fun _ _ => Nat.lt_asymm)
      fun _ => List.mem_range.trans Nat.lt_succ_iff
  · obtain ⟨t, hbegins, hremote⟩ := blockByExecutionHash_begins hhead hhash
    have hwalks : c.Walks (c.blockByExecutionHash d) s [c.headRoute]
        (List.range' 1 head.slot).reverse PassesOther :=
      walks_of_begins (seeks_hash hash) hbegins hremote slotRoute_not_mem_headRoute
        (descending head.slot).nodup
    refine ⟨hwalks, ?_, fun _ => VersionedBlock.not_sought_of_early, ?_⟩
    · exact hwalks.ends (descending head.slot) (fun _ _ => Nat.lt_asymm) fun _ => mem_descending
    · intro slot reply hreply hreceived
      exact Node.Endpoint.fleeting_iff hreply hreceived

/-- Slot 1 has just begun on that node, so that the first search goes up to its block. The search by
hash finds the same block from the other side. -/
theorem searches_find_payloads_shortChain :
    (watcher.firstExecutionBlock [] shortChain).1 = .done (some filledBlock)
    ∧ (watcher.blockByExecutionHash (.bytes someHash) [] shortChain).1
      = .done (some filledBlock) := by
  obtain ⟨head, hhead, hslot⟩ := exists_head_shortChain
  have hseconds : ({} : Spec).secondsPerSlot = .int 12 := rfl
  have hgenesis : shortChain.world.own.genesisTime = some (.int (-12)) := rfl
  have hhash : (Datum.bytes someHash).toBytes = .ok someHash := rfl
  obtain ⟨⟨last, -, hafter, -, hfirst⟩, -, hhashed, -⟩ :=
    searches_find_payloads watcher shortChain rfl hseconds (by decide) hgenesis hhead hhash
  have htime : watcher.secondsAt shortChain.now = 0 := by decide +kernel
  rw [htime] at hafter
  obtain rfl : last = 1 := by
    have := hafter (by decide)
    omega
  refine ⟨?_, ?_⟩
  · exact found_shortChain hfirst (by decide) filled_filledBlock (Nat.le_refl 1)
      fun k hk => Nat.ne_of_lt hk
  · exact found_shortChain hhashed (by decide) payloadHash_filledBlock ⟨Nat.le_refl 1, by omega⟩
      fun k hk => Nat.ne_of_gt hk

end BeaconHarness.Client
