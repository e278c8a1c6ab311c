import BeaconHarness.Proofs.Node.Reply
import BeaconHarness.Proofs.Node.Ticks

/-!
# Looks at the head

A client that waits for a payload looks at the head once in every slot. A look asks for the header
of the head and, if the head is canonical, for its block. What it comes to depends on these two
replies alone: a header that is not served is fatal, a block that is not served yet is not.

Main statements: a look comes to what it should (`looked_iff`), it is work that makes just the
requests it has to (`checkHead_eq`), one or two of them (`reads_look`).
-/

namespace BeaconHarness

/-! ## Payloads of blocks -/

namespace VersionedBlock

/-- Blocks of the first two forks have no payload. -/
theorem payloadHash_eq_none_iff {b : VersionedBlock} :
    b.payloadHash = none ↔ b.fork = .phase0 ∨ b.fork = .altair := by
  have hfork : b.fork.atLeast .bellatrix = true ↔ ¬ (b.fork = .phase0 ∨ b.fork = .altair) := by
    generalize b.fork = f
    cases f <;> decide
  rw [payloadHash, containsPayload]
  split
  next hlater => exact ⟨nofun, fun h => absurd h (hfork.mp hlater)⟩
  next hearlier =>
    exact ⟨fun _ => Decidable.not_not.mp fun h => hearlier (hfork.mpr h), fun _ => rfl⟩

end VersionedBlock

namespace Client

open Node (Link Line Remote Route Reply HeaderInfo)
open Node.Endpoint (After headerPath headerOf blockPath asks_header asks_block)
open Work (ended Plain)

variable (c : Client)

/-! ## What a look comes to -/

/-- The request for the header of the head. -/
def headRoute : Route := c.endpoint.route .json (headerPath (.str "head"))

/-- The request for a block by its root. -/
def blockRoute (root : Bytes) : Route := c.endpoint.route .bytes (blockPath (.bytes root))

/-- What the request for the header of the head comes to. -/
def headAt (r : Remote) : Except Failure HeaderInfo :=
  c.endpoint.exchange .json (headerPath (.str "head")) (headerOf (.str "head")) r

/-- What the request for a block comes to, before the block is decoded. -/
def blockBytesAt (root : Bytes) (r : Remote) : Except Failure (Option String × Bytes) :=
  c.endpoint.exchange .bytes (blockPath (.bytes root))
    (Node.Endpoint.bytesOf (blockPath (.bytes root))) r

/-- What the request for a block comes to. -/
def blockAt (root : Bytes) (r : Remote) : Except Failure VersionedBlock :=
  c.endpoint.exchange .bytes (blockPath (.bytes root)) (c.endpoint.blockOf (.bytes root)) r

/-- What a look at the head comes to, with the requests that it makes, newest first. -/
inductive Looked (r : Remote) : Except Failure (Option Bytes) → List Route → Prop
  /-- There is no header. -/
  | headless {e : Failure} (h : c.headAt r = .error e) : Looked r (.error e) [c.headRoute]
  /-- The head is not canonical. -/
  | detached {head : HeaderInfo} (h : c.headAt r = .ok head) (hcanonical : head.canonical = false) :
    Looked r (.ok none) [c.headRoute]
  /-- The block is not there yet. -/
  | unavailable {head : HeaderInfo} {e : Failure} (h : c.headAt r = .ok head)
    (hcanonical : head.canonical = true) (hblock : c.blockBytesAt head.root r = .error e)
    (htransient : e.isTransient = true) :
    Looked r (.ok none) [c.blockRoute head.root, c.headRoute]
  /-- The request for the block fails for good. -/
  | refused {head : HeaderInfo} {e : Failure} (h : c.headAt r = .ok head)
    (hcanonical : head.canonical = true) (hblock : c.blockBytesAt head.root r = .error e)
    (htransient : e.isTransient = false) :
    Looked r (.error e) [c.blockRoute head.root, c.headRoute]
  /-- The block names no fork, or an unknown one, or cannot be decoded. -/
  | unreadable {head : HeaderInfo} {answer : Option String × Bytes} {e : Failure}
    (h : c.headAt r = .ok head) (hcanonical : head.canonical = true)
    (hblock : c.blockBytesAt head.root r = .ok answer)
    (hdecoded : c.endpoint.payloadIn .block (blockPath (.bytes head.root)) answer = .error e) :
    Looked r (.error e) [c.blockRoute head.root, c.headRoute]
  /-- The block comes before there are payloads. -/
  | premature {head : HeaderInfo} {block : VersionedBlock} (h : c.headAt r = .ok head)
    (hcanonical : head.canonical = true) (hblock : c.blockAt head.root r = .ok block)
    (hfork : block.fork = .phase0 ∨ block.fork = .altair) :
    Looked r (.ok none) [c.blockRoute head.root, c.headRoute]
  /-- The payload of the block is the empty one. -/
  | empty {head : HeaderInfo} {block : VersionedBlock} (h : c.headAt r = .ok head)
    (hcanonical : head.canonical = true) (hblock : c.blockAt head.root r = .ok block)
    (hhash : block.payloadHash = some Signing.zeroRoot) :
    Looked r (.ok none) [c.blockRoute head.root, c.headRoute]
  /-- The block has a payload. -/
  | filled {head : HeaderInfo} {block : VersionedBlock} {hash : Bytes} (h : c.headAt r = .ok head)
    (hcanonical : head.canonical = true) (hblock : c.blockAt head.root r = .ok block)
    (hhash : block.payloadHash = some hash) (hfilled : hash ≠ Signing.zeroRoot) :
    Looked r (.ok (some hash)) [c.blockRoute head.root, c.headRoute]

/-- What a look makes of the request for the block. -/
def judge : Except Failure VersionedBlock → Except Failure (Option Bytes)
  | .error e => if e.isTransient then .ok none else .error e
  | .ok block => .ok (if payloadHashOf block ≠ Signing.zeroRoot then some (payloadHashOf block)
    else none)

/-- The look at the head, as a view of the network. -/
def look (r : Remote) : Node.Glimpse Bytes :=
  match c.headAt r with
  | .error e => ⟨.error e, [c.headRoute], c.endpoint.arrival (r.replyTo c.headRoute)⟩
  | .ok head =>
    if head.canonical then
      ⟨judge (c.blockAt head.root r), [c.blockRoute head.root, c.headRoute],
        c.endpoint.arrival (r.replyTo (c.blockRoute head.root))
          ∘ c.endpoint.arrival (r.replyTo c.headRoute)⟩
    else ⟨.ok none, [c.headRoute], c.endpoint.arrival (r.replyTo c.headRoute)⟩

variable {c} {r : Remote}

section Look

theorem look_of_error {e : Failure} (h : c.headAt r = .error e) :
    c.look r = ⟨.error e, [c.headRoute], c.endpoint.arrival (r.replyTo c.headRoute)⟩ := by
  rw [look, h]

theorem look_of_detached {head : HeaderInfo} (h : c.headAt r = .ok head)
    (hcanonical : head.canonical = false) :
    c.look r = ⟨.ok none, [c.headRoute], c.endpoint.arrival (r.replyTo c.headRoute)⟩ := by
  simp only [look, h, hcanonical, Bool.false_eq_true, if_false]

theorem look_of_canonical {head : HeaderInfo} (h : c.headAt r = .ok head)
    (hcanonical : head.canonical = true) :
    c.look r = ⟨judge (c.blockAt head.root r), [c.blockRoute head.root, c.headRoute],
      c.endpoint.arrival (r.replyTo (c.blockRoute head.root))
        ∘ c.endpoint.arrival (r.replyTo c.headRoute)⟩ := by
  simp only [look, h, hcanonical, if_true]

/-- What is decoded of a block's bytes. -/
theorem blockAt_eq (root : Bytes) (r : Remote) :
    c.blockAt root r
      = c.blockBytesAt root r >>= c.endpoint.payloadIn .block (blockPath (.bytes root)) := by
  simp only [blockAt, blockBytesAt, Node.Endpoint.exchange, bind_assoc]
  rfl

/-- Bytes that are no payload of the fork that they name never become one. -/
theorem not_isTransient_of_payloadIn {e : Node.Endpoint} {kind : PayloadKind} {path : String}
    {answer : Option String × Bytes} {failure : Failure}
    (h : e.payloadIn kind path answer = .error failure) : failure.isTransient = false := by
  rw [Bool.eq_false_iff, ne_eq, Failure.isTransient_iff]
  rcases Node.Endpoint.kind_of_payloadIn h with hkind | hkind
  · rw [hkind]
    decide
  · rw [hkind]
    decide

/-! ### The verdict on a block -/

theorem judge_of_error {e : Failure} :
    judge (.error e) = if e.isTransient then .ok none else .error e := rfl

theorem judge_blockAt_of_error {root : Bytes} {e : Failure}
    (h : c.blockBytesAt root r = .error e) :
    judge (c.blockAt root r) = if e.isTransient then .ok none else .error e := by
  rw [blockAt_eq, h]
  rfl

theorem judge_blockAt_of_unreadable {root : Bytes} {answer : Option String × Bytes} {e : Failure}
    (h : c.blockBytesAt root r = .ok answer)
    (hdecoded : c.endpoint.payloadIn .block (blockPath (.bytes root)) answer = .error e) :
    judge (c.blockAt root r) = .error e := by
  have hblock : c.blockAt root r = .error e := by
    rw [blockAt_eq, h]
    exact hdecoded
  rw [hblock, judge_of_error, not_isTransient_of_payloadIn hdecoded]
  rfl

theorem judge_of_premature {block : VersionedBlock} (h : block.payloadHash = none) :
    judge (.ok block) = .ok none := by
  simp only [judge, payloadHashOf, h, Option.getD_none, ne_eq, not_true_eq_false, if_false]

theorem judge_of_empty {block : VersionedBlock} (h : block.payloadHash = some Signing.zeroRoot) :
    judge (.ok block) = .ok none := by
  simp only [judge, payloadHashOf, h, Option.getD_some, ne_eq, not_true_eq_false, if_false]

theorem judge_of_filled {block : VersionedBlock} {hash : Bytes}
    (h : block.payloadHash = some hash) (hfilled : hash ≠ Signing.zeroRoot) :
    judge (.ok block) = .ok (some hash) := by
  simp only [judge, payloadHashOf, h, Option.getD_some, ne_eq, hfilled, not_false_eq_true, if_true]

/-! ### A look and what it comes to -/

theorem Looked.eq_look {answer : Except Failure (Option Bytes)} {requests : List Route}
    (h : c.Looked r answer requests) :
    answer = (c.look r).answer ∧ requests = (c.look r).requests := by
  cases h with
  | headless h => rw [look_of_error h]; exact ⟨rfl, rfl⟩
  | detached h hcanonical => rw [look_of_detached h hcanonical]; exact ⟨rfl, rfl⟩
  | unavailable h hcanonical hblock htransient =>
    rw [look_of_canonical h hcanonical, judge_blockAt_of_error hblock, htransient]
    exact ⟨rfl, rfl⟩
  | refused h hcanonical hblock htransient =>
    rw [look_of_canonical h hcanonical, judge_blockAt_of_error hblock, htransient]
    exact ⟨rfl, rfl⟩
  | unreadable h hcanonical hblock hdecoded =>
    rw [look_of_canonical h hcanonical, judge_blockAt_of_unreadable hblock hdecoded]
    exact ⟨rfl, rfl⟩
  | premature h hcanonical hblock hfork =>
    rw [look_of_canonical h hcanonical, hblock,
      judge_of_premature (VersionedBlock.payloadHash_eq_none_iff.mpr hfork)]
    exact ⟨rfl, rfl⟩
  | empty h hcanonical hblock hhash =>
    rw [look_of_canonical h hcanonical, hblock, judge_of_empty hhash]
    exact ⟨rfl, rfl⟩
  | filled h hcanonical hblock hhash hfilled =>
    rw [look_of_canonical h hcanonical, hblock, judge_of_filled hhash hfilled]
    exact ⟨rfl, rfl⟩

/-- What a look at a canonical head comes to is told by the request for its block. -/
theorem looked_of_canonical {head : HeaderInfo} (h : c.headAt r = .ok head)
    (hcanonical : head.canonical = true) :
    c.Looked r (judge (c.blockAt head.root r)) [c.blockRoute head.root, c.headRoute] := by
  cases hbytes : c.blockBytesAt head.root r with
  | error e =>
    rw [judge_blockAt_of_error hbytes]
    split
    next htransient => exact .unavailable h hcanonical hbytes htransient
    next hfinal => exact .refused h hcanonical hbytes (Bool.not_eq_true _ ▸ hfinal)
  | ok answer =>
    have hblock := blockAt_eq (c := c) head.root r
    rw [hbytes] at hblock
    cases hdecoded : c.endpoint.payloadIn .block (blockPath (.bytes head.root)) answer with
    | error e =>
      rw [judge_blockAt_of_unreadable hbytes hdecoded]
      exact .unreadable h hcanonical hbytes hdecoded
    | ok decoded =>
      obtain ⟨block, rfl⟩ : ∃ block : VersionedBlock, block = decoded := ⟨decoded, rfl⟩
      have hserved : c.blockAt head.root r = .ok block := hblock.trans hdecoded
      rw [hserved]
      cases hhash : block.payloadHash with
      | none =>
        rw [judge_of_premature hhash]
        exact .premature h hcanonical hserved (VersionedBlock.payloadHash_eq_none_iff.mp hhash)
      | some hash =>
        by_cases hfilled : hash = Signing.zeroRoot
        · subst hfilled
          rw [judge_of_empty hhash]
          exact .empty h hcanonical hserved hhash
        · rw [judge_of_filled hhash hfilled]
          exact .filled h hcanonical hserved hhash hfilled

/-- Every look comes to something. -/
theorem looked_look (r : Remote) : c.Looked r (c.look r).answer (c.look r).requests := by
  cases h : c.headAt r with
  | error e =>
    rw [look_of_error h]
    exact .headless h
  | ok head =>
    cases hcanonical : head.canonical with
    | false =>
      rw [look_of_detached h hcanonical]
      exact .detached h hcanonical
    | true =>
      rw [look_of_canonical h hcanonical]
      exact looked_of_canonical h hcanonical

/-- A look comes to what it should, with the requests that it should make, and to nothing else. -/
theorem looked_iff {answer : Except Failure (Option Bytes)} {requests : List Route} :
    c.Looked r answer requests ↔ answer = (c.look r).answer ∧ requests = (c.look r).requests := by
  constructor
  · exact Looked.eq_look
  · rintro ⟨rfl, rfl⟩
    exact looked_look r

/-- The empty payload is never found. -/
theorem Looked.ne_zeroRoot {hash : Bytes} {requests : List Route}
    (h : c.Looked r (.ok (some hash)) requests) : hash ≠ Signing.zeroRoot := by
  cases h with
  | filled _ _ _ _ hfilled => exact hfilled

end Look

/-! ## Looking -/

/-- The slot at an instant of the client's clock. -/
def slotAt (c : Client) (spec : Spec) (genesisTime : Datum) (now : Nat) : Except Failure Datum :=
  spec.timeToSlot (.int ((secondsOfTicks (c.timeOfDay + now)).truncate?.getD 0)) genesisTime

/-- Replies for headers and blocks are set up on routes of their own. -/
theorem headRoute_ne_blockRoute (root : Bytes) : c.headRoute ≠ c.blockRoute root :=
  Node.Endpoint.route_json_ne_bytes c.endpoint _ _

/-- The request for a block, made after the one for the header, comes to what it would have come to
before that. -/
theorem attempt_block_eq (root : Bytes) {s t : Stage (Link ClientConfig) Line}
    (hasked : After s t [c.headRoute]
      (c.endpoint.arrival (s.world.remote.replyTo c.headRoute) s.now)) :
    ∃ u, Work.attempt (c.endpoint.block (.bytes root)) [] t
        = (.done (c.blockAt root s.world.remote), u)
      ∧ After s u [c.blockRoute root, c.headRoute]
        ((c.endpoint.arrival (s.world.remote.replyTo (c.blockRoute root))
          ∘ c.endpoint.arrival (s.world.remote.replyTo c.headRoute)) s.now) := by
  obtain ⟨u, hblock, hafter⟩ :=
    (asks_block c.endpoint (.bytes root)).after hasked (headRoute_ne_blockRoute root)
  exact ⟨u, attempt_of_ended hblock, hafter⟩

/-- A look at the head makes the requests that it has to, and comes to what the replies to them
tell. -/
theorem checkHead_eq {spec : Spec} {genesisTime slot : Datum}
    {s : Stage (Link ClientConfig) Line} (hslot : c.slotAt spec genesisTime s.now = .ok slot) :
    ∃ t, c.checkHead spec genesisTime [] s = (ended (c.look s.world.remote).answer, t)
      ∧ After s t (c.look s.world.remote).requests ((c.look s.world.remote).ends s.now) := by
  have hclock : c.wallClock [] s = (.done
      (.int ((secondsOfTicks (c.timeOfDay + s.now)).truncate?.getD 0)), s) := rfl
  have hnow : (Work.ofExcept (spec.timeToSlot
      (.int ((secondsOfTicks (c.timeOfDay + s.now)).truncate?.getD 0)) genesisTime) : Job Datum)
        [] s = (.done slot, s) :=
    (Work.ofExcept_eq _ s).trans (congrArg (fun result => (ended result, s)) hslot)
  rw [checkHead, Work.andThen_of_done hclock, Work.andThen_of_done hnow]
  obtain ⟨t, hhead, hasked⟩ := asks_header c.endpoint (.str "head") s
  cases h : c.headAt s.world.remote with
  | error e =>
    have hfailed : c.endpoint.header (.str "head") [] s = (.failed e, t) := by
      rw [hhead]
      exact congrArg (fun result => (ended result, t)) h
    rw [look_of_error h]
    exact ⟨t, Work.andThen_of_failed hfailed, hasked⟩
  | ok head =>
    have hserved : c.endpoint.header (.str "head") [] s = (.done head, t) := by
      rw [hhead]
      exact congrArg (fun result => (ended result, t)) h
    rw [Work.andThen_of_done hserved]
    cases hcanonical : head.canonical with
    | false =>
      rw [look_of_detached h hcanonical]
      exact ⟨t, rfl, hasked⟩
    | true =>
      rw [look_of_canonical h hcanonical]
      obtain ⟨u, htold, hafter⟩ := attempt_block_eq head.root hasked
      -- What is told of the block ends the look; only the log is left to be written.
      cases hresult : c.blockAt head.root s.world.remote with
      | error e =>
        rw [hresult] at htold
        refine ⟨u, ?_, hafter⟩
        show (Work.attempt (c.endpoint.block (.bytes head.root)) >>= _) [] t = _
        rw [Work.andThen_of_done htold, judge_of_error]
        show (if e.isTransient then return none else Work.fail e : Job (Option Bytes)) [] u = _
        cases e.isTransient <;> rfl
      | ok block =>
        rw [hresult] at htold
        let message := headMessage (c.labelOf u.world.own) head slot (payloadHashOf block)
        refine ⟨{ u with journal := .note (.info message) :: u.journal }, ?_, hafter.now,
          hafter.remote, hafter.own⟩
        show (Work.attempt (c.endpoint.block (.bytes head.root)) >>= _) [] t = _
        rw [Work.andThen_of_done htold]
        rfl

theorem plain_checkHead (spec : Spec) (genesisTime : Datum) :
    Plain (c.checkHead spec genesisTime) := by
  have hlabel : Plain c.label := .bind (.bind .world fun _ => .done _) fun _ => .done _
  refine .bind (.bind .clock fun _ => .done _) fun _ => .bind (.ofExcept _) fun slot => ?_
  refine .bind (Node.Endpoint.plain_header c.endpoint _) fun head => ?_
  split
  · exact .done _
  · refine .bind (.attempt (Node.Endpoint.plain_block c.endpoint _)) fun answer => ?_
    split
    · split
      · exact .done _
      · exact .fail _
    · exact .bind hlabel fun _ => .bind (.note _) fun _ => .done _

/-! ## Looks repeat themselves -/

/-- The request for a block that the reply to the request for the header leads to. -/
def nextRoute (c : Client) (reply : Reply) : Option Route :=
  match c.endpoint.received reply >>= headerOf (.str "head") with
  | .error _ => none
  | .ok head => if head.canonical then some (c.blockRoute head.root) else none

theorem nextRoute_of_canonical {head : HeaderInfo} (h : c.headAt r = .ok head)
    (hcanonical : head.canonical = true) :
    c.nextRoute (r.replyTo c.headRoute) = some (c.blockRoute head.root) := by
  have hserved : c.endpoint.received (r.replyTo c.headRoute) >>= headerOf (.str "head")
      = .ok head := h
  simp only [nextRoute, hserved, hcanonical, if_true]

/-- Only a canonical header leads to its block. -/
theorem exists_of_nextRoute {reply : Reply} {route : Route}
    (h : c.nextRoute reply = some route) :
    ∃ head : HeaderInfo, c.endpoint.received reply >>= headerOf (.str "head") = .ok head
      ∧ head.canonical = true ∧ route = c.blockRoute head.root := by
  rw [nextRoute] at h
  split at h
  · exact nomatch h
  · rename_i head hserved
    cases hcanonical : head.canonical with
    | false =>
      rw [hcanonical] at h
      exact nomatch h
    | true =>
      rw [hcanonical] at h
      exact ⟨head, hserved, hcanonical, (Option.some.inj h).symm⟩

/-- A look depends on the replies to its requests alone. -/
theorem look_congr {r r' : Remote} (hhead : r'.replyTo c.headRoute = r.replyTo c.headRoute)
    (hblock : ∀ head, c.headAt r = .ok head → head.canonical = true →
      r'.replyTo (c.blockRoute head.root) = r.replyTo (c.blockRoute head.root)) :
    c.look r' = c.look r := by
  have hheadAt : c.headAt r' = c.headAt r :=
    Node.Endpoint.exchange_congr hhead
  cases h : c.headAt r with
  | error e =>
    rw [look_of_error h, look_of_error (hheadAt.trans h), hhead]
  | ok head =>
    cases hcanonical : head.canonical with
    | false =>
      rw [look_of_detached h hcanonical, look_of_detached (hheadAt.trans h) hcanonical, hhead]
    | true =>
      have hreply := hblock head h hcanonical
      have hblockAt : c.blockAt head.root r' = c.blockAt head.root r :=
        Node.Endpoint.exchange_congr hreply
      rw [look_of_canonical h hcanonical, look_of_canonical (hheadAt.trans h) hcanonical, hhead,
        hreply, hblockAt]

/-- Every look asks for the header. -/
theorem headRoute_mem_requests (r : Remote) : c.headRoute ∈ (c.look r).requests := by
  rw [look]
  split
  · exact List.mem_singleton_self _
  · split
    · exact List.mem_cons_of_mem _ (List.mem_singleton_self _)
    · exact List.mem_singleton_self _

/-- A look makes one request or two. -/
theorem reads_look (c : Client) : Node.Reads c.look c.headRoute c.nextRoute where
  asks_first := headRoute_mem_requests
  asks_second r route h := by
    obtain ⟨head, hserved, hcanonical, rfl⟩ := exists_of_nextRoute h
    rw [look_of_canonical hserved hcanonical]
    exact List.mem_cons_self
  ne reply route h := by
    obtain ⟨head, -, -, rfl⟩ := exists_of_nextRoute h
    exact headRoute_ne_blockRoute head.root
  congr _ _ hhead hnext := look_congr hhead fun _ h hcanonical =>
    hnext _ (nextRoute_of_canonical h hcanonical)

end Client

end BeaconHarness
