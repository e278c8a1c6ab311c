import BeaconHarness.Proofs.Node.FlagWait
import BeaconHarness.Proofs.Node.Sequence
import BeaconHarness.Proofs.Text.Digits

/-!
# Summaries of the head

A summary has three parts: the head, the checkpoints of the state after it, and its block. Each part
makes requests of its own. The header of the head is asked for by the first two parts, and may be
another one the second time; the checkpoints are asked for by the root of the state first, and by
the slot if that fails for a while. A part whose requests fail for a while stays blank as a whole.

No request is made on the route of another one but for the two for the header, so that what each of
them comes to can be told from the network as it is at the beginning.

Main statement: `statusLine_shows`.
-/

namespace BeaconHarness

/-- The root of the state after the block. -/
def Node.HeaderInfo.stateRoot (header : Node.HeaderInfo) : Bytes := header.header.message.stateRoot

namespace Node.Endpoint

variable {κ : Type} (e : Endpoint)

/-! ## Checkpoints -/

/-- The path of the checkpoints of a state. -/
def finalityPath (id : Datum) : String := statePath id "/finality_checkpoints"

/-- The checkpoints in a reply. -/
def finalityOf (id : Datum) (reply : Reply) : Except Failure Finality := do
  let answer ← jsonOf (finalityPath id) reply
  Finality.ofDatum (← answer.entry "data")

theorem asks_finality (id : Datum) :
    Asks (κ := κ) (e.finality id) e .json (finalityPath id) (finalityOf id) :=
  (asks_getJson e (finalityPath id)).bind fun _ s => Work.ofExcept_eq _ s

/-- States and headers are asked for on different routes. -/
theorem finalityPath_ne_headerPath (id other : Datum) : finalityPath id ≠ headerPath other := by
  have hstates : (finalityPath id).toList[15]? = some 's' :=
    getElem?_path (getElem?_path (by decide))
  have hheaders : (headerPath other).toList[15]? = some 'h' := getElem?_path (by decide)
  intro h
  rw [h, hheaders] at hstates
  exact absurd hstates (by decide)

/-- A state is asked for by its root on another route than by its slot. -/
theorem finalityPath_bytes_ne_int (root : Bytes) (slot : Nat) :
    finalityPath (.bytes root) ≠ finalityPath (.int slot) := by
  intro h
  have htext : "/eth/v1/beacon/states/" ++ Text.Hex.marked root ++ "/finality_checkpoints"
      = "/eth/v1/beacon/states/" ++ toString slot ++ "/finality_checkpoints" := h
  have hid : Text.Hex.marked root = toString slot :=
    (String.append_right_inj _).mp ((String.append_left_inj _).mp htext)
  -- The mark of hexadecimal numbers is no digit.
  have hmark : 'x' ∈ (toString slot).toList := by
    rw [← hid, Text.Hex.marked, String.toList_ofList]
    exact List.mem_cons_of_mem _ List.mem_cons_self
  exact absurd (Text.Integer.toString_mem_digits slot _ hmark) (by decide)

end Node.Endpoint

namespace Client

open Node (Link Line Remote Route HeaderInfo Finality ComesTo)
open Node.Endpoint (finalityPath finalityOf blockPath asks_finality asks_header asks_block
  exchange_of_reply exchange_congr exchange_headerReply exchange_blockReply)

variable (c : Client)

/-! ## Requests of a summary -/

/-- The request for the checkpoints of a state. -/
def finalityRoute (id : Datum) : Route := c.endpoint.route .json (finalityPath id)

/-- What the request for the checkpoints of a state comes to. -/
def finalityAt (id : Datum) (r : Remote) : Except Failure Finality :=
  c.endpoint.exchange .json (finalityPath id) (finalityOf id) r

/-- The request for the block at the head. -/
def headBlockRoute : Route := c.endpoint.route .bytes (blockPath (.str "head"))

/-- What the request for the block at the head comes to. -/
def headBlockAt (r : Remote) : Except Failure VersionedBlock :=
  c.endpoint.exchange .bytes (blockPath (.str "head")) (c.endpoint.blockOf (.str "head")) r

/-- What a second request for the header of the head comes to. -/
def secondHeadAt (r : Remote) : Except Failure HeaderInfo := c.headAt (r.next c.headRoute).2

variable {c} {r : Remote} {s : Stage (Link ClientConfig) Line} {requests : List Route}

theorem finalityRoute_ne_headerRoute (id other : Datum) :
    c.finalityRoute id ≠ c.headerRoute other := by
  intro h
  exact Node.Endpoint.finalityPath_ne_headerPath id other
    ((String.append_right_inj _).mp (congrArg Route.request h))

theorem finalityRoute_bytes_ne_int (root : Bytes) (slot : Nat) :
    c.finalityRoute (.bytes root) ≠ c.finalityRoute (.int slot) := by
  intro h
  exact Node.Endpoint.finalityPath_bytes_ne_int root slot
    ((String.append_right_inj _).mp (congrArg Route.request h))

/-! ## Checkpoints by root or by slot -/

/-- The checkpoints of the state after a block, by the root of the state or, if those do not come for
a while, by the slot of the block. -/
def checkpointsAt (c : Client) (header : HeaderInfo) (r : Remote) : Except Failure Finality :=
  match c.finalityAt (.bytes header.stateRoot) r with
  | .ok checkpoints => .ok checkpoints
  | .error e => if e.isTransient then c.finalityAt (.int header.slot) r else .error e

/-- The requests for them, newest first. -/
def checkpointRoutes (c : Client) (header : HeaderInfo) (r : Remote) : List Route :=
  let byRoot := c.finalityRoute (.bytes header.stateRoot)
  match c.finalityAt (.bytes header.stateRoot) r with
  | .ok _ => [byRoot]
  | .error e => if e.isTransient then [c.finalityRoute (.int header.slot), byRoot] else [byRoot]

/-- The first request for the checkpoints of a state. -/
theorem comesTo_finality (id : Datum) {t : Stage (Link ClientConfig) Line}
    (hremote : t.world.remote = { r with asked := requests ++ r.asked })
    (hnew : c.finalityRoute id ∉ requests) :
    ComesTo (c.endpoint.finality id) t (c.finalityAt id r) [c.finalityRoute id] :=
  (asks_finality c.endpoint id).comesTo_of_not_mem hremote hnew

/-- Checkpoints are asked for by root, and then by slot if they have to be. -/
theorem comesTo_blockFinality {id : Datum} {header : HeaderInfo}
    (hremote : s.world.remote = { r with asked := requests ++ r.asked })
    (hnew : ∀ id, c.finalityRoute id ∉ requests)
    (hserved : c.headerAt id s.world.remote = .ok header) :
    ComesTo (c.blockFinality id) s (c.checkpointsAt header r)
      (c.checkpointRoutes header r ++ [c.headerRoute id]) := by
  have hasked : ComesTo (c.endpoint.header id) s (.ok header) [c.headerRoute id] :=
    hserved ▸ (asks_header c.endpoint id).comesTo rfl
  refine hasked.bind fun t ht => ?_
  rw [hremote] at ht
  have hsecond : t.world.remote = { r with asked := c.headerRoute id :: requests ++ r.asked } := ht
  have hroot := comesTo_finality (.bytes header.stateRoot) hsecond
    (List.not_mem_cons_of_ne_of_not_mem (finalityRoute_ne_headerRoute _ _) (hnew _))
  rw [checkpointsAt, checkpointRoutes]
  cases hresult : c.finalityAt (.bytes header.stateRoot) r with
  | ok checkpoints =>
    rw [hresult] at hroot
    exact hroot.attempt.bind_ended fun u => rfl
  | error e =>
    rw [hresult] at hroot
    dsimp only
    cases htransient : e.isTransient with
    | false =>
      rw [if_neg Bool.false_ne_true, if_neg Bool.false_ne_true]
      refine hroot.attempt.bind_ended fun u => ?_
      show (if e.isTransient then c.endpoint.finality (.int header.slot)
        else Work.fail e : Job Finality) [] u = _
      rw [htransient]
      rfl
    | true =>
      rw [if_pos rfl, if_pos rfl]
      show ComesTo _ t _ ([c.finalityRoute (.int header.slot)]
        ++ [c.finalityRoute (.bytes header.stateRoot)])
      refine hroot.attempt.bind fun u hu => ?_
      show ComesTo (if e.isTransient then c.endpoint.finality (.int header.slot)
        else Work.fail e : Job Finality) u _ _
      rw [hsecond] at hu
      have hthird : u.world.remote = { r with
          asked := c.finalityRoute (.bytes header.stateRoot) :: c.headerRoute id :: requests
            ++ r.asked } := hu
      rw [htransient]
      refine comesTo_finality (.int header.slot) hthird ?_
      exact List.not_mem_cons_of_ne_of_not_mem (finalityRoute_bytes_ne_int _ _).symm
        (List.not_mem_cons_of_ne_of_not_mem (finalityRoute_ne_headerRoute _ _) (hnew _))

/-- No checkpoints are asked for without a header. -/
theorem comesTo_blockFinality_of_error {id : Datum} {e : Failure}
    (hfailed : c.headerAt id s.world.remote = .error e) :
    ComesTo (c.blockFinality id) s (.error e) [c.headerRoute id] := by
  have hasked : ComesTo (c.endpoint.header id) s (.error e) [c.headerRoute id] :=
    hfailed ▸ (asks_header c.endpoint id).comesTo rfl
  exact hasked.bind_of_error

/-! ## Summaries -/

/-- What a summary shows. -/
@[ext]
structure Summary where
  slot : Nat
  head : String
  justified : String
  finalized : String
  fork : String
  execution : String
  deriving DecidableEq, Repr

/-- The line of a summary. -/
def Summary.line (x : Summary) : String :=
  "fork=" ++ x.fork ++ ", slot=" ++ toString x.slot ++ ", head=" ++ x.head ++ ", exec_payload="
    ++ x.execution ++ ", justified=" ++ x.justified ++ ", finalized=" ++ x.finalized

/-- Slot and root of a header as a summary shows them. -/
def shownHeader (header : HeaderInfo) : Nat × String := (header.slot, shortenBytes header.root)

/-- The roots of checkpoints as a summary shows them. -/
def shownCheckpoints (checkpoints : Finality) : String × String :=
  (shortenBytes checkpoints.currentJustified.root, shortenBytes checkpoints.finalized.root)

/-- Fork and payload hash of a block as a summary shows them. -/
def shownBlock (block : VersionedBlock) : String × String :=
  (block.fork.name, (block.payloadHash.map shortenBytes).getD noPayload)

/-- What the checkpoints after the head come to. -/
def headCheckpointsAt (c : Client) (r : Remote) : Except Failure Finality :=
  c.secondHeadAt r >>= fun header => c.checkpointsAt header r

/-- The summary that the replies of a node make. -/
def summaryAt (c : Client) (r : Remote) : Summary :=
  let head := ((c.headAt r).map shownHeader).toOption.getD (0, "")
  let checkpoints := ((c.headCheckpointsAt r).map shownCheckpoints).toOption.getD ("", "")
  let block := ((c.headBlockAt r).map shownBlock).toOption.getD ("", noPayload)
  ⟨head.1, head.2, checkpoints.1, checkpoints.2, block.1, block.2⟩

/-- Each request for a summary has an answer, or fails in a way that may pass. The checkpoints are
asked for by slot only if they do not come by root. -/
structure Answers (c : Client) (r : Remote) : Prop where
  head : OnlyTransient (c.headAt r)
  secondHead : OnlyTransient (c.secondHeadAt r)
  byRoot : ∀ header, c.secondHeadAt r = .ok header →
    OnlyTransient (c.finalityAt (.bytes header.stateRoot) r)
  bySlot : ∀ header e, c.secondHeadAt r = .ok header →
    c.finalityAt (.bytes header.stateRoot) r = .error e →
    OnlyTransient (c.finalityAt (.int header.slot) r)
  block : OnlyTransient (c.headBlockAt r)

/-- The requests for the checkpoints after the head, newest first. -/
def headCheckpointRoutes (c : Client) (r : Remote) : List Route :=
  match c.secondHeadAt r with
  | .ok header => c.checkpointRoutes header r ++ [c.headRoute]
  | .error _ => [c.headRoute]

/-- The requests for a summary, newest first. -/
def summaryRoutes (c : Client) (r : Remote) : List Route :=
  [c.headBlockRoute] ++ c.headCheckpointRoutes r ++ [c.headRoute]

theorem Answers.checkpoints (h : c.Answers r) : OnlyTransient (c.headCheckpointsAt r) := by
  refine h.secondHead.bind fun header hsecond => ?_
  rw [checkpointsAt]
  cases hroot : c.finalityAt (.bytes header.stateRoot) r with
  | ok checkpoints => exact nofun
  | error e =>
    show OnlyTransient (if e.isTransient then c.finalityAt (.int header.slot) r else .error e)
    rw [if_pos (h.byRoot header hsecond e hroot)]
    exact h.bySlot header e hsecond hroot

/-- The header is asked for again for the checkpoints. -/
theorem comesTo_finalityStatus
    (hremote : s.world.remote = { r with asked := [c.headRoute] ++ r.asked }) :
    ComesTo c.finalityStatus s ((c.headCheckpointsAt r).map shownCheckpoints)
      (c.headCheckpointRoutes r) := by
  have hhead : c.headerAt (.str "head") s.world.remote = c.secondHeadAt r := by
    rw [hremote]
    rfl
  refine ComesTo.map ?_ shownCheckpoints
  rw [headCheckpointsAt, headCheckpointRoutes]
  cases hsecond : c.secondHeadAt r with
  | error e => exact comesTo_blockFinality_of_error (hhead.trans hsecond)
  | ok header =>
    refine comesTo_blockFinality hremote (fun id => ?_) (hhead.trans hsecond)
    rw [List.mem_singleton]
    exact finalityRoute_ne_headerRoute id _

/-- None of the other requests is one for the block. -/
theorem headBlockRoute_not_mem :
    c.headBlockRoute ∉ c.headCheckpointRoutes r ++ [c.headRoute] := by
  have hjson : ∀ path, c.headBlockRoute ≠ c.endpoint.route .json path :=
    fun path => (Node.Endpoint.route_json_ne_bytes c.endpoint path _).symm
  have hheader : c.headBlockRoute ≠ c.headRoute := hjson _
  have hfinality : ∀ id, c.headBlockRoute ≠ c.finalityRoute id := fun id => hjson _
  have hcheckpoints : ∀ header, c.headBlockRoute ∉ c.checkpointRoutes header r := by
    intro header
    rw [checkpointRoutes]
    split
    · simp [hfinality]
    · split <;> simp [hfinality]
  rw [headCheckpointRoutes]
  split
  · simp [hheader, hcheckpoints]
  · simp [hheader]

theorem comesTo_statusLine (hremote : s.world.remote = r) (h : c.Answers r) :
    ComesTo c.statusLine s (.ok (c.summaryAt r).line) (c.summaryRoutes r) := by
  have hhead : ComesTo c.headStatus s ((c.headAt r).map shownHeader) [c.headRoute] :=
    ((asks_header c.endpoint _).comesTo hremote).map shownHeader
  rw [statusLine, summaryRoutes]
  refine (hhead.orWhenTransient (h.head.map _) (0, "")).bind fun t ht => ?_
  rw [hremote] at ht
  have hfinality := comesTo_finalityStatus ht
  refine (hfinality.orWhenTransient (h.checkpoints.map _) ("", "")).bind fun u hu => ?_
  rw [ht] at hu
  have hserved : ComesTo c.blockStatus u ((c.headBlockAt r).map shownBlock) [c.headBlockRoute] := by
    refine ComesTo.map ?_ shownBlock
    refine (asks_block c.endpoint (.str "head")).comesTo_of_not_mem (hu.trans ?_)
      (headBlockRoute_not_mem (r := r))
    rw [List.append_assoc]
  exact (hserved.orWhenTransient (h.block.map _) ("", noPayload)).bind_ended fun v => rfl

/-- A summary shows what came: the first header, the checkpoints by root or by slot, and the block,
each or nothing. -/
structure Shows (c : Client) (r : Remote) (x : Summary) : Prop where
  head : ∀ header, c.headAt r = .ok header →
    x.slot = header.slot ∧ x.head = shortenBytes header.root
  noHead : ∀ e, c.headAt r = .error e → x.slot = 0 ∧ x.head = ""
  byRoot : ∀ header checkpoints, c.secondHeadAt r = .ok header →
    c.finalityAt (.bytes header.stateRoot) r = .ok checkpoints →
    x.justified = shortenBytes checkpoints.currentJustified.root
      ∧ x.finalized = shortenBytes checkpoints.finalized.root
  bySlot : ∀ header e checkpoints, c.secondHeadAt r = .ok header →
    c.finalityAt (.bytes header.stateRoot) r = .error e →
    c.finalityAt (.int header.slot) r = .ok checkpoints →
    x.justified = shortenBytes checkpoints.currentJustified.root
      ∧ x.finalized = shortenBytes checkpoints.finalized.root
  noSecondHead : ∀ e, c.secondHeadAt r = .error e → x.justified = "" ∧ x.finalized = ""
  noCheckpoints : ∀ header e e', c.secondHeadAt r = .ok header →
    c.finalityAt (.bytes header.stateRoot) r = .error e →
    c.finalityAt (.int header.slot) r = .error e' → x.justified = "" ∧ x.finalized = ""
  block : ∀ block, c.headBlockAt r = .ok block → x.fork = block.fork.name
  noPayload : ∀ block, c.headBlockAt r = .ok block →
    block.fork = .phase0 ∨ block.fork = .altair → x.execution = "0x0000..0000"
  payload : ∀ block, c.headBlockAt r = .ok block →
    ¬ (block.fork = .phase0 ∨ block.fork = .altair) →
    ∃ hash, block.payloadHash = some hash ∧ x.execution = shortenBytes hash
  noBlock : ∀ e, c.headBlockAt r = .error e → x.fork = "" ∧ x.execution = "0x0000..0000"

theorem summaryAt_of_checkpoints {checkpoints : Finality}
    (h : c.headCheckpointsAt r = .ok checkpoints) :
    (c.summaryAt r).justified = shortenBytes checkpoints.currentJustified.root
      ∧ (c.summaryAt r).finalized = shortenBytes checkpoints.finalized.root := by
  rw [summaryAt, h]
  exact ⟨rfl, rfl⟩

theorem summaryAt_of_no_checkpoints {e : Failure} (h : c.headCheckpointsAt r = .error e) :
    (c.summaryAt r).justified = "" ∧ (c.summaryAt r).finalized = "" := by
  rw [summaryAt, h]
  exact ⟨rfl, rfl⟩

/-- Checkpoints that do not come by root are those that come by slot. -/
theorem Answers.headCheckpointsAt_of_error (h : c.Answers r) {header : HeaderInfo} {e : Failure}
    (hserved : c.secondHeadAt r = .ok header)
    (hfailed : c.finalityAt (.bytes header.stateRoot) r = .error e) :
    c.headCheckpointsAt r = c.finalityAt (.int header.slot) r := by
  rw [headCheckpointsAt, hserved]
  show c.checkpointsAt header r = _
  rw [checkpointsAt, hfailed]
  exact if_pos (h.byRoot header hserved e hfailed)

theorem Answers.shows (h : c.Answers r) : c.Shows r (c.summaryAt r) where
  head header hserved := by
    rw [summaryAt, hserved]
    exact ⟨rfl, rfl⟩
  noHead e hfailed := by
    rw [summaryAt, hfailed]
    exact ⟨rfl, rfl⟩
  byRoot header checkpoints hserved hroot := by
    refine summaryAt_of_checkpoints ?_
    rw [headCheckpointsAt, hserved]
    show c.checkpointsAt header r = _
    rw [checkpointsAt, hroot]
  bySlot header e checkpoints hserved hroot hslot :=
    summaryAt_of_checkpoints ((h.headCheckpointsAt_of_error hserved hroot).trans hslot)
  noSecondHead e hfailed := by
    refine summaryAt_of_no_checkpoints (e := e) ?_
    rw [headCheckpointsAt, hfailed]
    rfl
  noCheckpoints header e e' hserved hroot hslot :=
    summaryAt_of_no_checkpoints ((h.headCheckpointsAt_of_error hserved hroot).trans hslot)
  block block hserved := by
    rw [summaryAt, hserved]
    rfl
  noPayload block hserved hearly := by
    rw [summaryAt, hserved]
    show (block.payloadHash.map shortenBytes).getD _ = _
    rw [VersionedBlock.payloadHash_eq_none_iff.mpr hearly]
    rfl
  payload block hserved hlate := by
    obtain ⟨hash, hhash⟩ := Option.ne_none_iff_exists'.mp
      (mt VersionedBlock.payloadHash_eq_none_iff.mp hlate)
    refine ⟨hash, hhash, ?_⟩
    rw [summaryAt, hserved]
    show (block.payloadHash.map shortenBytes).getD _ = _
    rw [hhash]
    rfl
  noBlock e hfailed := by
    rw [summaryAt, hfailed]
    exact ⟨rfl, rfl⟩

/-! ## Parts by themselves -/

variable {r' : Remote}

/-- The first part of a summary is told by the first reply for the head. -/
theorem summaryAt_head_congr (h : r'.replyTo c.headRoute = r.replyTo c.headRoute) :
    (c.summaryAt r').slot = (c.summaryAt r).slot
      ∧ (c.summaryAt r').head = (c.summaryAt r).head := by
  have hhead : c.headAt r' = c.headAt r := exchange_congr h
  rw [summaryAt, hhead, summaryAt]
  exact ⟨rfl, rfl⟩

/-- The second part is told by the second reply for the head and those for its checkpoints. -/
theorem summaryAt_checkpoints_congr
    (h : (r'.next c.headRoute).2.replyTo c.headRoute = (r.next c.headRoute).2.replyTo c.headRoute)
    (hcheckpoints : ∀ header, c.secondHeadAt r = .ok header →
      r'.replyTo (c.finalityRoute (.bytes header.stateRoot))
          = r.replyTo (c.finalityRoute (.bytes header.stateRoot))
        ∧ r'.replyTo (c.finalityRoute (.int header.slot))
          = r.replyTo (c.finalityRoute (.int header.slot))) :
    (c.summaryAt r').justified = (c.summaryAt r).justified
      ∧ (c.summaryAt r').finalized = (c.summaryAt r).finalized := by
  have hsecond : c.secondHeadAt r' = c.secondHeadAt r := exchange_congr h
  have hsame : c.headCheckpointsAt r' = c.headCheckpointsAt r := by
    rw [headCheckpointsAt, hsecond, headCheckpointsAt]
    cases hserved : c.secondHeadAt r with
    | error e => rfl
    | ok header =>
      obtain ⟨hroot, hslot⟩ := hcheckpoints header hserved
      have hroot : c.finalityAt (.bytes header.stateRoot) r' = c.finalityAt _ r :=
        exchange_congr hroot
      have hslot : c.finalityAt (.int header.slot) r' = c.finalityAt _ r := exchange_congr hslot
      show c.checkpointsAt header r' = c.checkpointsAt header r
      rw [checkpointsAt, hroot, hslot, checkpointsAt]
  rw [summaryAt, hsame, summaryAt]
  exact ⟨rfl, rfl⟩

/-- The third part is told by the reply for the block. -/
theorem summaryAt_block_congr (h : r'.replyTo c.headBlockRoute = r.replyTo c.headBlockRoute) :
    (c.summaryAt r').fork = (c.summaryAt r).fork
      ∧ (c.summaryAt r').execution = (c.summaryAt r).execution := by
  have hblock : c.headBlockAt r' = c.headBlockAt r := exchange_congr h
  rw [summaryAt, hblock, summaryAt]
  exact ⟨rfl, rfl⟩

theorem length_summaryRoutes_le : (c.summaryRoutes r).length ≤ 5 := by
  have hcheckpoints : ∀ header, (c.checkpointRoutes header r).length ≤ 2 := by
    intro header
    rw [checkpointRoutes]
    split
    · exact Nat.le_succ 1
    · split <;> simp
  rw [summaryRoutes, headCheckpointRoutes]
  split
  next header _ =>
    have := hcheckpoints header
    simp only [List.length_append, List.length_singleton]
    omega
  · simp

/-- If each request for a summary has an answer or fails in a way that may pass, a line is given,
whatever combination of them fails. It shows what came of each part.

On another node, each part is shown as it is on this one if the replies for that part are the same,
whatever becomes of the others. -/
theorem statusLine_shows (c : Client) (s : Stage (Link ClientConfig) Line)
    (h : c.Answers s.world.remote) :
    let r := s.world.remote
    let x := c.summaryAt r
    (∃ t, c.statusLine [] s = (.done x.line, t)
      ∧ t.world.remote.asked = c.summaryRoutes r ++ r.asked ∧ (c.summaryRoutes r).length ≤ 5)
    ∧ c.Shows r x
    ∧ ∀ s', c.Answers s'.world.remote →
      let r' := s'.world.remote
      ∃ x' t', c.statusLine [] s' = (.done x'.line, t') ∧ c.Shows r' x'
        ∧ (r'.replyTo c.headRoute = r.replyTo c.headRoute → x'.slot = x.slot ∧ x'.head = x.head)
        ∧ ((r'.next c.headRoute).2.replyTo c.headRoute
            = (r.next c.headRoute).2.replyTo c.headRoute →
          (∀ header, c.secondHeadAt r = .ok header →
            r'.replyTo (c.finalityRoute (.bytes header.stateRoot))
                = r.replyTo (c.finalityRoute (.bytes header.stateRoot))
              ∧ r'.replyTo (c.finalityRoute (.int header.slot))
                = r.replyTo (c.finalityRoute (.int header.slot))) →
          x'.justified = x.justified ∧ x'.finalized = x.finalized)
        ∧ (r'.replyTo c.headBlockRoute = r.replyTo c.headBlockRoute →
          x'.fork = x.fork ∧ x'.execution = x.execution) := by
  intro r x
  obtain ⟨t, hrun, hremote⟩ := comesTo_statusLine rfl h
  refine ⟨⟨t, hrun, congrArg Remote.asked hremote, length_summaryRoutes_le⟩, h.shows,
    fun s' h' => ?_⟩
  obtain ⟨t', hrun', -⟩ := comesTo_statusLine rfl h'
  exact ⟨_, t', hrun', h'.shows, summaryAt_head_congr, summaryAt_checkpoints_congr,
    summaryAt_block_congr⟩

/-- An answer with checkpoints. -/
def checkpointsReply (f : Finality) : Node.Reply where
  json := some (.record [("data", .record
    [("previous_justified", Ssz.toJson Consensus.checkpoint f.previousJustified.toValue),
      ("current_justified", Ssz.toJson Consensus.checkpoint f.currentJustified.toValue),
      ("finalized", Ssz.toJson Consensus.checkpoint f.finalized.toValue)])])

theorem checkpointOf_toJson {checkpoint : Consensus.Checkpoint}
    (h : Consensus.checkpoint.admits checkpoint.toValue = true) :
    Node.checkpointOf (Ssz.toJson Consensus.checkpoint checkpoint.toValue) = .ok checkpoint := by
  obtain ⟨other, hvalue, hread⟩ := Node.exists_checkpoint h
  have hsame := congrArg Consensus.Checkpoint.ofValue? hvalue
  rw [Consensus.Checkpoint.ofValue?_toValue, Consensus.Checkpoint.ofValue?_toValue] at hsame
  rw [hread, Option.some.inj hsame]

theorem finalityAt_checkpointsReply {f : Finality}
    (hprevious : Consensus.checkpoint.admits f.previousJustified.toValue = true)
    (hcurrent : Consensus.checkpoint.admits f.currentJustified.toValue = true)
    (hfinalized : Consensus.checkpoint.admits f.finalized.toValue = true) {id : Datum}
    (h : r.replyTo (watcher.finalityRoute id) = checkpointsReply f) :
    watcher.finalityAt id r = .ok f := by
  have hread : watcher.finalityAt id r = Finality.ofDatum (.record
      [("previous_justified", Ssz.toJson Consensus.checkpoint f.previousJustified.toValue),
        ("current_justified", Ssz.toJson Consensus.checkpoint f.currentJustified.toValue),
        ("finalized", Ssz.toJson Consensus.checkpoint f.finalized.toValue)]) :=
    exchange_of_reply h
  rw [hread]
  exact Node.finality_of_checkpoints rfl rfl rfl (checkpointOf_toJson hprevious)
    (checkpointOf_toJson hcurrent) (checkpointOf_toJson hfinalized)

/-- A block from before there are payloads. -/
def earlyBlock : VersionedBlock := .initial .minimal .altair

/-- Checkpoints with two roots. -/
def someCheckpoints : Finality :=
  ⟨⟨0, Signing.zeroRoot⟩, ⟨1, someHash⟩, ⟨0, List.replicate 32 2⟩⟩

/-- A node whose head moves on from slot 7 to slot 8 when it has been asked for once. It knows states
by slot only. -/
def movingNode (blocks : List (Route × List Node.Reply)) : Stage (Link ClientConfig) Line where
  world := {
    own := {}
    remote.routes := [(watcher.headRoute,
        [headerReply true (headerAfter 7 Signing.zeroRoot), headerReply true (headerAfter 8 someHash)]),
      (watcher.finalityRoute (.int (8 : Nat)), [checkpointsReply someCheckpoints])] ++ blocks }

/-- The node has two headers and the checkpoints by slot, but not those by root. -/
theorem exists_replies_movingNode (blocks : List (Route × List Node.Reply))
    (hroot : blocks.lookup (watcher.finalityRoute (.bytes Signing.zeroRoot)) = none) :
    let r := (movingNode blocks).world.remote
    ∃ first second, watcher.headAt r = .ok first ∧ first.slot = 7 ∧ first.root = [0x22]
      ∧ watcher.secondHeadAt r = .ok second ∧ second.stateRoot = Signing.zeroRoot ∧ second.slot = 8
      ∧ watcher.finalityAt (.bytes second.stateRoot) r
        = .error (.notFound (finalityPath (.bytes Signing.zeroRoot) ++ " not found"))
      ∧ watcher.finalityAt (.int second.slot) r = .ok someCheckpoints := by
  intro r
  have hreply : r.replyTo watcher.headRoute
      = headerReply true (headerAfter 7 Signing.zeroRoot) := rfl
  have hnext : (r.next watcher.headRoute).2.replyTo watcher.headRoute
      = headerReply true (headerAfter 8 someHash) := rfl
  obtain ⟨first, hfirst, hshown, -, hheader⟩ :=
    exchange_headerReply (e := watcher.endpoint) rfl (by decide +kernel) hreply
  obtain ⟨second, hsecond, -, -, hheader'⟩ :=
    exchange_headerReply (e := watcher.endpoint) rfl (by decide +kernel) hnext
  have hstate : second.stateRoot = Signing.zeroRoot := by
    rw [Node.HeaderInfo.stateRoot, hheader']
    rfl
  have hslot : second.slot = 8 := by
    rw [Node.HeaderInfo.slot, hheader']
    rfl
  have hunknown : r.replyTo (watcher.finalityRoute (.bytes Signing.zeroRoot)) = .unknown :=
    Remote.replyTo_of_lookup_none hroot
  refine ⟨first, second, hfirst, ?_, hshown, hsecond, hstate, hslot, ?_, ?_⟩
  · rw [Node.HeaderInfo.slot, hheader]
    rfl
  · rw [hstate]
    exact exchange_of_reply hunknown
  · rw [hslot]
    exact finalityAt_checkpointsReply (by decide +kernel) (by decide +kernel) (by decide +kernel)
      rfl

theorem answers_movingNode {blocks : List (Route × List Node.Reply)}
    (hroot : blocks.lookup (watcher.finalityRoute (.bytes Signing.zeroRoot)) = none)
    (hblock : OnlyTransient (watcher.headBlockAt (movingNode blocks).world.remote)) :
    watcher.Answers (movingNode blocks).world.remote := by
  obtain ⟨first, second, hfirst, -, -, hsecond, -, -, hbyRoot, hbySlot⟩ :=
    exists_replies_movingNode blocks hroot
  refine ⟨?_, ?_, fun header hserved => ?_, fun header e hserved _ => ?_, hblock⟩
  · rw [hfirst]
    exact nofun
  · rw [hsecond]
    exact nofun
  · obtain rfl := Except.ok.inj (hsecond.symm.trans hserved)
    rw [hbyRoot]
    rintro e ⟨⟩
    rfl
  · obtain rfl := Except.ok.inj (hsecond.symm.trans hserved)
    rw [hbySlot]
    exact nofun

/-- The slot is that of the first head, and the checkpoints are those of the second one, by slot. If
the block does not come, nothing else changes. -/
theorem statusLine_shows_movingNode :
    (∃ t, watcher.statusLine [] (movingNode [(watcher.headBlockRoute, [blockReply earlyBlock])])
      = (.done ("fork=altair, slot=7, head=0x22, exec_payload=0x0000..0000, "
        ++ "justified=0x0101..0101, finalized=0x0202..0202"), t))
    ∧ ∃ t, watcher.statusLine [] (movingNode [])
      = (.done ("fork=, slot=7, head=0x22, exec_payload=0x0000..0000, "
        ++ "justified=0x0101..0101, finalized=0x0202..0202"), t) := by
  let s := movingNode [(watcher.headBlockRoute, [blockReply earlyBlock])]
  have hadmitted : earlyBlock.Admitted := by
    show (PayloadKind.block.schema .minimal .altair).admits earlyBlock.value = true
    decide +kernel
  have hblock : watcher.headBlockAt s.world.remote = .ok earlyBlock :=
    exchange_blockReply rfl rfl hadmitted (by decide +kernel) rfl
  have hnone : watcher.headBlockAt (movingNode []).world.remote
      = .error (.notFound (blockPath (.str "head") ++ " not found")) := rfl
  obtain ⟨first, second, hfirst, hseven, hroot, hsecond, hzero, height, hbyRoot, hbySlot⟩ :=
    exists_replies_movingNode [(watcher.headBlockRoute, [blockReply earlyBlock])] rfl
  obtain ⟨⟨t, hrun, -⟩, hshows, hothers⟩ := statusLine_shows watcher s
    (answers_movingNode rfl (by rw [hblock]; exact nofun))
  obtain ⟨x', t', hrun', hshows', hhead, hcheckpoints, -⟩ := hothers (movingNode [])
    (answers_movingNode rfl (by rw [hnone]; rintro e ⟨⟩; rfl))
  obtain ⟨hslot, hshown⟩ := hshows.head first hfirst
  obtain ⟨hjustified, hfinalized⟩ := hshows.bySlot second _ _ hsecond hbyRoot hbySlot
  have hfork := hshows.block _ hblock
  have hexecution := hshows.noPayload _ hblock (.inr rfl)
  rw [hseven] at hslot
  rw [hroot] at hshown
  obtain ⟨hslot', hshown'⟩ := hhead rfl
  obtain ⟨hjustified', hfinalized'⟩ := hcheckpoints rfl fun header hserved => by
    obtain rfl := Except.ok.inj (hsecond.symm.trans hserved)
    rw [hzero, height]
    exact ⟨rfl, rfl⟩
  obtain ⟨hfork', hexecution'⟩ := hshows'.noBlock _ hnone
  have hx : watcher.summaryAt s.world.remote = ⟨_, _, _, _, _, _⟩ :=
    Summary.ext hslot hshown hjustified hfinalized hfork hexecution
  have hx' : x' = ⟨_, _, _, _, _, _⟩ := Summary.ext (hslot'.trans hslot) (hshown'.trans hshown)
    (hjustified'.trans hjustified) (hfinalized'.trans hfinalized) hfork' hexecution'
  rw [hx] at hrun
  rw [hx'] at hrun'
  refine ⟨⟨t, hrun.trans (congrArg (fun line => (Outcome.done line, t)) ?_)⟩,
    t', hrun'.trans (congrArg (fun line => (Outcome.done line, t')) ?_)⟩
  · decide +kernel
  · decide +kernel

end Client

end BeaconHarness
