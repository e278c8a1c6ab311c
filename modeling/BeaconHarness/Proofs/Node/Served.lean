import BeaconHarness.Proofs.Consensus.RoundTrip
import BeaconHarness.Proofs.Node.Answers
import BeaconHarness.Proofs.Node.Look

/-!
# What a node serves

A reply that comes at once is received as it is by an endpoint that waits for ever. A header or a
block is then read from the answer with it, by whatever id it was asked for.

A client that knows a network with slots of twelve seconds, answers with headers and blocks, and a
block with a payload stand here for those that watch a node.

Main statements: `exchange_headerReply`, `exchange_blockReply`.
-/

namespace BeaconHarness

open Node (Link Line Remote Route Reply HeaderInfo)

/-! ## Answers -/

/-- A header at a slot, with a root for the parent. -/
def headerAfter (slot : Nat) (parentRoot : Bytes) : Consensus.SignedHeader where
  message := ⟨slot, 0, parentRoot, Signing.zeroRoot, Signing.zeroRoot⟩
  signature := List.replicate 96 0

/-- An answer with a header that is in the canonical chain or not. -/
def headerReply (canonical : Bool) (header : Consensus.SignedHeader) : Reply where
  json := some (.record [("data", .record [("root", .str "0x22"), ("canonical", .bool canonical),
    ("header", Ssz.toJson Consensus.signedBeaconBlockHeader header.toValue)])])

/-- An answer with a block. -/
def blockReply (b : VersionedBlock) : Reply := { version := some b.fork.name, body := b.encode }

/-- An answer with the flag of a block. -/
def flagReply (flag : Datum) : Reply where
  json := some (.record [("execution_optimistic", flag)])

namespace Node.Endpoint

variable {e : Endpoint} {id : Datum} {r : Remote} {reply : Reply}

/-- Nobody hurries a reply that comes at once. -/
theorem received_of_atOnce (hbound : e.rpcTimeout = .null) (hdelay : reply.delay.truthy = false)
    (hfailure : reply.failure = none) : e.received reply = .ok reply := by
  have hlate : e.isLate reply = .ok false := by rw [isLate, hbound]
  rw [received, hlate]
  simp only [bind, Except.bind, Bool.false_eq_true, if_false, hdelay, hfailure]
  rfl

/-- A header is read from the answer with it, whether it is in the canonical chain or not. -/
theorem exchange_headerReply (hbound : e.rpcTimeout = .null) {canonical : Bool}
    {header : Consensus.SignedHeader}
    (hadmitted : Consensus.signedBeaconBlockHeader.admits header.toValue = true)
    (h : r.replyTo (e.route .json (headerPath id)) = headerReply canonical header) :
    ∃ head, e.exchange .json (headerPath id) (headerOf id) r = .ok head
      ∧ head.root = [0x22] ∧ head.canonical = canonical ∧ head.header = header := by
  obtain ⟨found, hvalue, hread⟩ := exists_headerInfo hadmitted
  have hsame := congrArg Consensus.SignedHeader.ofValue? hvalue
  rw [Consensus.SignedHeader.ofValue?_toValue, Consensus.SignedHeader.ofValue?_toValue] at hsame
  have hshown : (Datum.str "0x22").hexBytes = .ok [0x22] := by decide +kernel
  let data : List (Datum × Datum) := [(.str "root", .str "0x22"),
    (.str "canonical", .bool canonical),
    (.str "header", Ssz.toJson Consensus.signedBeaconBlockHeader header.toValue)]
  have hhead := hread [(.str "data", .dict data)] data (.str "0x22") [0x22] rfl rfl rfl hshown
  have hreceived : e.received (headerReply canonical header) = .ok (headerReply canonical header) :=
    received_of_atOnce hbound rfl rfl
  rw [← h] at hreceived
  rw [exchange_of_received hreceived, h]
  exact ⟨_, (headerOf_of_json rfl).trans hhead, rfl, rfl, Option.some.inj hsame⟩

/-- A block is read from the answer with it. -/
theorem exchange_blockReply (hbound : e.rpcTimeout = .null) {b : VersionedBlock}
    (hpreset : b.preset = e.preset) (hadmitted : b.Admitted)
    (hlength : b.encode.length < Bytes.capacity Ssz.Schema.offsetWidth)
    (h : r.replyTo (e.route .bytes (blockPath id)) = blockReply b) :
    e.exchange .bytes (blockPath id) (e.blockOf id) r = .ok b := by
  have htag : b.fork.name.toLower = b.fork.name := by
    generalize b.fork = fork
    cases fork <;> decide +kernel
  have hdecoded := ofBytes_encode hadmitted hlength htag
  rw [hpreset] at hdecoded
  have hreceived : e.received (blockReply b) = .ok (blockReply b) :=
    received_of_atOnce hbound rfl rfl
  rw [exchange_block_of_received h hreceived]
  exact hdecoded

end Node.Endpoint

namespace Client

/-! ## A client that knows its network -/

/-- A client of a network with slots of twelve seconds that waits for every reply as long as it
takes. -/
def watcher : Client := { endpoint := ⟨"http://node", .null, .minimal⟩ }

theorem span_twelveSeconds : ({} : Spec).secondsPerSlot.span = .ok (12 * ticksPerSecond) := by
  decide +kernel

/-- Slots of twelve seconds move the clock in its first hour. -/
theorem movesBefore_twelveSeconds {instant : Nat} (h : instant ≤ 3600 * ticksPerSecond) :
    Work.MovesBefore ({} : Spec).secondsPerSlot instant := by
  have hlater : 3600 * ticksPerSecond ≤ Nat.pow 2 52 * (12 * ticksPerSecond) := by decide +kernel
  have hrange : 3600 * ticksPerSecond ≤ Nat.pow 2 2098 := by decide +kernel
  exact Work.movesBefore_of_le span_twelveSeconds (by decide +kernel) (Nat.le_trans h hlater)
    (Nat.le_trans h hrange)

/-- A limit that comes in the second slot of twelve seconds. -/
def thirteenSeconds : Work.Limit := ⟨13 * ticksPerSecond, "13", clockLeeway⟩

theorem limit_thirteenSeconds : (Datum.int 13).limit = .ok (some thirteenSeconds) := by
  decide +kernel

/-- The deadline that it sets at the start of the clock. -/
theorem deadline_thirteenSeconds : 0 + thirteenSeconds.span = 13 * ticksPerSecond := by
  rw [Nat.zero_add]
  rfl

theorem movesBefore_thirteenSeconds :
    Work.MovesBefore ({} : Spec).secondsPerSlot (13 * ticksPerSecond) :=
  movesBefore_twelveSeconds (by decide +kernel)

/-! ## Blocks with a payload -/

/-- The hash of a payload. -/
def someHash : Bytes := List.replicate 32 1

/-- A block with a payload of that hash. -/
def filledBlock : VersionedBlock :=
  let b : VersionedBlock := .initial .minimal .bellatrix
  let payload := b.payload.setField "block_hash" (.bytes someHash)
  let body := b.body.setField "execution_payload" payload.value
  let message := b.message.setField "body" body.value
  ⟨.minimal, .bellatrix, (b.object.setField "message" message.value).value⟩

theorem payloadHash_filledBlock : filledBlock.payloadHash = some someHash := by decide +kernel

theorem someHash_ne_zeroRoot : someHash ≠ Signing.zeroRoot := by decide +kernel

theorem exchange_filledBlock {id : Datum} {r : Remote}
    (h : r.replyTo (watcher.endpoint.route .bytes (Node.Endpoint.blockPath id))
      = blockReply filledBlock) :
    watcher.endpoint.exchange .bytes (Node.Endpoint.blockPath id) (watcher.endpoint.blockOf id) r
      = .ok filledBlock := by
  have hadmitted : filledBlock.Admitted := by
    show (PayloadKind.block.schema .minimal .bellatrix).admits filledBlock.value = true
    decide +kernel
  exact Node.Endpoint.exchange_blockReply rfl rfl hadmitted (by decide +kernel) h

end Client

end BeaconHarness
