import BeaconHarness.Node.Call
import BeaconHarness.Proofs.Node.Reply
import BeaconHarness.Proofs.Node.Sequence

/-!
# Calls and their requests

A call on an endpoint puts one request together from its arguments, and checks the status of the
reply before it looks at anything else in it. Arguments that do not fit the parameters, or of which
the request cannot be made, are refused before anything is sent.

Which request belongs to a call is told by one table for all of them.

Main statements: every call of the table makes its own request and checks the reply (`fits_calls`,
`checks_make`), and no other call makes any (`answer_remote`).
-/

namespace BeaconHarness.Node.Endpoint

open Work (ended)

/-! ## The table -/

/-- A call that makes a request: its parameters, and the verb and the path of the request for its
arguments, or the failure of arguments of which none can be made. -/
structure Inquiry where
  name : String
  required : List String := []
  optional : List String := []
  request : (String → Datum) → Except Failure (Verb × String)

/-- A request at a path that is put together from an id. -/
def requestOn (verb : Verb) (path : Datum → String) (id : Datum) :
    Except Failure (Verb × String) := do
  let id ← id.shown
  return (verb, path id)

/-- The path of a full state. -/
def fullStatePath (id : Datum) : String := "/eth/v2/debug/beacon/states/" ++ id.pathText

/-- The calls that make requests. -/
def inquiries : List Inquiry := [
  { name := "get_spec", request := fun _ => .ok (.json, specPath) },
  { name := "get_genesis", request := fun _ => .ok (.json, genesisPath) },
  { name := "get_block", required := ["block_id"]
    request := fun a => requestOn .bytes blockPath (a "block_id") },
  { name := "get_block_is_optimistic", required := ["block_id"]
    request := fun a => requestOn .json blockPath (a "block_id") },
  { name := "get_block_root", required := ["block_id"]
    request := fun a =>
      requestOn .json (fun id => "/eth/v1/beacon/blocks/" ++ id.pathText ++ "/root")
        (a "block_id") },
  { name := "get_header", required := ["block_id"]
    request := fun a => requestOn .json headerPath (a "block_id") },
  { name := "get_blob_sidecars", required := ["block_id"]
    request := fun a =>
      requestOn .bytes (fun id => "/eth/v1/beacon/blob_sidecars/" ++ id.pathText)
        (a "block_id") },
  { name := "get_state", required := ["state_id"]
    request := fun a => requestOn .bytes fullStatePath (a "state_id") },
  { name := "get_state_validator", required := ["state_id", "validator_id"]
    request := fun a => do
      let id ← (a "state_id").shown
      requestOn .json (fun other => statePath id ("/validators/" ++ other.pathText))
        (a "validator_id") },
  { name := "get_state_validators", required := ["state_id"], optional := ["ids", "statuses"]
    request := fun a => do
      let id ← (a "state_id").shown
      let _ ← (a "ids").joinIds
      let _ ← (a "statuses").joinIds
      return (.json, statePath id "/validators") },
  { name := "get_state_validator_balances", required := ["state_id"], optional := ["ids"]
    request := fun a => do
      let id ← (a "state_id").shown
      let _ ← (a "ids").joinIds
      return (.json, statePath id "/validator_balances") },
  { name := "get_finality_checkpoints", required := ["state_id"]
    request := fun a =>
      requestOn .json (fun id => statePath id "/finality_checkpoints") (a "state_id") },
  { name := "get_fork", required := ["state_id"]
    request := fun a => requestOn .json (fun id => statePath id "/fork") (a "state_id") },
  { name := "get_randao", required := ["state_id"], optional := ["epoch"]
    request := fun a => do
      let id ← (a "state_id").shown
      let _ ← (a "epoch").displayedOrNull
      return (.json, statePath id "/randao") },
  { name := "get_expected_withdrawals", required := ["state_id"]
    request := fun a =>
      requestOn .json
        (fun id => "/eth/v1/builder/states/" ++ id.pathText ++ "/expected_withdrawals")
        (a "state_id") },
  { name := "get_proposer_duties", required := ["epoch"]
    request := fun a => do
      let text ← (a "epoch").displayed
      return (.json, "/eth/v1/validator/duties/proposer/" ++ text) },
  { name := "get_identity", request := fun _ => .ok (.json, "/eth/v1/node/identity") },
  { name := "submit_voluntary_exit", required := ["signed_exit"]
    request := fun a => do
      let _ ← (a "signed_exit").toBody
      return (.post, "/eth/v1/beacon/pool/voluntary_exits") },
  { name := "submit_bls_to_execution_changes", required := ["changes"]
    request := fun a => do
      let _ ← (a "changes").items >>= fun changes => changes.mapM Datum.toBody
      return (.post, "/eth/v1/beacon/pool/bls_to_execution_changes") }]

/-- The request of a call with some arguments, by position and by name. -/
def Inquiry.asks (q : Inquiry) (args : List Datum) (named : List (String × Datum)) :
    Except Failure (Verb × String) := do
  let bound ← Call.bind q.required q.optional args named
  q.request fun p => (bound.lookup p).getD .null

/-! ## Replies that are checked first -/

variable {κ α β : Type} {e : Endpoint}

/-- Reads a reply after its status has been checked. -/
def readAccepted (path : String) (read : Reply → Except Failure α) (reply : Reply) :
    Except Failure α := accepted path reply >>= read

/-- Work that makes a given request and checks the status of the reply before it reads anything, or
fails as told without a request. -/
inductive Checks (e : Endpoint) (work : Job κ α) (s : Stage (Link κ) Line) :
    Except Failure (Verb × String) → Prop
  | refuses {f : Failure} (h : ComesTo work s (.error f) []) : Checks e work s (.error f)
  | asks {verb : Verb} {path : String} (read : Reply → Except Failure α)
    (h : ComesTo work s (e.exchange verb path (readAccepted path read) s.world.remote)
      [e.route verb path]) : Checks e work s (.ok (verb, path))

variable {work : Job κ α} {next : α → Job κ β} {s : Stage (Link κ) Line} {verb : Verb}
  {path : String} {asked : Except Failure (Verb × String)}

theorem comesTo_send (e : Endpoint) (verb : Verb) (path : String) (query : List (String × String))
    (payload : Option Datum) (s : Stage (Link κ) Line) :
    ComesTo (e.send verb path query payload) s
      (e.received (s.world.remote.replyTo (e.route verb path))) [e.route verb path] := by
  obtain ⟨t, hrun, hafter⟩ := send_eq e verb path query payload s
  exact ⟨t, hrun, hafter.remote⟩

/-- A request whose reply is checked, and then read. -/
theorem Checks.of_send {query : List (String × String)} {payload : Option Datum}
    {next : Reply → Job κ α} (read : Reply → Except Failure α)
    (hnext : ∀ reply (t : Stage (Link κ) Line), next reply [] t = (ended (read reply), t)) :
    Checks e (do next (← checked path (← e.send verb path query payload))) s
      (.ok (verb, path)) := by
  refine .asks read ((comesTo_send e verb path query payload s).read fun reply t => ?_)
  have hchecked := checked_eq path reply t
  rw [readAccepted]
  cases haccepted : accepted path reply with
  | error failure =>
    rw [haccepted] at hchecked
    exact Work.andThen_of_failed hchecked
  | ok reply =>
    rw [haccepted] at hchecked
    exact (Work.andThen_of_done hchecked).trans (hnext reply t)

theorem checks_getJson (e : Endpoint) (path : String) (query : List (String × String))
    (s : Stage (Link κ) Line) : Checks e (e.getJson path query) s (.ok (.json, path)) := by
  refine .of_send (fun reply => reply.json.elim (.error .notJson) .ok) fun reply t => ?_
  cases reply.json <;> rfl

theorem checks_getBytes (e : Endpoint) (path : String) (s : Stage (Link κ) Line) :
    Checks e (e.getBytes path) s (.ok (.bytes, path)) :=
  .of_send (fun reply => .ok (reply.version, reply.body)) fun _ _ => rfl

theorem checks_post (e : Endpoint) (path : String) (payload : Datum) (s : Stage (Link κ) Line) :
    Checks e (e.post path payload) s (.ok (.post, path)) :=
  .of_send (fun _ => .ok ()) fun _ _ => rfl

namespace Checks

/-- What has been read is read further. -/
theorem read (h : Checks e work s asked) (further : α → Except Failure β)
    (hnext : ∀ a (t : Stage (Link κ) Line), next a [] t = (ended (further a), t)) :
    Checks e (work >>= next) s asked := by
  cases h with
  | refuses h => exact .refuses h.bind_of_error
  | @asks verb path read h =>
    refine .asks (fun reply => read reply >>= further) ?_
    have hread : e.exchange verb path (readAccepted path fun reply => read reply >>= further)
        s.world.remote
          = e.exchange verb path (readAccepted path read) s.world.remote >>= further := by
      simp only [exchange, bind_assoc, readAccepted]
      rfl
    rw [hread]
    exact h.read hnext

theorem ofExcept {further : α → Except Failure β} (h : Checks e work s asked) :
    Checks e (work >>= fun a => Work.ofExcept (further a)) s asked :=
  h.read further fun a t => Work.ofExcept_eq (further a) t

theorem map (h : Checks e work s asked) (f : α → β) : Checks e (f <$> work) s asked :=
  h.read (fun a => .ok (f a)) fun _ _ => rfl

/-- Arguments are read before anything is sent. -/
theorem after_arguments {arguments : Except Failure α}
    {request : α → Except Failure (Verb × String)} (h : ∀ a, Checks e (next a) s (request a)) :
    Checks e (Work.ofExcept arguments >>= next) s (arguments >>= request) := by
  cases arguments with
  | error f => exact .refuses (.bind_of_error (.of_ended rfl))
  | ok a => exact h a

theorem on_id {work : Datum → Job κ α} {path : Datum → String} (id : Datum)
    (h : ∀ id, Checks e (work id) s (.ok (verb, path id))) :
    Checks e (Call.onId id work) s (requestOn verb path id) :=
  .after_arguments h

/-- Opening a session makes no request. -/
theorem after_session
    (h : ∀ t : Stage (Link κ) Line, t.world.remote = s.world.remote → Checks e work t asked) :
    Checks e (do e.openSession; work) s asked := by
  obtain ⟨t, hopen, hopened⟩ := openSession_eq e s
  have hremote : t.world.remote = s.world.remote := hopened.remote
  cases h t hremote with
  | refuses hwork =>
    obtain ⟨u, hrun, hafter⟩ := hwork
    rw [hremote] at hafter
    exact .refuses ⟨u, (Work.andThen_of_done hopen).trans hrun, hafter⟩
  | asks read hwork =>
    obtain ⟨u, hrun, hafter⟩ := hwork
    rw [hremote] at hrun hafter
    exact .asks read ⟨u, (Work.andThen_of_done hopen).trans hrun, hafter⟩

end Checks

/-! ## Calls of the table -/

section Endpoints

variable (e : Endpoint) (id : Datum) (s : Stage (Link κ) Line)

theorem asks_accepted_payload (kind : PayloadKind) (path : String) :
    Asks (κ := κ) (payload kind e path) e .bytes path
      (readAccepted path fun reply => e.payloadIn kind path (reply.version, reply.body)) := by
  have hread : e.payloadOf kind path
      = readAccepted path fun reply => e.payloadIn kind path (reply.version, reply.body) := by
    funext reply
    rw [payloadOf, bytesOf, bind_assoc]
    rfl
  rw [← hread]
  exact asks_payload e kind path

theorem checks_payload (kind : PayloadKind) (path : String) :
    Checks e (payload kind e path) s (.ok (.bytes, path)) :=
  .asks _ ((asks_accepted_payload e kind path).comesTo rfl)

/-- A flag in an answer; one that is null is none. -/
def flagIn (answer : Datum) : Except Failure (Option Bool) := do
  match ← answer.entryOr "execution_optimistic" .null with
  | .null => .ok none
  | d => .ok (some d.truthy)

theorem checks_isOptimistic : Checks e (e.isOptimistic id) s (.ok (.json, blockPath id)) := by
  refine (checks_getJson e _ [] s).read flagIn fun answer t => ?_
  rw [flagIn]
  cases answer.entryOr "execution_optimistic" .null with
  | error f => rfl
  | ok flag => cases flag <;> rfl

/-- The blobs in a body. -/
def sidecarsIn (answer : Option String × Bytes) : Except Failure (List Ssz.Object) :=
  let τ := Ssz.Schema.list (Consensus.blobSidecar e.preset) e.preset.maxBlobCommitmentsPerBlock
  match Ssz.decodeBytes τ answer.2 with
  | some v => .ok (Ssz.Object.elements ⟨τ, v⟩)
  | none => .error .malformed

theorem checks_blobSidecars : Checks e (e.blobSidecars id) s
    (.ok (.bytes, "/eth/v1/beacon/blob_sidecars/" ++ id.pathText)) := by
  refine (checks_getBytes e _ s).read e.sidecarsIn fun answer t => ?_
  rw [sidecarsIn]
  dsimp only
  cases Ssz.decodeBytes _ answer.2 <;> rfl

theorem checks_randao (epoch : Datum) : Checks e (e.randao id epoch) s (do
    let _ ← epoch.displayedOrNull
    return (.json, statePath id "/randao")) :=
  .after_session fun t _ => .after_arguments fun _ => (checks_getJson e _ _ t).ofExcept

end Endpoints

/-- A call is told by a row of the table: it has the same parameters, and makes the request of that
row. -/
structure Fits (e : Endpoint) (call : Call (Link κ)) (q : Inquiry) : Prop where
  name : call.name = q.name
  required : call.required = q.required
  optional : call.optional = q.optional
  checks : ∀ (a : String → Datum) (s : Stage (Link κ) Line),
    Checks e (call.answer a) s (q.request a)

/-- Of the calls of an endpoint, those that make requests come first, in the order of the table. -/
theorem fits_calls (e : Endpoint) :
    List.Forall₂ (Fits (κ := κ) e) (e.calls.take inquiries.length) inquiries := by
  have hjson := fun path query s => checks_getJson (κ := κ) e path query s
  refine .cons ⟨rfl, rfl, rfl, fun a s => (hjson _ _ s).ofExcept⟩ <|
    .cons ⟨rfl, rfl, rfl, fun a s => (hjson _ _ s).ofExcept.map _⟩ <|
    .cons ⟨rfl, rfl, rfl, fun a s => (Checks.on_id _ fun _ => checks_payload e s _ _).map _⟩ <|
    .cons ⟨rfl, rfl, rfl, fun a s => (Checks.on_id _ fun _ => checks_isOptimistic e _ s).map _⟩ <|
    .cons ⟨rfl, rfl, rfl, fun a s => (Checks.on_id _ fun _ => (hjson _ _ s).ofExcept).map _⟩ <|
    .cons ⟨rfl, rfl, rfl, fun a s => (Checks.on_id _ fun _ => (hjson _ _ s).ofExcept).map _⟩ <|
    .cons ⟨rfl, rfl, rfl, fun a s => (Checks.on_id _ fun _ => checks_blobSidecars e _ s).map _⟩ <|
    .cons ⟨rfl, rfl, rfl, fun a s => (Checks.on_id _ fun _ => checks_payload e s _ _).map _⟩ <|
    .cons ⟨rfl, rfl, rfl, fun a s => (Checks.after_arguments fun _ =>
      Checks.on_id _ fun _ => (hjson _ _ s).ofExcept).map _⟩ <|
    .cons ⟨rfl, rfl, rfl, fun a s => (Checks.after_arguments fun _ => Checks.after_arguments fun _ =>
      Checks.after_arguments fun _ => (hjson _ _ s).ofExcept).map _⟩ <|
    .cons ⟨rfl, rfl, rfl, fun a s => (Checks.after_arguments fun _ => Checks.after_arguments fun _ =>
      (hjson _ _ s).ofExcept).map _⟩ <|
    .cons ⟨rfl, rfl, rfl, fun a s => (Checks.on_id _ fun _ => (hjson _ _ s).ofExcept).map _⟩ <|
    .cons ⟨rfl, rfl, rfl, fun a s => (Checks.on_id _ fun _ => (hjson _ _ s).ofExcept).map _⟩ <|
    .cons ⟨rfl, rfl, rfl, fun a s =>
      (Checks.after_arguments fun _ => checks_randao e _ s _).map _⟩ <|
    .cons ⟨rfl, rfl, rfl, fun a s => (Checks.on_id _ fun _ => (hjson _ _ s).ofExcept).map _⟩ <|
    .cons ⟨rfl, rfl, rfl, fun a s => (Checks.after_arguments fun _ =>
      (hjson _ _ s).ofExcept).map _⟩ <|
    .cons ⟨rfl, rfl, rfl, fun a s => (hjson _ _ s).ofExcept.map _⟩ <|
    .cons ⟨rfl, rfl, rfl, fun a s => (Checks.after_arguments fun _ => checks_post e _ _ s).map _⟩ <|
    .cons ⟨rfl, rfl, rfl, fun a s => (Checks.after_arguments fun _ => checks_post e _ _ s).map _⟩
      .nil

/-- A call of the table is found by its name. -/
theorem exists_call {q : Inquiry} (hq : q ∈ inquiries) (e : Endpoint) :
    ∃ call : Call (Link κ), e.calls.find? (fun call => call.name = q.name) = some call
      ∧ Fits e call q := by
  have hfind : ∀ {calls : List (Call (Link κ))} {rows : List Inquiry},
      List.Forall₂ (Fits e) calls rows → (rows.map Inquiry.name).Nodup → q ∈ rows →
      ∀ rest, ∃ call, (calls ++ rest).find? (fun call => call.name = q.name) = some call
        ∧ Fits e call q := by
    intro calls rows h hnodup hmem rest
    induction h with
    | nil => cases hmem
    | @cons call row calls rows hfits _ ih =>
      obtain ⟨hnew, hnodup⟩ := List.nodup_cons.mp hnodup
      rcases List.mem_cons.mp hmem with rfl | hmem
      · refine ⟨call, ?_, hfits⟩
        rw [List.cons_append, List.find?_cons, decide_eq_true hfits.name]
      · -- No other row has this name.
        have hne : ¬ call.name = q.name := by
          rw [hfits.name]
          intro hsame
          exact hnew (hsame ▸ List.mem_map_of_mem hmem)
        rw [List.cons_append, List.find?_cons, decide_eq_false hne]
        exact ih hnodup hmem
  have hcalls := hfind (fits_calls e) (by decide) hq (e.calls.drop inquiries.length)
  rwa [List.take_append_drop] at hcalls

/-- Whatever its arguments are, a call of the table makes the request that they ask for, and checks
the status of the reply. -/
theorem checks_make {q : Inquiry} (hq : q ∈ inquiries) (e : Endpoint) (args : List Datum)
    (named : List (String × Datum)) (s : Stage (Link κ) Line) :
    Checks e (Call.make e.calls q.name args named) s (q.asks args named) := by
  obtain ⟨call, hfind, hfits⟩ := exists_call (κ := κ) hq e
  rw [Inquiry.asks, ← hfits.required, ← hfits.optional]
  cases hbound : Call.bind call.required call.optional args named with
  | error f =>
    rw [Call.make, hfind]
    dsimp only
    rw [hbound]
    exact .refuses (.of_ended rfl)
  | ok bound =>
    rw [Call.make_of_bound hfind hbound]
    exact hfits.checks _ s

/-! ## The other calls -/

/-- Closing a session makes no requests. -/
theorem close_remote (s : Stage (Link κ) Line) :
    ∃ t, (close : Job κ Unit) [] s = (.done (), t) ∧ t.world.remote = s.world.remote := by
  have hclose : (close : Job κ Unit) [] s = (if s.world.isOpen then do
      logRequest "session closed"
      Work.change fun link => { link with isOpen := false }
    else return : Job κ Unit) [] s := rfl
  rw [hclose]
  split
  · exact ⟨_, rfl, rfl⟩
  · exact ⟨s, rfl, rfl⟩

/-- The calls that are not in the table make no requests. -/
theorem answer_remote {call : Call (Link κ)} (hcall : call ∈ e.calls)
    (hname : call.name ∉ inquiries.map Inquiry.name) (a : String → Datum)
    (s : Stage (Link κ) Line) : (call.answer a [] s).2.world.remote = s.world.remote := by
  have hnames : ((e.calls : List (Call (Link κ))).take inquiries.length).map Call.name
      = inquiries.map Inquiry.name := rfl
  have hothers : ∀ call ∈ (e.calls : List (Call (Link κ))).drop inquiries.length,
      (call.answer a [] s).2.world.remote = s.world.remote := by
    obtain ⟨t, hclose, hremote⟩ := close_remote s
    refine List.forall_mem_cons.mpr ⟨?_, List.forall_mem_cons.mpr ⟨?_, List.forall_mem_cons.mpr
      ⟨rfl, List.forall_mem_cons.mpr ⟨rfl, nofun⟩⟩⟩⟩
    · show (((close : Job κ Unit) >>= fun u => return Call.ofUnit u) [] s).2.world.remote = _
      rw [Work.andThen_of_done hclose]
      exact hremote
    · show (((close : Job κ Unit) >>= fun _ => return Datum.bool true) [] s).2.world.remote = _
      rw [Work.andThen_of_done hclose]
      exact hremote
  rw [← List.take_append_drop inquiries.length (e.calls : List (Call (Link κ))),
    List.mem_append] at hcall
  rcases hcall with hrequest | hother
  · exact absurd (hnames ▸ List.mem_map_of_mem hrequest) hname
  · exact hothers call hother

end BeaconHarness.Node.Endpoint
