import BeaconHarness.Json.Printer
import BeaconHarness.Node.Remote
import BeaconHarness.Preset

/-!
# Requests

An endpoint is one node as a client addresses it. The first request opens a session, which stays
open until it is closed; every request is bounded by the endpoint's timeout. A reply with status
404 means that nothing was found, any other status outside the two hundreds is a failure with the
reply's text, and only then is a body looked at. A body that is not text makes such a failure one of
reading the body.
-/

namespace BeaconHarness.Node

/-- A node as a client addresses it. -/
structure Endpoint where
  /-- The address of the node, without slashes at its end. -/
  address : String
  /-- The most seconds to wait for a single request; null sets no bound. -/
  rpcTimeout : Datum
  /-- The preset of the schemas by which bodies are decoded. -/
  preset : Preset
  deriving Inhabited

namespace Endpoint

variable {κ : Type}

/-- An address without slashes at its end. -/
def trimAddress (url : String) : String :=
  String.ofList ((url.toList.reverse.dropWhile (· = '/')).reverse)

/-! ## Sessions -/

/-- Opens a session, unless one is open. -/
def openSession (e : Endpoint) : Job κ Unit := do
  let link ← Work.world
  if link.isOpen then return
  else
    logRequest ("session timeout=" ++ e.rpcTimeout.display)
    Work.change fun link => { link with isOpen := true }

/-- Closes the session, if one is open. -/
def close : Job κ Unit := do
  let link ← Work.world
  if link.isOpen then
    logRequest "session closed"
    Work.change fun link => { link with isOpen := false }
  else return

/-! ## Sending -/

/-- The query part of a request line. -/
def queryText (query : List (String × String)) : String :=
  if query.isEmpty then ""
  else "?" ++ String.intercalate "&" (query.map fun q => q.1 ++ "=" ++ q.2)

/-- Waits for a reply, at most as long as the endpoint allows. -/
def await (e : Endpoint) (reply : Reply) : Job κ Reply := do
  -- A reply that comes at the very end of the time allowed is too late.
  let isLate ← match e.rpcTimeout with
    | .null => pure false
    | bound => Work.ofExcept (bound.isAtMost reply.delay)
  if isLate then
    Work.sleepFor e.rpcTimeout
    Work.fail .timedOut
  else Work.pause reply.delay
  match reply.failure with
  | some failure => Work.fail failure
  | none => return reply

/-- Makes a request and waits for the reply. -/
def send (e : Endpoint) (verb : Verb) (path : String) (query : List (String × String))
    (payload : Option Datum) : Job κ Reply := do
  e.openSession
  let line := verb.name ++ " " ++ e.address ++ path ++ queryText query
  logRequest (match payload with
    | some d => line ++ " " ++ Json.print d
    | none => line)
  let link ← Work.world
  let (reply, remote) := link.remote.next ⟨e.address, verb.name ++ " " ++ path⟩
  Work.change fun link => { link with remote }
  e.await reply

/-- The failure that the status of a reply means, if any. -/
def Reply.fault? (reply : Reply) (path : String) : Option Failure :=
  if reply.status = 404 then some (.notFound (path ++ " not found"))
  else if reply.status < 200 || 300 ≤ reply.status then
    match reply.text with
    | some text => some (.api reply.status text)
    | none => some .notText
  else none

/-- Refuses a reply whose status tells a failure. -/
def checked (path : String) (reply : Reply) : Job κ Reply :=
  match Reply.fault? reply path with
  | some failure => Work.fail failure
  | none => return reply

/-! ## Bodies -/

/-- Asks for JSON. -/
def getJson (e : Endpoint) (path : String) (query : List (String × String)) :
    Job κ Datum := do
  let reply ← checked path (← e.send .json path query none)
  match reply.json with
  | some d => return d
  | none => Work.fail .notJson

/-- Asks for bytes and the fork that the reply names. -/
def getBytes (e : Endpoint) (path : String) : Job κ (Option String × Bytes) := do
  let reply ← checked path (← e.send .bytes path [] none)
  return (reply.version, reply.body)

/-- Hands over JSON. -/
def post (e : Endpoint) (path : String) (payload : Datum) : Job κ Unit := do
  let _ ← checked path (← e.send .post path [] (some payload))

end Endpoint

end BeaconHarness.Node
