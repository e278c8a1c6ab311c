import BeaconHarness.Wait.Span

/-!
# Remote nodes

A node as its clients see it: for each request a list of replies, of which one is used up with
every request and the last one stays. A request without replies is answered 404. Clients of several
nodes share one network, in which a node is known by its address.

What a client does is written down line by line: the requests it makes, the sessions it opens and
closes, and what it tells the reader of the log.

Main statement: asking never changes what was set up (`routes_next`).
-/

namespace BeaconHarness.Node

/-! ## Replies -/

/-- A node's reply to a request. -/
structure Reply where
  status : Int := 200
  /-- The body as JSON, if it is JSON. -/
  json : Option Datum := none
  /-- The body as text, for messages, if it is text. -/
  text : Option String := some ""
  /-- The body as bytes. -/
  body : Bytes := []
  /-- The fork that the reply names in its header. -/
  version : Option String := none
  /-- How many seconds the reply takes. -/
  delay : Datum := .int 0
  /-- What happens in place of a reply. -/
  failure : Option Failure := none
  deriving Inhabited

/-- The reply to a request that the node does not know. -/
def Reply.unknown : Reply := { status := 404 }

/-- How a request is made. -/
inductive Verb where
  /-- Asks for JSON. -/
  | json
  /-- Asks for bytes. -/
  | bytes
  /-- Hands over JSON. -/
  | post
  deriving DecidableEq, Repr, Inhabited

/-- The name of a way to make a request. -/
def Verb.name : Verb → String
  | json => "GET"
  | bytes => "SSZ"
  | post => "POST"

/-! ## The network -/

/-- What tells requests apart: the node's address, and the verb with the path. -/
structure Route where
  address : String
  request : String
  deriving DecidableEq, Repr, Inhabited

/-- All nodes, with the replies that are set up and the requests made so far. -/
structure Remote where
  routes : List (Route × List Reply) := []
  asked : List Route := []
  deriving Inhabited

namespace Remote

/-- The reply to the next request on a route: the replies in order, and then always the last. -/
def replyTo (r : Remote) (route : Route) : Reply :=
  match r.routes.lookup route with
  | none => .unknown
  | some replies =>
    match replies[r.asked.count route]? with
    | some reply => reply
    | none => replies.getLastD .unknown

/-- The reply to a request, and the network behind it. -/
def next (r : Remote) (route : Route) : Reply × Remote :=
  (r.replyTo route, { r with asked := route :: r.asked })

/-- Sets up the replies on a route in place of those that were there. -/
def setUp (r : Remote) (route : Route) (replies : List Reply) : Remote :=
  { r with routes := (route, replies) :: r.routes }

theorem routes_next (r : Remote) (route : Route) : (r.next route).2.routes = r.routes := rfl

/-- How many replies are set up. -/
def replyCount (r : Remote) : Nat := (r.routes.flatMap fun e => e.2).length

end Remote

/-! ## Links -/

/-- A line that a client leaves behind. -/
inductive Line where
  /-- A request, or a session opened or closed. -/
  | request (text : String)
  /-- A message in the log. -/
  | info (text : String)
  deriving DecidableEq, Repr, Inhabited

/-- A client's side of the network, together with what the client keeps of its own. -/
structure Link (κ : Type) where
  remote : Remote
  isOpen : Bool := false
  own : κ
  deriving Inhabited

/-- Work of a client. -/
abbrev Job (κ α : Type) := Work (Link κ) Line α

/-- Writes a request down. -/
def logRequest {κ : Type} (text : String) : Job κ Unit := Work.note (.request text)

/-- Tells the reader of the log. -/
def logInfo {κ : Type} (text : String) : Job κ Unit := Work.note (.info text)

end BeaconHarness.Node
