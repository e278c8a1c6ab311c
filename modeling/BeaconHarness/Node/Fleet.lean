import BeaconHarness.Node.Chain

/-!
# Fleets

A group of clients, such as all nodes of a test network. They share one network and take turns:
what is asked of the group is asked of its members in order.
-/

namespace BeaconHarness

open Node (Remote Link Line)

/-- What one client of a fleet keeps of its own. -/
structure Member where
  isOpen : Bool := false
  config : ClientConfig := {}
  deriving Inhabited

/-- The world of a fleet: the network, and what each client keeps. -/
structure Fleet where
  remote : Remote := {}
  members : List Member := []
  deriving Inhabited

namespace Fleet

variable {α : Type}

/-- Work of a fleet. -/
abbrev Job (α : Type) := Work Fleet Line α

/-- The side of the network that belongs to the client at a position. -/
def link (f : Fleet) (i : Nat) : Link ClientConfig :=
  let member := f.members.getD i {}
  { remote := f.remote, isOpen := member.isOpen, own := member.config }

/-- Puts back the side of the network that belongs to the client at a position. -/
def setLink (i : Nat) (l : Link ClientConfig) (f : Fleet) : Fleet :=
  { remote := l.remote, members := f.members.set i { isOpen := l.isOpen, config := l.own } }

/-- Work of the client at a position. -/
def byMember (i : Nat) (work : Client.Job α) : Job α :=
  Work.onPart (fun f => f.link i) (fun l f => f.setLink i l) work

/-- The clients with their positions. -/
def numbered (clients : List Client) : List (Nat × Client) :=
  (List.range clients.length).zip clients

/-- What each client in order comes to. -/
def forAll (clients : List Client) (work : Nat → Client → Client.Job α) : Job (List α) :=
  (numbered clients).mapM fun (i, c) => byMember i (work i c)

/-! ## Members -/

/-- The positions of the clients on a subnet; of all of them for an empty name. -/
def subnet (f : Fleet) (name : Datum) : List Nat :=
  (List.range f.members.length).filter fun i =>
    !name.truthy || (f.members.getD i {}).config.subnet.same name

/-- The text that shows the clients. -/
def describe (f : Fleet) (clients : List Client) : String :=
  Datum.enclose "[" "]" ((numbered clients).map fun (i, c) =>
    c.describe (f.members.getD i {}).config)

/-! ## Questions to all -/

/-- Texts with commas between them, if they all are texts. -/
def joinTexts (items : List Datum) : Except Failure String :=
  match items.mapM fun d => match d with
    | .str s => some s
    | _ => none with
  | some texts => .ok (String.intercalate "," texts)
  | none => .error .wrongKind

/-- The records for peers of all clients, with commas between them. -/
def enrs (clients : List Client) : Job String := do
  Work.ofExcept (joinTexts (← forAll clients fun _ c => c.enr))

/-- The addresses of all clients, with commas between them. -/
def p2pAddresses (clients : List Client) : Job String := do
  return String.intercalate "," (← forAll clients fun _ c => c.p2pAddress)

/-- The first block with a given payload hash that a client finds. -/
def searchAll (hash : Datum) : List (Nat × Client) → Job (Option VersionedBlock)
  | [] => return none
  | (i, c) :: rest => do
    match ← byMember i (c.blockByExecutionHash hash) with
    | some block => return some block
    | none => searchAll hash rest

/-- The block with a given payload hash, from the first client that finds it. -/
def blockByExecutionHash (clients : List Client) (hash : Datum) : Job (Option VersionedBlock) :=
  searchAll hash (numbered clients)

/-- Hands signed changes of withdrawal credentials to all nodes. -/
def submitChanges (clients : List Client) (changes : Datum) : Job Unit := do
  let _ ← forAll clients fun _ c => c.endpoint.submitChanges changes

/-- Writes the status of each node to the log. -/
def logStatus (clients : List Client) : Job Unit := do
  let _ ← forAll clients fun i c => do
    let status ← c.statusLine
    Node.logInfo ("beacon " ++ toString i ++ " (" ++ c.name.display ++ "): " ++ status)

/-- Closes all sessions. -/
def close (clients : List Client) : Job Unit := do
  let _ ← forAll clients fun _ _ => Node.Endpoint.close

end Fleet

end BeaconHarness
