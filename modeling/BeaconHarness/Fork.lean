/-!
# Forks

The five forks of the consensus layer that the harness speaks, in activation order, and the order
between them. A node tags every state and block with the name of the fork whose schema encodes it.

Main statements: the order numbers are the positions in the list of all forks, and a fork is read
back from its name (`ofName?_name`).
-/

namespace BeaconHarness

/-- A consensus fork. -/
inductive Fork where
  | phase0
  | altair
  | bellatrix
  | capella
  | deneb
  deriving DecidableEq, Repr, Inhabited

namespace Fork

/-- All forks in activation order. -/
def all : List Fork := [phase0, altair, bellatrix, capella, deneb]

/-- The name by which nodes tag their payloads. -/
def name : Fork → String
  | phase0 => "phase0"
  | altair => "altair"
  | bellatrix => "bellatrix"
  | capella => "capella"
  | deneb => "deneb"

/-- The name as it begins the names of the fork's schemas. -/
def title : Fork → String
  | phase0 => "Phase0"
  | altair => "Altair"
  | bellatrix => "Bellatrix"
  | capella => "Capella"
  | deneb => "Deneb"

/-- The position in activation order. -/
def order : Fork → Nat
  | phase0 => 0
  | altair => 1
  | bellatrix => 2
  | capella => 3
  | deneb => 4

/-- Whether a fork is another one or a later one. -/
def atLeast (f g : Fork) : Bool := g.order ≤ f.order

/-- The fork with a given name. -/
def ofName? (s : String) : Option Fork := all.find? fun f => f.name = s

theorem getElem?_order (f : Fork) : all[f.order]? = some f := by cases f <;> rfl

theorem ofName?_name (f : Fork) : ofName? f.name = some f := by cases f <;> decide

@[simp] theorem atLeast_iff {f g : Fork} : f.atLeast g = true ↔ g.order ≤ f.order := by
  simp [atLeast]

end Fork

end BeaconHarness
