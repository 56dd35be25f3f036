import MaximalCliques.Fault

/-!
# Directions of an edge

* **`Direction`** — along the edge or against it.
* **`Direction.read`** — a direction given by its number.
* **`Direction.requested`** — the direction that a neighbour query follows: against the edges when
  the value given equals one, along them for every other value.
-/

namespace MaximalCliques

inductive Direction where
  | outgoing
  | incoming
deriving DecidableEq, Repr

namespace Direction

def opposite : Direction → Direction
  | outgoing => incoming
  | incoming => outgoing

def number : Direction → Int
  | outgoing => 0
  | incoming => 1

def name : Direction → String
  | outgoing => "OUTGOING"
  | incoming => "INCOMING"

def read (value : Identifier) : Except Fault Direction :=
  if value == .integer outgoing.number then .ok outgoing
  else if value == .integer incoming.number then .ok incoming
  else .error (Fault.notADirection value).raised

/-- The direction that a neighbour query follows. -/
def requested (value : Identifier) : Direction :=
  if value == .integer incoming.number then incoming else outgoing

end Direction

end MaximalCliques
