import MaximalCliques.Graph.Association
import MaximalCliques.Graph.Direction

/-!
# Graphs given by tables

A graph of a user's own making: every answer is looked up in a table, and nothing keeps the tables
consistent with one another.

* **`TableGraph`** — the tables.
* **`TableGraph.index`**, **`TableGraph.nodeAt`**, **`TableGraph.neighbours`** — the answers.
-/

namespace MaximalCliques

/-- A graph given by tables. -/
structure TableGraph where
  nodes : List Identifier
  bound : Identifier
  indices : Association Identifier
  outgoing : Association (List Identifier)
  incoming : Association (List Identifier)
  directed : Bool

namespace TableGraph

def index (g : TableGraph) (x : Identifier) : Except Fault Int := g.indices.index x

/-- The first node of the table with an index. -/
def nodeAt (g : TableGraph) (i : Identifier) : Except Fault Identifier :=
  match g.indices.entries.find? (·.2 == i) with
  | some (x, _) => .ok x
  | none => .error (Fault.unknownNode i).raised

def neighbours (g : TableGraph) (x : Identifier) : Except Fault (List Identifier) :=
  (g.outgoing.get? x).map (·.getD [])

def neighboursToward (g : TableGraph) (d : Direction) (x : Identifier) :
    Except Fault (List Identifier) :=
  match d with
  | .outgoing => g.neighbours x
  | .incoming => (g.incoming.get? x).map (·.getD [])

end TableGraph

end MaximalCliques
