import MaximalCliques.Graph.AdjacencyTable
import MaximalCliques.Graph.Direction
import MaximalCliques.Graph.Network
import MaximalCliques.Graph.Association
import MaximalCliques.Identifier.Order

/-!
# Networks with a fixed numbering

The nodes are numbered once, in order; links drawn later are seen, nodes added later have no number
and are unknown to queries.

* **`IndexedNetwork.neighbours`**, **`IndexedNetwork.neighboursToward`** — of a numbered node.
* **`IndexedNetwork.index`**, **`IndexedNetwork.nodeAt`** — the numbering.
* **`IndexedNetwork.adjacency`** — the edges as a table of index pairs.
-/

namespace MaximalCliques

/-- A network and the numbering that its nodes had when it was made. -/
structure IndexedNetwork where
  network : Network
  numbering : Numbering

namespace IndexedNetwork

def ofNetwork (g : Network) : IndexedNetwork := ⟨g, .ofNames g.nodes.toList⟩

def nodes (g : IndexedNetwork) : List Identifier := g.numbering.names.toList

def bound (g : IndexedNetwork) : Int := g.numbering.size

def requireNode (g : IndexedNetwork) (x : Identifier) : Except Fault Unit := do
  x.requireKey
  if (g.numbering.place? x).isNone then throw (Fault.unknownNode x).raised

def neighbours (g : IndexedNetwork) (x : Identifier) : Except Fault (List Identifier) := do
  g.requireNode x
  return g.network.successors x

/-- The neighbours in one direction; without directions, both are the same. -/
def neighboursToward (g : IndexedNetwork) (d : Direction) (x : Identifier) :
    Except Fault (List Identifier) := do
  g.requireNode x
  return if g.network.directed && d = .incoming then g.network.predecessors x
    else g.network.successors x

/-- The index of a node; a value that cannot be a key is no node. -/
def index (g : IndexedNetwork) (x : Identifier) : Except Fault Int :=
  match g.numbering.place? x with
  | some i => .ok i
  | none => .error (Fault.unknownNode x).raised

/-- The node with an index, which a truth value may stand for. -/
def nodeAt (g : IndexedNetwork) (i : Identifier) : Except Fault Identifier := do
  if !(← i.isWithin g.bound) then throw (Fault.indexOutOfRange i g.bound).raised
  match i.toInt?.bind g.numbering.name? with
  | some x => return x
  | none => throw (.notAPlace "list" i.kindName)

/-- Enters an edge as an index pair, both ways round where the network has no directions. -/
def enterEdge (g : IndexedNetwork) (t : AdjacencyTable) (u v : Identifier) :
    Except Fault AdjacencyTable := do
  let i ← g.index u
  let j ← g.index v
  let t := t.insert i.toNat j.toNat
  return if g.network.directed then t else t.insert j.toNat i.toNat

def tableOf (g : IndexedNetwork) (edges : List (Identifier × Identifier)) :
    Except Fault AdjacencyTable :=
  edges.foldlM (fun t (u, v) => g.enterEdge t u v) (.empty g.numbering.size)

def adjacency (g : IndexedNetwork) : Except Fault AdjacencyTable := g.tableOf g.network.edges

/-- The answer of a table of index pairs for two nodes.  The table may be another network's; both
nodes are looked up before it is. -/
def isAdjacentIn (g : IndexedNetwork) (t : AdjacencyTable) (a b : Identifier) : Except Fault Bool := do
  let i ← g.index a
  let j ← g.index b
  t.holds? i.toNat j.toNat

def addLink (g : IndexedNetwork) (u v : Identifier) : IndexedNetwork × Except Fault Unit :=
  let (network, answer) := g.network.addLink u v
  ({ g with network }, answer)

def describe (g : IndexedNetwork) : String :=
  let kind := if g.network.directed then "directed" else "undirected"
  "NxGraph(" ++ kind ++ s!", nodes={g.network.nodes.size}, edges={g.network.edgeCount})"

end IndexedNetwork

end MaximalCliques
