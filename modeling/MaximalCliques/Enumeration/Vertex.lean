import MaximalCliques.Graph.Access
import MaximalCliques.Search.Plan
import Std.Data.HashMap

/-!
# The vertices of an enumeration

* **`Vertex`** — a listed node: its index, its place in the roster and its spelling.
* **`Roster`** — the listed nodes, each once.
* **`Clique`** — a set of vertices; **`Clique.inOrder`** lists it by ascending index.
* **`Clique.collect`** — a set of cliques, listed by their ascending indices.
-/

namespace MaximalCliques

/-- A listed node. -/
structure Vertex where
  index : Nat
  /-- The place in the roster. -/
  place : Nat
  node : Identifier
deriving Inhabited, Repr

namespace Vertex

/-- Vertices are taken by index, and by place where two nodes share an index. -/
def le (u v : Vertex) : Bool := u.index < v.index || (u.index == v.index && u.place ≤ v.place)

end Vertex

/-- The listed nodes of a graph, each in its first spelling. -/
structure Roster where
  vertices : List Vertex
  placeOf : Std.HashMap Identifier Nat

namespace Roster

def ofNodes (nodes : List (Identifier × Nat)) : Roster where
  vertices := nodes.zipIdx.map fun ((x, i), k) => ⟨i, k, x⟩
  placeOf := nodes.zipIdx.foldl (fun m ((x, _), k) => m.insert x k) ∅

/-- The roster of the nodes that a graph lists, in the order in which the machine goes through their set. -/
def gather {σ : Type} (g : Access σ) : Query σ Roster := do
  let nodes ← g.admitted g.nodes
  let places := (Identifier.distinct nodes).mergeSort g.machine.precedes
  let indexed ← places.mapM fun x => do
    let i ← Query.ofExcept (g.index x)
    return (x, i.toNat)
  return ofNodes indexed

end Roster

/-- A set of vertices, as a list without repetition. -/
abbrev Clique := List Vertex

namespace Clique

def inOrder (c : Clique) : Clique := c.mergeSort Vertex.le

def indices (c : Clique) : List Nat := c.inOrder.map (·.index)

/-- The places in the order of the indices; two cliques are equal if theirs are. -/
def places (c : Clique) : List Nat := c.inOrder.map (·.place)

def nodes (c : Clique) : List Identifier := c.inOrder.map (·.node)

/-- A set of cliques: each once, as it came first. -/
def distinct (cs : List Clique) : List Clique :=
  (cs.foldl (fun (seen : Std.HashMap (List Nat) Unit × List Clique) c =>
    if seen.1.contains c.places then seen else (seen.1.insert c.places (), c :: seen.2))
    (∅, [])).2.reverse

/-- Does a list of indices come no later than another in lexicographic order? -/
def indicesLe : List Nat → List Nat → Bool
  | [], _ => true
  | _ :: _, [] => false
  | i :: is, j :: js => i < j || (i == j && indicesLe is js)

/-- A set of cliques, listed by their ascending indices. -/
def collect (cs : List Clique) : List Clique :=
  let indexed := (distinct cs).map fun c => (c.indices, c)
  (indexed.mergeSort fun a b => indicesLe a.1 b.1).map (·.2)

end Clique

end MaximalCliques
