import MaximalCliques.Graph.NodeEntry

/-!
# Networks: nodes and the links drawn between them

A network remembers its nodes in the order of their arrival and every link ever drawn.  Neighbours
are read off the links: each neighbour once, in the order and the spelling of the first link to it.

* **`Network.addNode`**, **`Network.addLink`** — growing a network.
* **`Network.ofEdges`** — a network of listed nodes whose edges may only join those.
* **`Network.successors`**, **`Network.predecessors`** — the neighbours.
* **`Network.edges`** — the edges, without directions each at one of its ends.
* **`Network.edgeCount`** — parallel links count only where the network keeps them apart.
-/

namespace MaximalCliques

/-- Nodes and links. -/
structure Network where
  directed : Bool
  /-- Are several links between the same two nodes kept apart? -/
  parallel : Bool := false
  nodes : Array Identifier := #[]
  /-- The links in the order in which they were drawn. -/
  links : Array (Identifier × Identifier) := #[]

namespace Network

/-! ### Growing -/

def contains (g : Network) (x : Identifier) : Bool := g.nodes.any (· == x)

/-- The network with one more node; a node that it has keeps its first spelling. -/
def addNode (g : Network) (x : Identifier) : Except Fault Network := do
  x.requireKey
  if g.contains x then return g
  match x with
  | .absent => throw .absentNode
  | x => return { g with nodes := g.nodes.push x }

/-- Draws a link and adds its ends where they are missing.  An end that is refused stops the drawing
but does not undo what was done before. -/
def addLink (g : Network) (u v : Identifier) : Network × Except Fault Unit :=
  match g.addNode u with
  | .error e => (g, .error e)
  | .ok g => match g.addNode v with
    | .error e => (g, .error e)
    | .ok g => ({ g with links := g.links.push (u, v) }, .ok ())

/-- Draws all the links of a list, each of which is read as a pair when it is reached. -/
def addLinks (g : Network) (links : List Identifier) : Except Fault Network :=
  links.foldlM (fun g link => do
    let (u, v) ← link.pair
    match g.addLink u v with
    | (g, .ok ()) => return g
    | (_, .error e) => throw e) g

def ofNodes (directed parallel : Bool) (entries : List Identifier) : Except Fault Network :=
  entries.foldlM (fun g entry => do g.addNode (← NodeEntry.node entry)) { directed, parallel }

def joinNodes (g : Network) (u v : Identifier) : Except Fault Network :=
  if !g.contains u then .error (Fault.unknownNode u).raised
  else if !g.contains v then .error (Fault.unknownNode v).raised
  else .ok { g with links := g.links.push (u, v) }

def ofEdges (directed : Bool) (nodes : List Identifier) (edges : List (Identifier × Identifier)) :
    Except Fault Network := do
  let g ← ofNodes directed false nodes
  edges.foldlM (fun g (u, v) => g.joinNodes u v) g

/-! ### Neighbours -/

/-- The nodes that a link leads to; without directions, the other ends of a node's links. -/
def successors (g : Network) (x : Identifier) : List Identifier :=
  Identifier.distinct <| g.links.toList.filterMap fun (a, b) =>
    if a == x then some b else if !g.directed && b == x then some a else none

def predecessors (g : Network) (x : Identifier) : List Identifier :=
  Identifier.distinct <| g.links.toList.filterMap fun (a, b) =>
    if b == x then some a else if !g.directed && a == x then some b else none

/-- The edges of nodes, each with its other end.  Without directions, those to a node passed before are
left out. -/
def edgesFrom (g : Network) (passed : List Identifier) : List Identifier → List (Identifier × Identifier)
  | [] => []
  | x :: rest =>
    let ends := (g.successors x).filter fun y => g.directed || !y.isIn passed
    ends.map (fun y => (x, y)) ++ g.edgesFrom (x :: passed) rest

/-- The edges in the order of the nodes, parallel links as one edge.  Without directions, an edge is
given once, by the end that comes first. -/
def edges (g : Network) : List (Identifier × Identifier) := g.edgesFrom [] g.nodes.toList

/-- The number of edges.  In a network that keeps parallel links apart it is the number of links;
otherwise each pair of neighbours is one edge. -/
def edgeCount (g : Network) : Nat :=
  if g.parallel then g.links.size
  else
    let out := g.nodes.toList.map fun x => (x, g.successors x)
    if g.directed then out.foldl (fun n (_, ys) => n + ys.length) 0
    else out.foldl (fun n (x, ys) => n + ys.length + if x.isIn ys then 1 else 0) 0 / 2

end Network

end MaximalCliques
