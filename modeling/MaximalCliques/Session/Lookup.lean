import MaximalCliques.Session.State

/-!
# What things can do

A thing that does not offer what is asked of it is refused by its kind and by the name of the operation.

* **`Capability`** — the roles that a thing may play, in their usual order.
* **`Thing.capabilities`** — the roles of a thing.
* **`Action.find`** — the thing that a name stands for.
* **`Action.findView`**, **`Action.findGraph`**, **`Action.findNetwork`**, **`Action.findOracle`** — a
  thing that offers an operation of such a thing.
-/

namespace MaximalCliques

/-- A role that a thing may play. -/
inductive Capability where
  | visitMap
  | nodeIdentifiers
  | neighbours
  | neighboursDirected
  | directedness
  | indexing
  | visiting
  | adjacencyMatrix
  | graph
  | indexedGraph
  | nodeFilter
deriving DecidableEq, Repr

namespace Capability

def all : List Capability :=
  [visitMap, nodeIdentifiers, neighbours, neighboursDirected, directedness, indexing, visiting,
    adjacencyMatrix, graph, indexedGraph, nodeFilter]

def ofGraph : List Capability :=
  [nodeIdentifiers, neighbours, neighboursDirected, directedness, indexing, visiting]

/-- The roles that take others together, with what they take. -/
def parts : Capability → List Capability
  | graph => ofGraph
  | indexedGraph => [nodeIdentifiers, neighbours, indexing]
  | c => [c]

/-- The roles of a thing that plays the given single ones, in their usual order. -/
def closure (single : List Capability) : List Capability :=
  all.filter fun c => c.parts.all single.contains

def name : Capability → String
  | visitMap => "VisitMap"
  | nodeIdentifiers => "IntoNodeIdentifiers"
  | neighbours => "IntoNeighbors"
  | neighboursDirected => "IntoNeighborsDirected"
  | directedness => "GraphProp"
  | indexing => "NodeIndexable"
  | visiting => "Visitable"
  | adjacencyMatrix => "GetAdjacencyMatrix"
  | graph => "Graph"
  | indexedGraph => "IndexedGraph"
  | nodeFilter => "NodeFilter"

end Capability

def Base.capabilities : Base → List Capability
  | .network _ => Capability.closure (.adjacencyMatrix :: Capability.ofGraph)
  | .tableGraph .. => Capability.closure Capability.ofGraph
  | .filter _ => [.nodeFilter]
  | .bits _ => [.visitMap]
  | .seen _ => [.visitMap, .nodeFilter]
  | _ => []

/-- The roles of a thing.  A view has an answer to all questions of a graph but one that only a graph
under it can give it. -/
def Thing.capabilities : Thing → List Capability
  | ⟨base, []⟩ => base.capabilities
  | ⟨base, _ :: _⟩ => Capability.closure (.nodeFilter :: Capability.ofGraph.filter fun c =>
      c ≠ .directedness || (base.refusal? "is_directed").isNone)

/-! ### Finding things by name -/

namespace Action

def find (name : String) : Action Thing := do
  match (← get).thing? name with
  | some thing => return thing
  | none => throw (.unknownName name)

def refuse {α : Type} (thing : Thing) (operation : String) : Action α :=
  throw (.refusal thing.fullKindName operation)

def findGraph (name operation : String) : Action Thing := do
  let g ← find name
  match g.base.refusal? operation with
  | none => return g
  | some e => throw e

/-- The graph, or the view over whatever, that a name stands for. -/
def findView (name operation : String) : Action Thing := do
  match ← find name with
  | ⟨base, f :: fs⟩ => return ⟨base, f :: fs⟩
  | _ => findGraph name operation

def findNetwork (name operation : String) : Action (Nat × IndexedNetwork) := do
  match ← find name with
  | ⟨.network place, []⟩ =>
    match (← get).world.networks[place]? with
    | some g => return (place, g)
    | none => throw (.unavailable name)
  | thing => refuse thing operation

def findOracle (name operation : String) : Action Oracle := do
  match ← find name with
  | ⟨.oracle _ o, []⟩ => return o
  | thing => refuse thing operation

end Action

end MaximalCliques
