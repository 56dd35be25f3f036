import MaximalCliques.Session.Lookup

/-!
# Requests and replies

* **`GraphSpec`**, **`FilterSpec`**, **`RunSpec`** — descriptions of graphs, filters and enumerations.
* **`Request`** — what may be asked of a session.
* **`Reply`** — what a session answers.
-/

namespace MaximalCliques

/-- A description of a graph.  Edges and links are pairs of nodes. -/
inductive GraphSpec where
  /-- Listed nodes and edges between them. -/
  | edges (directed : Bool) (nodes edges : List Identifier)
  /-- A network grown from nodes and links. -/
  | network (directed parallel : Bool) (nodes links : List Identifier)
  /-- The numbers below `size`, all joined except the pairs in `skip`. -/
  | complete (size : Identifier) (skip : List Identifier)
  | tables (nodes : List Identifier) (bound : Identifier) (indices : List (Identifier × Identifier))
      (outgoing incoming : List (Identifier × List Identifier)) (directed : Bool)
  /-- A value where a network is expected. -/
  | value (value : Identifier)

inductive FilterSpec where
  | members (nodes : List Identifier)
  | named (name : String)
  | rule (rule : Rule)
  | custom (rule : Rule)
  | value (value : Identifier)

inductive IndexSpec where
  | byValue
  | ofGraph (name : String)
  | table (entries : List (Identifier × Identifier))

/-- How cliques are handed over. -/
inductive Mode where
  | asSet
  | inOrder
  | inBranches
deriving DecidableEq, Repr

def Mode.operation : Mode → String
  | asSet => "enumerate_maximal_cliques"
  | inOrder => "iter_maximal_cliques"
  | inBranches => "enumerate_maximal_cliques_parallel"

/-- Where an enumeration starts to count. -/
inductive CounterSpec where
  /-- From the counters listed, the others being zero. -/
  | start (counters : List Identifier)
  | named (name : String)

structure RunSpec where
  mode : Mode := .asSet
  /-- A whole set of settings, by name. -/
  settings : Option (List (String × Identifier)) := none
  pivot : Identifier := .absent
  iterative : Identifier := .absent
  /-- How many branches may run at once, if that is said at all. -/
  workers : Option Identifier := none
  counters : CounterSpec := .start []
  stop : Option StopCheck := none
  /-- The level from which reports are captured, if they are. -/
  captureLevel : Option Identifier := none
  discipline : Discipline := .dropWaiting

inductive MarkQuestion where
  | mark
  | isMarked
  | includes
deriving DecidableEq, Repr

def MarkQuestion.name : MarkQuestion → String
  | mark => "visit"
  | isMarked => "is_visited"
  | includes => "include_node"

inductive PairQuestion where
  | adjacent
  | mutuallyAdjacent
deriving DecidableEq, Repr

def PairQuestion.name : PairQuestion → String
  | adjacent => "is_adjacent"
  | mutuallyAdjacent => "is_mutually_adjacent"

/-- What may be asked of a session. -/
inductive Request where
  | makeGraph (name : String) (spec : GraphSpec)
  | makeFlag (name : String) (value : Identifier)
  | makeTally (name : String)
  | makeSeenSet (name : String) (nodes : List Identifier)
  | makeBitSet (name : String) (size : Identifier) (nodes : List Identifier) (index : IndexSpec)
  | makeView (name on : String) (filter : FilterSpec)
  | makeFilter (name : String) (filter : FilterSpec)
  | makeOracle (name on : String) (settings : Option (List (String × Identifier)))
  | makeMatrixOracle (name : String) (shape : List Identifier) (entries : Identifier) (index : IndexSpec)
  | makeVisitMap (name on : String)
  | makeAdjacency (name on : String)
  | openItems (name : String) (source : Identifier) (items : List Identifier) (filter : FilterSpec)
  | openNodes (name on : String)
  | openNeighbours (name on : String) (node : Identifier) (direction : Option Identifier)
  | openMarked (name on : String)
  | openEnumeration (name on : String) (run : RunSpec)
  | nodes (on : String)
  | neighbours (on : String) (node : Identifier) (direction : Option Identifier)
  | isDirected (on : String)
  | bound (on : String)
  | indexOf (on : String) (node : Identifier)
  | nodeAt (on : String) (index : Identifier)
  | resetMap (on map : String)
  | isAdjacentIn (on table : String) (a b : Identifier)
  | addLink (on : String) (u v : Identifier)
  | names (on : String)
  | describe (on : String)
  | rows (on : String)
  | edgeCount (on : String)
  | askPair (on : String) (question : PairQuestion) (u v : Identifier)
  | isAdjacentIndex (on : String) (i j : Identifier)
  | askMark (on : String) (question : MarkQuestion) (node : Identifier)
  | contains (on : String) (item : Identifier)
  | clear (on : String)
  | count (on : String)
  | size (on : String)
  | marked (on : String)
  | members (on : String)
  | next (on : String)
  | run (on : String) (run : RunSpec)
  | capabilities (on : String)
  | equal (on other : String)
  | trace (on : String)
  | readTally (on : String)
  | setDefaults (settings : List (String × Identifier))

structure RunReply where
  /-- The cliques handed over, unless there are none to hand over because of a fault. -/
  cliques : Option (List (List Identifier))
  fault : Option Fault
  counters : Tally
  /-- The number of polls, if there was a stop check. -/
  polls : Option Nat
  /-- The reports captured, if they were to be. -/
  captured : Option (List Report)

inductive Reply where
  | nothing
  | truth (value : Bool)
  | number (value : Int)
  | value (value : Identifier)
  | values (values : List Identifier)
  | text (value : String)
  | rows (rows : List (List Bool))
  | capabilities (roles : List Capability)
  | settings (settings : Settings)
  | counters (counters : Tally)
  /-- The kind of a filter. -/
  | filterKind (kind : String)
  /-- The kind of a filter, and whether it is the very thing that was given. -/
  | filterMade (kind : String) (isArgument : Bool)
  /-- The next item of a sequence, or that there is none. -/
  | item (item : Option Identifier)
  /-- The next clique of an enumeration, or that there is none. -/
  | clique (clique : Option (List Identifier))
  /-- The members of a set, in no particular order. -/
  | members (members : List Identifier)
  | run (run : RunReply)

end MaximalCliques
