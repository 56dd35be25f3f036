import MaximalCliques.Graph.Access
import MaximalCliques.Graph.AdjacencyTable
import MaximalCliques.IndexSpace

/-!
# Adjacency oracles

An oracle tabulates by index which node lists which other as a neighbour, and answers questions about
nodes and indices.  The direction of a listing counts: nothing is made symmetric.

* **`Oracle.build`** — the oracle of a graph, within a limit on the index space.
* **`Oracle.ofEntries`** — the oracle of a matrix given entry by entry.
* **`Oracle.isAdjacent`**, **`Oracle.isMutuallyAdjacent`**, **`Oracle.isAdjacentIndex`** — questions.
-/

namespace MaximalCliques

/-- A table of index pairs with the numbering of its nodes. -/
structure Oracle where
  table : AdjacencyTable
  index : Identifier → Except Fault Int

namespace Oracle

/-! ### Questions -/

def bound (o : Oracle) : Nat := o.table.bound

def edgeCount (o : Oracle) : Nat := o.table.count

def checkIndex (o : Oracle) (i : Int) : Except Fault Nat :=
  if 0 ≤ i ∧ i < o.bound then .ok i.toNat else .error (Fault.indexOutOfRange (.integer i) o.bound).raised

def isAdjacentIndex (o : Oracle) (i j : Int) : Except Fault Bool := do
  let i ← o.checkIndex i
  let j ← o.checkIndex j
  return o.table.holds i j

/-- Is the edge from `u` to `v` in the table?  Both nodes are looked up before an index is checked. -/
def isAdjacent (o : Oracle) (u v : Identifier) : Except Fault Bool := do
  let i ← o.index u
  let j ← o.index v
  o.isAdjacentIndex i j

/-- Are the edges between `u` and `v` in the table both ways?  The index of `u` is checked before
`v` is looked up. -/
def isMutuallyAdjacent (o : Oracle) (u v : Identifier) : Except Fault Bool := do
  let i ← o.index u
  let i ← o.checkIndex i
  let j ← o.index v
  let j ← o.checkIndex j
  return o.table.holds i j && o.table.holds j i

/-- The answer for two indices given as values.  A truth value is no index but asks for all entries at
once or for none, and then there is no single answer. -/
def isAdjacentAt (o : Oracle) (i j : Identifier) : Except Fault Bool := do
  for x in [i, j] do
    if !(← x.isWithin o.bound) then throw (Fault.indexOutOfRange x o.bound).raised
  match i, j with
  | .integer i, .integer j => return o.table.holds i.toNat j.toNat
  | i, j =>
    if [i, j].any (·.toInt?.isNone) then throw .notAPosition
    else if [i, j].any (· matches .truth false) then throw .noAnswer
    else throw .severalAnswers

def describe (o : Oracle) : String :=
  s!"AdjacencyMatrix(node_bound={o.bound}, edges={o.edgeCount})"

/-! ### Building -/

variable {σ : Type}

/-- The index of a node that the graph has named, if it lies below the bound. -/
def indexWithin (g : Access σ) (bound : Nat) (x : Identifier) : Except Fault Nat := do
  let i ← g.index x
  if 0 ≤ i ∧ i < bound then return i.toNat else throw (Fault.nodeOutOfRange x i bound).raised

def enterNode (g : Access σ) (t : AdjacencyTable) (u : Identifier) : Query σ AdjacencyTable := do
  let i ← Query.ofExcept (indexWithin g t.bound u)
  let items ← g.neighbours u
  g.foldItems (fun t v => do
    let j ← Query.ofExcept (indexWithin g t.bound v)
    return t.insert i j) t items

/-- The oracle of a graph whose index space is no larger than the limit.  The table is copied when it is
complete. -/
def build (g : Access σ) (limit : Identifier) : Query σ Oracle := do
  let bound := .integer g.bound
  if ← Query.ofExcept (Comparison.above.holds bound limit) then
    throw (Fault.capacityExceeded bound limit).raised
  let bound ← Query.ofExcept (IndexSpace.forPairs g.machine.room g.bound)
  let table ← g.foldItems (enterNode g) (.empty bound) g.nodes
  Query.ofExcept (IndexSpace.forCopy g.machine.room bound)
  return { table, index := g.index }

/-- The table of a matrix written row by row, any number other than zero being an entry. -/
def tableOfEntries (n : Nat) (entries : List Int) : AdjacencyTable :=
  entries.zipIdx.foldl (fun t (entry, k) => if entry = 0 then t else t.insert (k / n) (k % n))
    (.empty n)

/-- The oracle of a matrix of the given shape, which must be square. -/
def ofEntries (shape : List Nat) (entries : List Int) (index : Identifier → Except Fault Int) :
    Except Fault Oracle :=
  match shape with
  | [m, n] =>
    if m = n then .ok { table := tableOfEntries n entries, index } else .error (.notSquare [m, n])
  | shape => .error (.notSquare shape)

end Oracle

end MaximalCliques
