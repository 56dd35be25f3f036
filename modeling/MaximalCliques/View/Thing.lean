import MaximalCliques.Graph.Oracle
import MaximalCliques.Graph.TableGraph
import MaximalCliques.Identifier.Arithmetic
import MaximalCliques.Identifier.Order
import MaximalCliques.Marks.Sets

/-!
# Things, filters and views

Filters may be put over a graph and over anything else; a thing that is no graph then refuses whatever
only a graph answers.  What may change is referred to by its place.

* **`Rule`**, **`Rule.verdict`** — the rules that judge nodes, and the verdict of one, a value.
* **`Rule.traces`** — where a rule notes the nodes that it is asked about, before it judges.
* **`Base`** — what filters are put over in the end.
* **`Filter`** — the filters.
* **`Thing`** — a base under filters: a view, or without filters the base itself.
* **`Thing.kindName`** — the name of a thing's kind.
-/

namespace MaximalCliques

/-- A rule that judges nodes. -/
inductive Rule where
  | constant (verdict : Identifier)
  /-- The node is its own verdict. -/
  | itself
  | differsFrom (value : Identifier)
  | among (values : List Identifier)
  | lessThan (limit : Identifier)
  /-- The verdict is the node's residue. -/
  | residue (modulus : Identifier)
  /-- Notes the node under a name, then judges by the rule. -/
  | traced (trace : String) (rule : Rule)
deriving Repr

namespace Rule

/-- The names of the traces that a rule writes to, the outermost first. -/
def traces : Rule → List String
  | traced name rule => name :: rule.traces
  | _ => []

/-- The verdict of a rule without its notes. -/
def verdict (x : Identifier) : Rule → Except Fault Identifier
  | constant v => .ok v
  | itself => .ok x
  | differsFrom v => .ok (.truth !(x == v))
  | among vs => .ok (.truth (x.isIn vs))
  | lessThan limit => return .truth (← Comparison.below.holds x limit)
  | residue modulus => x.residue modulus
  | traced _ rule => rule.verdict x

end Rule

/-! ### Things -/

/-- What a rule notes nodes in. -/
inductive Notebook where
  | trace (place : Nat)
  /-- A thing of this kind, to which nothing can be added. -/
  | unfit (kind : String)

mutual

/-- What filters are put over in the end.  A serial number tells a thing from others that look alike. -/
inductive Base where
  | network (place : Nat)
  /-- A graph given by tables. -/
  | tableGraph (serial : Nat) (graph : TableGraph)
  /-- A filter that is no view and no set of marks. -/
  | filter (filter : Filter)
  | bits (place : Nat)
  | seen (place : Nat)
  | oracle (serial : Nat) (oracle : Oracle)
  | table (serial : Nat) (table : AdjacencyTable)
  | tally (place : Nat)
  /-- A value that does not change. -/
  | value (value : Identifier)
  | trace (place : Nat)
  | mapping (place : Nat)
  | sequence (place : Nat) (kind : String)
  | enumeration (place : Nat)

/-- A filter of nodes. -/
inductive Filter where
  /-- Accepts the nodes for which the rule's verdict is truthy. -/
  | rule (serial : Nat) (rule : Rule) (notebooks : List Notebook)
  /-- A filter of a user's own making, whose answer is the rule's verdict itself. -/
  | custom (serial : Nat) (rule : Rule) (notebooks : List Notebook)
  /-- Accepts the members of a set. -/
  | members (set : SeenSet)
  /-- Accepts the nodes marked in a bit set. -/
  | bits (place : Nat)
  /-- Accepts the nodes of a seen set. -/
  | seen (place : Nat)
  /-- Answers as the outermost filter of a view does. -/
  | view (base : Base) (outer : Filter) (inner : List Filter)

end

/-- A base under filters, the outermost first. -/
structure Thing where
  base : Base
  filters : List Filter := []

/-! ### Filters as things -/

def Filter.toThing : Filter → Thing
  | .view base f fs => ⟨base, f :: fs⟩
  | .seen place => ⟨.seen place, []⟩
  | f => ⟨.filter f, []⟩

/-! ### Kinds -/

def Filter.kindName : Filter → String
  | rule .. => "FnFilter"
  | custom .. => "Custom"
  | members _ => "HashSetFilter"
  | bits _ => "BitSetFilter"
  | seen _ => "HashSetVisitMap"
  | view .. => "Filtered"

namespace Base

def kindName : Base → String
  | network _ => "NxGraph"
  | tableGraph .. => "RawGraph"
  | filter f => f.kindName
  | bits _ => "FixedBitSet"
  | seen _ => "HashSetVisitMap"
  | oracle .. => "AdjacencyMatrix"
  | table .. => "ndarray"
  | tally _ => "SearchStats"
  | value v => v.kindName
  | trace _ => "list"
  | mapping _ => "dict"
  | sequence _ kind => kind
  | enumeration _ => "generator"

/-- The name of the kind of a base, with that of the place that the kind is from. -/
def fullKindName : Base → String
  | table .. => "numpy.ndarray"
  | base => base.kindName

/-- The refusal of an operation of graphs by a base that is no graph. -/
def refusal? (operation : String) : Base → Option Fault
  | network _ | tableGraph .. => none
  | base => some (.refusal base.fullKindName operation)

end Base

namespace Thing

def kindName : Thing → String
  | ⟨_, _ :: _⟩ => "Filtered"
  | ⟨base, []⟩ => base.kindName

/-- The name of a thing's kind, with that of the place that the kind is from. -/
def fullKindName : Thing → String
  | ⟨_, _ :: _⟩ => "Filtered"
  | ⟨base, []⟩ => base.fullKindName

end Thing

end MaximalCliques
