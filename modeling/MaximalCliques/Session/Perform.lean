import MaximalCliques.Graph.Shape
import MaximalCliques.Session.Delivery
import MaximalCliques.View.Equality
import MaximalCliques.View.Text

/-!
# Performing requests

* **`Action.perform`** — what a session does and answers when something is asked of it.
* **`Session.performAll`** — the answers to a list of requests, one after the other; a request that is
  refused does not end the session.
-/

namespace MaximalCliques

/-- The refusal to look up a pair of indices in a thing that is no table. -/
def Thing.refusePair (w : World) (thing : Thing) (i j : Int) : Fault :=
  match thing.value? w with
  | some (.mapping _) => .withoutEntry (.tuple [.integer i, .integer j])
  | some v => if v.items?.isSome then .notAPlace v.kindName "tuple" else .withoutPlaces v.kindName
  | none => .withoutPlaces thing.kindName

namespace Action

def accessTo (g : Thing) : Action (Access World) := do return g.access (← get).world

/-- The items of a neighbour sequence that the graph admits or, where it is held open, may admit. -/
def followFrom (g : Thing) (node : Identifier) (direction : Option Identifier) :
    Action (List Identifier) := do
  inWorld ((← accessTo g).follow (direction.map Direction.requested) node)

def neighbourOperation (direction : Option Identifier) : String :=
  if direction.isNone then "neighbors" else "neighbors_directed"

def admittedOf (g : Thing) (items : List Identifier) : Action (List Identifier) := do
  inWorld ((← accessTo g).admitted items)

/-- Names a sequence that is held open; one that filters test is of a kind of its own. -/
def bindSequence (name kind : String) (sequence : OpenSequence) : Action Unit := do
  let place := (← get).sequences.size
  modify fun s => { s with sequences := s.sequences.push sequence }
  bindBase name (.sequence place (if sequence.filters.isEmpty then kind else "FilteredNeighbors"))

/-- The neighbour sequence of a node, held open.  Those of a network are watched, unless the node is
not admitted. -/
def openFrom (g : Thing) (node : Identifier) (direction : Option Direction) :
    Action OpenSequence := do
  let included ← inWorld (Filter.testSource g.filters node)
  let items ← inWorld ((g.base.access (← get).world).follow direction node)
  let watch := match g.base with
    | .network network => some { network, direction, node, size := items.length }
    | _ => none
  return {
    items := if included then items else []
    filters := g.filters
    watch := if included then watch else none }

def neighbourKind : Base → String
  | .network _ => "dict_keyiterator"
  | _ => "list_iterator"

def clearMarks (name : String) : Action Unit := do
  match ← find name with
  | ⟨.bits place, []⟩ => do storeBitSet place (← bitSetAt place).clear
  | ⟨.seen place, []⟩ => do storeSeenSet place (← seenSetAt place).clear
  | ⟨.trace place, []⟩ => storeTrace place []
  | ⟨.mapping place, []⟩ => storeMapping place []
  | thing => refuse thing "clear"

def askMark (name : String) (question : MarkQuestion) (x : Identifier) : Action Reply := do
  match question, ← find name with
  | .mark, ⟨.bits place, []⟩ => do
    let (isNew, b) ← ofExcept ((← bitSetAt place).mark x)
    storeBitSet place b
    return .truth isNew
  | .mark, ⟨.seen place, []⟩ => do
    let (isNew, t) ← ofExcept ((← seenSetAt place).mark x)
    storeSeenSet place t
    return .truth isNew
  | .isMarked, ⟨.bits place, []⟩ => do return .truth (← ofExcept ((← bitSetAt place).isMarked x))
  | _, ⟨.seen place, []⟩ => do return .truth (← ofExcept ((← seenSetAt place).isMarked x))
  | .includes, ⟨.filter f, []⟩ => do return .value (← inWorld (f.answer x))
  | .includes, ⟨_, f :: _⟩ => do return .value (← inWorld (f.answer x))
  | question, thing => refuse thing question.name

def perform : Request → Action Reply
  -- making things
  | .makeGraph name spec => do
    bind name (← spec.make)
    return .nothing
  | .makeFlag name value => do
    match value with
    | .sequence items => bindBase name (.trace (← newTrace items))
    | .mapping entries => bindBase name (.mapping (← newMapping entries))
    | value => bindBase name (.value value)
    return .nothing
  | .makeTally name => do
    bindBase name (.tally (← newTally {}))
    return .nothing
  | .makeSeenSet name nodes => do
    bindBase name (.seen (← newSeenSet (← ofExcept (SeenSet.ofList nodes))))
    return .nothing
  | .makeBitSet name size nodes index => do
    let indexing ← index.make
    let room := (← get).world.machine.room
    let b ← ofExcept (BitSet.ofNodes room (← ofExcept (IndexSpace.sizeOf size)) indexing nodes)
    bindBase name (.bits (← newBitSet b))
    return .nothing
  | .makeView name on filter => do
    let g ← find on
    let (f, _) ← filter.make
    bind name { g with filters := f :: g.filters }
    return .filterKind f.kindName
  | .makeFilter name filter => do
    let (f, isArgument) ← filter.make
    bind name f.toThing
    return .filterMade f.kindName isArgument
  | .makeOracle name on settings => do
    let _ ← find on
    let settings ← match settings with
      | some given => ofExcept (Settings.ofList given)
      | none => pure (← get).defaults
    let g ← findGraph on "node_bound"
    let limit ← ofExcept settings.capacity
    if let some e := g.base.refusalWith? settings then throw e
    let oracle ← inWorld (Oracle.build (← accessTo g) limit)
    bindBase name (.oracle (← freshSerial) oracle)
    return .nothing
  | .makeMatrixOracle name shape entries index => do
    let (shape, entries) ← ofExcept (Shape.ofEntries entries shape)
    let indexing ← index.make
    let oracle ← ofExcept (Oracle.ofEntries shape entries indexing.index)
    bindBase name (.oracle (← freshSerial) oracle)
    return .nothing
  | .makeVisitMap name on => do
    let g ← findGraph on "visit_map"
    let w := (← get).world
    let size ← ofExcept (IndexSpace.sizeOf (g.base.bound w))
    let b ← ofExcept (BitSet.ofSize w.machine.room size (g.base.indexing w))
    bindBase name (.bits (← newBitSet b))
    return .nothing
  | .makeAdjacency name on => do
    let (_, g) ← findNetwork on "adjacency_matrix"
    let table ← ofExcept g.adjacency
    bindBase name (.table (← freshSerial) table)
    return .rows table.rows
  | .openItems name source items filter => do
    let (f, _) ← filter.make
    let items := if source.isTruthy then items else []
    bindSequence name "FilteredNeighbors" { items, filters := [f] }
    return .nothing
  | .openNodes name on => do
    let g ← findGraph on "node_identifiers"
    bindSequence name "list_iterator" { items := (← accessTo g).nodes, filters := g.filters }
    return .nothing
  | .openNeighbours name on node direction => do
    let g ← findView on (neighbourOperation direction)
    bindSequence name (neighbourKind g.base) (← openFrom g node (direction.map Direction.requested))
    return .nothing
  | .openMarked name on => do
    match ← find on with
    | ⟨.bits place, []⟩ => do
      let b ← bitSetAt place
      bindSequence name "generator" { items := b.marked.map fun (i : Nat) => .integer i }
      return .nothing
    | thing => refuse thing "ones"
  | .openEnumeration name on run => do
    run.hold name (← find on)
    return .nothing
  -- graphs
  | .nodes on => do
    let g ← findGraph on "node_identifiers"
    return .values (← admittedOf g (← accessTo g).nodes)
  | .neighbours on node direction => do
    let g ← findView on (neighbourOperation direction)
    return .values (← admittedOf g (← followFrom g node direction))
  | .isDirected on => do return .truth ((← findGraph on "is_directed").base.isDirected (← get).world)
  | .bound on => do
    match ← find on with
    | ⟨.oracle _ o, []⟩ => return .number o.bound
    | _ => do return .value ((← findGraph on "node_bound").base.bound (← get).world)
  | .indexOf on node => do
    let g ← findGraph on "to_index"
    return .value (← ofExcept (g.base.indexOf (← get).world node))
  | .nodeAt on index => do
    let g ← findGraph on "from_index"
    return .value (← ofExcept (g.base.nodeAt (← get).world index))
  | .resetMap on map => do
    let g ← findView on "reset_map"
    let _ ← find map
    if let some e := g.base.refusal? "reset_map" then throw e
    clearMarks map
    return .nothing
  | .isAdjacentIn on table a b => do
    if let ⟨.oracle .., []⟩ := ← find on then let _ ← find table
    let (_, g) ← findNetwork on "is_adjacent"
    match ← find table with
    | ⟨.table _ t, []⟩ => return .truth (← ofExcept (g.isAdjacentIn t a b))
    | thing => do
      let i ← ofExcept (g.index a)
      let j ← ofExcept (g.index b)
      throw (thing.refusePair (← get).world i j)
  | .addLink on u v => do
    let (place, g) ← findNetwork on "nx_graph"
    let (g, answer) := g.addLink u v
    modifyWorld fun w => { w with networks := w.networks.setIfInBounds place g }
    ofExcept answer
    return .nothing
  | .names on => do
    let (_, g) ← findNetwork on "node_map"
    return .values g.nodes
  | .describe on => do return .text (← ofExcept ((← find on).describe (← get).world))
  -- oracles
  | .rows on => do return .rows (← findOracle on "matrix").table.rows
  | .edgeCount on => do return .number (← findOracle on "edge_count").edgeCount
  | .askPair on question u v => do
    let o ← findOracle on question.name
    return .truth (← ofExcept (match question with
      | .adjacent => o.isAdjacent u v
      | .mutuallyAdjacent => o.isMutuallyAdjacent u v))
  | .isAdjacentIndex on i j => do
    let o ← findOracle on "is_adjacent_index"
    return .truth (← ofExcept (o.isAdjacentAt i j))
  -- marks and filters
  | .askMark on question node => askMark on question node
  | .contains on item => do return .truth (← contains (← find on) item)
  | .clear on => do
    clearMarks on
    return .nothing
  | .count on => do return .number (← ofExcept ((← find on).size (← get).world))
  | .size on => do
    match ← find on with
    | ⟨.bits place, []⟩ => do return .number (← bitSetAt place).size
    | ⟨.table _ t, []⟩ => return .number (t.bound * t.bound)
    | thing => refuse thing "size"
  | .marked on => do
    match ← find on with
    | ⟨.bits place, []⟩ => do
      return .values ((← bitSetAt place).marked.map fun (i : Nat) => .integer i)
    | thing => refuse thing "ones"
  | .members on => do
    return .members (← itemsOf (← find on))
  -- sequences and enumerations
  | .next on => do
    match ← find on with
    | ⟨.sequence place _, []⟩ => do return .item (← nextItem place)
    | ⟨.enumeration place, []⟩ => do return .clique (← HeldEnumeration.resume place)
    | thing => throw (.notDelivering thing.fullKindName)
  | .run on spec => do return .run (← spec.run (← find on)).1
  -- the rest
  | .capabilities on => do return .capabilities (← find on).capabilities
  | .equal on other => do
    let a ← find on
    let b ← find other
    return .truth (← ofExcept (a.equals (← get).world b))
  | .trace on => do return .values (← itemsOf (← find on))
  | .readTally on => do
    match ← find on with
    | ⟨.tally place, []⟩ => do return .counters ((← get).world.tally place)
    | thing => refuse thing "calls"
  | .setDefaults given => do
    let put (s : Settings) : String × Identifier → Settings := fun (name, v) => (s.put? name v).getD s
    modify fun s => { s with defaults := given.foldl put s.defaults }
    return .settings (← get).defaults

end Action

/-- The answers of a session to a list of requests.  One that could not be read is answered by why. -/
def Session.performAll (s : Session) : List (Except Fault Request) → List (Except Fault Reply)
  | [] => []
  | request :: rest =>
    let (answer, s) := (Action.ofExcept request >>= Action.perform).run s
    answer :: s.performAll rest

end MaximalCliques
