import MaximalCliques.Session.Request

/-!
# Making graphs and filters

* **`GraphSpec.make`** — the graph that a description describes.
* **`FilterSpec.make`** — the filter, and whether it is the very thing that was given.
* **`IndexSpec.make`** — the indexing.
-/

namespace MaximalCliques

def Base.indexing (w : World) : Base → Indexing
  | .network place => .byNumbering (((w.networks[place]?).map (·.numbering)).getD (.ofNames []))
  | .tableGraph _ g => .byTable g.indices
  | base => .refused (.refusal base.fullKindName "to_index")

def Base.bound (w : World) : Base → Identifier
  | .network place => .integer (((w.networks[place]?).map (·.bound)).getD 0)
  | .tableGraph _ g => g.bound
  | _ => .integer 0

def Base.indexOf (w : World) (base : Base) (x : Identifier) : Except Fault Identifier :=
  match base with
  | .tableGraph _ g => g.indices.entry x
  | base => (base.indexing w).index x |>.map .integer

def Base.isDirected (w : World) : Base → Bool
  | .network place => ((w.networks[place]?).map (·.network.directed)).getD false
  | .tableGraph _ g => g.directed
  | _ => false

def Base.nodeAt (w : World) (i : Identifier) : Base → Except Fault Identifier
  | .network place => match w.networks[place]? with
    | some g => g.nodeAt i
    | none => .error (.unavailable "network")
  | .tableGraph _ g => g.nodeAt i
  | base => .error (.refusal base.fullKindName "from_index")

namespace GraphSpec

/-- The pairs of numbers below `size`, the smaller first, in lexicographic order. -/
def pairsBelow (size : Nat) : List (Int × Int) :=
  (List.range size).flatMap fun i =>
    (List.range (size - (i + 1))).map fun (k : Nat) => ((i : Int), (i + 1 + k : Int))

def count (size : Identifier) : Except Fault Nat :=
  match size.toInt? with
  | some n => .ok n.toNat
  | none => .error (.notAnInteger size.kindName)

/-- The whole numbers that a pair consists of. -/
def numbers? : Identifier → Option (Int × Int)
  | .tuple [i, j] => do return (← i.wholeValue?, ← j.wholeValue?)
  | _ => none

def place (g : Network) : Action Thing := do
  let place := (← get).world.networks.size
  Action.modifyWorld fun w => { w with networks := w.networks.push (.ofNetwork g) }
  return { base := .network place }

def make : GraphSpec → Action Thing
  | edges directed nodes es => do
    let es ← Action.ofExcept (es.mapM Identifier.pair)
    place (← Action.ofExcept (Network.ofEdges directed nodes es))
  | network directed parallel nodes links => do
    let g ← Action.ofExcept (Network.ofNodes directed parallel nodes)
    place (← Action.ofExcept (g.addLinks links))
  | complete size skip => do
    skip.forM fun pair => Action.ofExcept pair.requireKey
    let size ← Action.ofExcept (count size)
    let skip := skip.filterMap numbers?
    let pairs := (pairsBelow size).filter (!skip.contains ·)
    let nodes := (List.range size).map fun (i : Nat) => Identifier.integer i
    place (← Action.ofExcept (Network.ofEdges false nodes
      (pairs.map fun (i, j) => (.integer i, .integer j))))
  | tables nodes bound indices outgoing incoming directed => do
    let indices ← Action.ofExcept (Association.ofList indices)
    let outgoing ← Action.ofExcept (Association.ofList outgoing)
    let incoming ← Action.ofExcept (Association.ofList incoming)
    let serial ← Action.freshSerial
    return { base := .tableGraph serial { nodes, bound, indices, outgoing, incoming, directed } }
  | value v => throw (.notANetwork v.kindName)

end GraphSpec

namespace FilterSpec

/-- What a rule writes to under a name: what the name stands for, or else a new trace of that name. -/
def notebook (name : String) : Action Notebook := do
  match (← get).thing? name with
  | some ⟨.trace place, []⟩ => return .trace place
  | some thing => return .unfit thing.fullKindName
  | none => do
    let place ← Action.newTrace []
    Action.bindBase name (.trace place)
    return .trace place

/-- The filter that a thing is or serves as, and whether it is one itself. -/
def ofThing : Thing → Except Fault (Filter × Bool)
  | ⟨base, f :: fs⟩ => .ok (.view base f fs, true)
  | ⟨.filter f, []⟩ => .ok (f, true)
  | ⟨.seen place, []⟩ => .ok (.seen place, true)
  | ⟨.bits place, []⟩ => .ok (.bits place, false)
  | thing => .error (.notAFilter thing.kindName)

/-- The filter that is described, and whether it is the very thing that was given. -/
def make : FilterSpec → Action (Filter × Bool)
  | members nodes => do return (.members (← Action.ofExcept (SeenSet.ofList nodes)), false)
  | named name => do Action.ofExcept (ofThing (← Action.find name))
  | rule r => do
    let notebooks ← r.traces.mapM notebook
    return (.rule (← Action.freshSerial) r notebooks, false)
  | custom r => do
    let notebooks ← r.traces.mapM notebook
    return (.custom (← Action.freshSerial) r notebooks, true)
  | value v => throw (.notAFilter v.kindName)

end FilterSpec

def IndexSpec.make : IndexSpec → Action Indexing
  | byValue => return .byValue
  | ofGraph name => do
    let g ← Action.findView name "to_index"
    return g.base.indexing (← get).world
  | table entries => do return .byTable (← Action.ofExcept (Association.ofList entries))

end MaximalCliques
