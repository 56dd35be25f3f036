import MaximalCliques.Graph.AdjacencyTable
import MaximalCliques.View.Value

/-!
# The text of a thing

* **`Filter.describe`** — a one-line description of a filter.
* **`Thing.describe`** — a one-line description of a thing; that of a view names what it is over and its
  filter.
-/

namespace MaximalCliques

def describeAt {α : Type} (describe : α → String) (name : String) : Option α → Except Fault String
  | some a => .ok (describe a)
  | none => .error (.unavailable name)

/-- A one-line description of a view, given those of what it is over and of its filter. -/
def describeView (base filter : String) : String :=
  "Filtered(base=" ++ base ++ ", node_filter=" ++ filter ++ ")"

mutual

def Base.describe (w : World) : Base → Except Fault String
  | .network place => describeAt IndexedNetwork.describe "network" w.networks[place]?
  | .filter f => f.describe w
  | .bits place => describeAt BitSet.describe "bit set" w.bitSets[place]?
  | .seen place => describeAt SeenSet.describe "seen set" w.seenSets[place]?
  | .oracle _ o => .ok o.describe
  | .table _ t => .ok t.describe
  | .tally place => .ok (w.tally place).describe
  | .value v => .ok v.literal
  | .trace place => .ok (Identifier.sequence (w.trace place)).literal
  | .mapping place => .ok (Identifier.mapping (w.mapping place)).literal
  | .tableGraph .. => .error (.unavailable "table graph")
  | .sequence _ kind => .error (.unavailable kind)
  | .enumeration _ => .error (.unavailable "enumeration")
termination_by structural base => base

def Filter.describe (w : World) : Filter → Except Fault String
  | .bits place => describeAt (fun b => "BitSetFilter(bits=" ++ BitSet.describe b ++ ")") "bit set"
      w.bitSets[place]?
  | .seen place => describeAt SeenSet.describe "seen set" w.seenSets[place]?
  | .view base outer inner => do
    let wrapped ← Filter.describeOver w (base.describe w) inner
    return describeView wrapped (← outer.describe w)
  | .rule .. | .custom .. | .members _ => .error (.unavailable "filter")
termination_by structural f => f

/-- A one-line description of a base under filters, given that of the base. -/
def Filter.describeOver (w : World) (base : Except Fault String) : List Filter → Except Fault String
  | [] => base
  | f :: inner => do
    let wrapped ← Filter.describeOver w base inner
    return describeView wrapped (← f.describe w)
termination_by structural filters => filters

end

def Thing.describe (w : World) (thing : Thing) : Except Fault String :=
  Filter.describeOver w (thing.base.describe w) thing.filters

/-- The description of a view names what it is over and its outermost filter. -/
theorem Thing.describe_view (w : World) (b : Base) (f : Filter) (fs : List Filter) :
    Thing.describe w ⟨b, f :: fs⟩ = do
      let wrapped ← Thing.describe w ⟨b, fs⟩
      return describeView wrapped (← f.describe w) := rfl

end MaximalCliques
