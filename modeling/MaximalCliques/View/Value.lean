import MaximalCliques.Graph.Block
import MaximalCliques.View.Thing
import MaximalCliques.View.World

/-!
# Things as values

* **`Thing.value?`** — the value that a thing is at the moment, if it is one.
* **`Thing.isTruthy`** — a thing read as an answer: what is empty means no, and a table is asked for its
  only entry.
* **`Thing.size`** — the number of items of a thing that has items.
* **`Thing.toBlock`** — a thing as a block of entries.
-/

namespace MaximalCliques

/-- The answer to a question that was put to several entries at once, of which there must be one. -/
def onlyAnswer : List Bool → Except Fault Bool
  | [] => .error .noAnswer
  | [answer] => .ok answer
  | _ => .error .severalAnswers

/-- The entry of a table that has a single one, read as an answer. -/
def AdjacencyTable.isTruthy (t : AdjacencyTable) : Except Fault Bool :=
  onlyAnswer t.rows.flatten

namespace Base

/-- The value that a base is at the moment, if it is one. -/
def value? (w : World) : Base → Option Identifier
  | value v => some v
  | trace place => some (.sequence (w.trace place))
  | mapping place => some (.mapping (w.mapping place))
  | _ => none

def isTruthy (w : World) : Base → Except Fault Bool
  | value v => .ok v.isTruthy
  | trace place => .ok !(w.traces.getD place #[]).isEmpty
  | mapping place => .ok !(w.mapping place).isEmpty
  | bits place => .ok ((w.bitSets[place]?).any (·.count != 0))
  | seen place => .ok ((w.seenSets[place]?).any (·.count != 0))
  | table _ t => t.isTruthy
  | _ => .ok true

def size (w : World) (base : Base) : Except Fault Nat :=
  match base, base.value? w with
  | bits place, _ => .ok (((w.bitSets[place]?).map (·.count)).getD 0)
  | seen place, _ => .ok (((w.seenSets[place]?).map (·.count)).getD 0)
  | table _ t, _ => .ok t.bound
  | base, some v => match v.items? with
    | some items => .ok items.length
    | none => .error (.withoutSize base.kindName)
  | base, none => .error (.withoutSize base.kindName)

end Base

namespace Thing

def value? (w : World) : Thing → Option Identifier
  | ⟨base, []⟩ => base.value? w
  | _ => none

def isTruthy (w : World) : Thing → Except Fault Bool
  | ⟨base, []⟩ => base.isTruthy w
  | _ => .ok true

def size (w : World) : Thing → Except Fault Nat
  | ⟨base, []⟩ => base.size w
  | thing => .error (.withoutSize thing.kindName)

/-- A thing as a block of entries; what is no value equals no entry. -/
def toBlock (w : World) : Thing → Except Fault Block
  | ⟨.table _ t, []⟩ => .ok t.toBlock
  | thing => ((thing.value? w).getD .absent).toBlock

end Thing

end MaximalCliques
