import MaximalCliques.Graph.Direction
import MaximalCliques.IndexSpace

/-!
# What an algorithm may ask of a graph

Asking may fail and may change a state `σ`: the tests of a filtered graph can be watched.  Items come
one at a time and are tested when they are reached.

* **`Query`** — a question with an answer or a fault; changes made before a fault stay.
* **`Access`** — the questions that an enumeration asks.
* **`Access.foldItems`** — goes through items, skipping those that the graph does not admit.
* **`Access.restrict`** — the graph seen through one more test.
* **`pull`** — the next admitted item of a sequence that is held open, and the items after it.
-/

namespace MaximalCliques

/-- A question that is answered or refused, in the presence of a state. -/
abbrev Query (σ : Type) := ExceptT Fault (StateM σ)

def Query.ofExcept {σ α : Type} (answer : Except Fault α) : Query σ α := ExceptT.mk (pure answer)

/-- The questions that an enumeration asks of a graph. -/
structure Access (σ : Type) where
  /-- The size of the index space. -/
  bound : Int
  /-- The index of a node. -/
  index : Identifier → Except Fault Int
  /-- The items of the node sequence, before they are tested. -/
  nodes : List Identifier
  /-- The items of a node's neighbour sequence, before they are tested: in one direction, or the way
  the graph's edges lead by themselves. -/
  follow : Option Direction → Identifier → Query σ (List Identifier)
  /-- The test of an item that has been reached. -/
  admits : Identifier → Query σ Bool
  /-- The machine that the questions are asked on. -/
  machine : Machine

namespace Access

variable {σ : Type}

/-- The items of a node's neighbour sequence the way the edges lead, before they are tested. -/
def neighbours (g : Access σ) (x : Identifier) : Query σ (List Identifier) := g.follow none x

/-- Goes through the items in order; an item that is not admitted changes nothing. -/
def foldItems {τ : Type} (g : Access σ) (f : τ → Identifier → Query σ τ) (init : τ)
    (items : List Identifier) : Query σ τ :=
  items.foldlM (fun t x => do if ← g.admits x then f t x else pure t) init

def admitted (g : Access σ) (items : List Identifier) : Query σ (List Identifier) :=
  g.foldItems (fun kept x => pure (kept ++ [x])) [] items

/-- The graph seen through one more test.  An item is tested after the graph's own tests and only if
those admit it; a node whose neighbours are asked for is tested first, and if it fails, it has none. -/
def restrict (test : Identifier → Query σ Bool) (g : Access σ) : Access σ where
  bound := g.bound
  index := g.index
  nodes := g.nodes
  follow d x := do
    let included ← test x
    let items ← g.follow d x
    return if included then items else []
  admits x := do if ← g.admits x then test x else pure false
  machine := g.machine

end Access

/-! ### Sequences held open -/

/-- The next item that is admitted, or that there is none, and the items after it.  Items are tested
in order when they are reached; an item whose test fails with a fault is lost, the rest is not. -/
def pull {σ : Type} (admits : Identifier → Query σ Bool) :
    List Identifier → StateM σ (Except Fault (Option Identifier) × List Identifier)
  | [] => pure (.ok none, [])
  | x :: rest => do
    match ← (admits x).run with
    | .error e => pure (.error e, rest)
    | .ok true => pure (.ok (some x), rest)
    | .ok false => pull admits rest

end MaximalCliques
