import MaximalCliques.Graph.IndexedNetwork
import MaximalCliques.Marks.Sets
import MaximalCliques.Tally

/-!
# Things that may change while they are looked at

* **`World`** — networks, bit sets, seen sets, traces, mappings and counters by their places.
* **`World.note`** — writes a node to a trace.
* **`World.trace`**, **`World.mapping`**, **`World.tally`** — what is at a place.
-/

namespace MaximalCliques

/-- The things that are referred to by place. -/
structure World where
  networks : Array IndexedNetwork := #[]
  bitSets : Array BitSet := #[]
  seenSets : Array SeenSet := #[]
  /-- Nodes in the order in which they were noted, or the items of a sequence given as a value. -/
  traces : Array (Array Identifier) := #[]
  /-- The entries of mappings given as values. -/
  mappings : Array (List (String × Identifier)) := #[]
  tallies : Array Tally := #[]
  /-- The machine that all this is on. -/
  machine : Machine := {}

namespace World

def note (w : World) (place : Nat) (x : Identifier) : World :=
  { w with traces := w.traces.modify place (·.push x) }

def trace (w : World) (place : Nat) : List Identifier := (w.traces.getD place #[]).toList

def mapping (w : World) (place : Nat) : List (String × Identifier) := w.mappings.getD place []

def tally (w : World) (place : Nat) : Tally := w.tallies.getD place {}

theorem trace_note {w : World} {place : Nat} (h : place < w.traces.size) (x : Identifier) :
    (w.note place x).trace place = w.trace place ++ [x] := by
  simp [note, trace, h, Array.getElem_modify]

end World

end MaximalCliques
