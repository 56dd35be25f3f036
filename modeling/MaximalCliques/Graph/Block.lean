import MaximalCliques.Graph.AdjacencyTable
import MaximalCliques.Graph.NodeEntry
import MaximalCliques.IndexSpace

/-!
# Blocks of entries

A block holds entries along axes.  Two blocks are compared entry by entry, from their last axes on; an
axis of length one, or one that a block lacks, stands for as many places as the other block has there.

* **`Identifier.toBlock`** — a value as a block: a compound value has an axis for its items.
* **`AdjacencyTable.toBlock`** — a table as a block with two axes.
* **`Block.compare`** — which entries of two blocks are equal.
-/

namespace MaximalCliques

/-- Entries along axes, by their coordinates. -/
structure Block where
  shape : List Nat
  entry : List Nat → Identifier

namespace Block

def coordinates : List Nat → List (List Nat)
  | [] => [[]]
  | n :: ns => (List.range n).flatMap fun i => (coordinates ns).map (i :: ·)

def entries (b : Block) : List Identifier := (coordinates b.shape).map b.entry

/-- The shape that two blocks have in common, if there is one; all shapes start with the last axis. -/
def joint? : List Nat → List Nat → Option (List Nat)
  | [], ns => some ns
  | ms, [] => some ms
  | m :: ms, n :: ns =>
    if m = n ∨ n = 1 then (joint? ms ns).map (m :: ·)
    else if m = 1 then (joint? ms ns).map (n :: ·)
    else none

/-- The entry that stands at a place of a common shape. -/
def stretched (b : Block) (place : List Nat) : Identifier :=
  b.entry (List.zipWith (fun n i => if n = 1 then 0 else i) b.shape.reverse place.reverse).reverse

def isOther : Identifier → Bool
  | .absent | .mapping _ => true
  | .integer n => n < -largestIndex - 1 || 2 * largestIndex + 1 < n
  | _ => false

def isText : Identifier → Bool
  | .text _ => true
  | _ => false

/-- Are all entries read as texts?  So they are if some are texts and the others are numbers. -/
def isTextual (b : Block) : Bool := b.entries.any isText && !b.entries.any isOther

/-- Which entries of two blocks are equal, in order.  Entries read as texts equal no truth value. -/
def compare (a b : Block) : Except Fault (List Bool) :=
  match joint? a.shape.reverse b.shape.reverse with
  | none => .error (.unfitShapes a.shape b.shape)
  | some shape =>
    let textual := a.isTextual || b.isTextual
    .ok ((coordinates shape.reverse).map fun place =>
      !textual && a.stretched place == b.stretched place)

end Block

namespace Identifier

/-- The lengths that lists of lengths have in common at their beginning. -/
def commonLengths : List Nat → List Nat → List Nat
  | m :: ms, n :: ns => if m = n then m :: commonLengths ms ns else []
  | _, _ => []

mutual

/-- The lengths of a value along its axes as far as they are the same everywhere, and whether they
are throughout. -/
def lengths : Identifier → List Nat × Bool
  | tuple xs | sequence xs =>
    let (shared, isRegular) := (lengthsOfAll xs).getD ([], true)
    (xs.length :: shared, isRegular)
  | _ => ([], true)

def lengthsOfAll : List Identifier → Option (List Nat × Bool)
  | [] => none
  | x :: xs =>
    let (ms, isRegular) := lengths x
    match lengthsOfAll xs with
    | none => some (ms, isRegular)
    | some (ns, areRegular) => some (commonLengths ms ns, isRegular && areRegular && ms == ns)

end

def part (x : Identifier) : List Nat → Identifier
  | [] => x
  | i :: place => match x with
    | tuple xs | sequence xs => part (xs.getD i absent) place
    | _ => absent

/-- A value as a block; an integer that stands alone must have a position in memory. -/
def toBlock (x : Identifier) : Except Fault Block :=
  match x, x.lengths with
  | integer n, _ => if fitsWord n then .ok ⟨[], x.part⟩ else .error .wideEntry
  | _, (shape, true) => .ok ⟨shape, x.part⟩
  | _, (shape, false) => .error (.unevenItems shape)

end Identifier

def AdjacencyTable.toBlock (t : AdjacencyTable) : Block where
  shape := [t.bound, t.bound]
  entry
    | [i, j] => .truth (t.holds i j)
    | _ => .absent

namespace Block

example : joint? [3, 2] [3] = some [3, 2] ∧ joint? [1, 0] [4] = some [4, 0] ∧
    joint? [2, 2] [3] = none := by decide

example : Identifier.lengths (.tuple [.tuple [.absent], .tuple []]) = ([2], false) := by decide

end Block

end MaximalCliques
