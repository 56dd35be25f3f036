import MaximalCliques.Graph.Block
import MaximalCliques.Marks.Indexing

/-!
# Shapes

A shape lists the lengths of an array along its axes.  Where entries are put into a shape, one length
may be left open by a negative number; the number of entries then decides it.

* **`Shape.known`** — the number of places that the lengths given make, and whether one is left open.
* **`Shape.fit`** — the shape that so many entries take.
* **`Shape.ofEntries`** — entries given as values, in the shape that is asked for.
-/

namespace MaximalCliques.Shape

/-- The largest number of lengths that a shape may have. -/
def greatestCount : Nat := 64

def entryWidth : Nat := 8

/-- The number of places that the lengths given make, and whether one is left open, continued from
such a number and such an answer; `refusal` is the fault of a number without a position in memory. -/
def known (refusal : Fault) : Nat × Bool → List Int → Except Fault (Nat × Bool)
  | state, [] => .ok state
  | (places, isOpen), n :: ns =>
    if n < 0 then if isOpen then .error .openLengths else known refusal (places, true) ns
    else if largestIndex < places * n then .error refusal
    else known refusal (places * n.toNat, isOpen) ns

/-- The length left open, if there is one, that makes room for a number of entries: they must fill the
shape. -/
def missing? (entries places : Nat) (isOpen : Bool) : Option Nat :=
  if isOpen then if places ≠ 0 ∧ entries % places = 0 then some (entries / places) else none
  else if places = entries then some 0
  else none

/-- The shape that so many entries take. -/
def fit (entries : Nat) (asked : List Int) : Except Fault (List Nat) := do
  if greatestCount < asked.length then throw (.tooManyLengths asked.length)
  if !asked.all fitsWord then throw .tooManyMarks
  let refusal := .wrongEntries entries asked
  let (places, isOpen) ← known refusal (1, false) asked
  match missing? entries places isOpen with
  | none => throw refusal
  | some missing =>
    let shape := asked.map fun n => if n < 0 then missing else n.toNat
    if largestIndex < (shape.filter (· != 0)).foldl (· * ·) entryWidth then throw .tooManyPairs
    return shape

/-- A value read as an entry: a real loses its fraction, and a text is read as a numeral. -/
def entryOf (x : Identifier) : Except Fault Int := do
  let n ← match x with
    | .truth _ | .integer _ | .text _ => match Indexing.ofIdentifier x with
      | .ok n => pure n
      | .error _ => throw (.notANumeral x)
    | .real r => match r.truncate? with
      | some n => pure n
      | none => throw .infiniteIndex
    | .undefined _ => throw .undefinedInteger
    | x => throw (.notAnEntry x.kindName)
  if fitsWord n then return n else throw .wideEntry

def ofEntries (entries : Identifier) (asked : List Identifier) : Except Fault (List Nat × List Int) := do
  let entries ← (← entries.toBlock).entries.mapM entryOf
  if greatestCount < asked.length then throw (.tooManyLengths asked.length)
  let asked ← asked.mapM IndexSpace.lengthOf
  return (← fit entries.length asked, entries)

example : [[2, 3], [2, -1], [-7, 1, 6]].map (fun asked => (fit 6 asked).toOption) =
    [some [2, 3], some [2, 3], some [1, 1, 6]] := by
  decide +kernel

example : [[4], [-1, 4], [-1, -1], [0, -1]].map (fun asked => (fit 6 asked).toOption) =
    [none, none, none, none] := by
  decide +kernel

end MaximalCliques.Shape
