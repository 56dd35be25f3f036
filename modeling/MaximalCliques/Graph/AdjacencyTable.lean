import MaximalCliques.Fault
import Std.Data.HashSet

/-!
# Tables of index pairs

* **`AdjacencyTable`** — a set of index pairs over the index space below `bound`.
* **`AdjacencyTable.holds?`** — the test for a pair that may lie outside the index space.
* **`AdjacencyTable.rows`** — the table written out, a row for each first index.
* **`AdjacencyTable.describe`** — its text, row by row, a row in lines of so many entries.  Of a long table
  only the outer rows and columns are written.
-/

namespace MaximalCliques

/-- A set of pairs of indices below `bound`. -/
structure AdjacencyTable where
  bound : Nat
  pairs : Std.HashSet (Nat × Nat)

namespace AdjacencyTable

def empty (bound : Nat) : AdjacencyTable := ⟨bound, ∅⟩

def holds (t : AdjacencyTable) (i j : Nat) : Bool := t.pairs.contains (i, j)

/-- Is the pair in the table?  A table has no place for a pair with an index from its bound on. -/
def holds? (t : AdjacencyTable) (i j : Nat) : Except Fault Bool :=
  if t.bound ≤ i then .error (.outsideTable i 0 t.bound)
  else if t.bound ≤ j then .error (.outsideTable j 1 t.bound)
  else .ok (t.holds i j)

def insert (t : AdjacencyTable) (i j : Nat) : AdjacencyTable :=
  { t with pairs := t.pairs.insert (i, j) }

def count (t : AdjacencyTable) : Nat := t.pairs.size

def rows (t : AdjacencyTable) : List (List Bool) :=
  (List.range t.bound).map fun i => (List.range t.bound).map fun j => t.holds i j

@[simp] theorem holds_empty (n i j : Nat) : (empty n).holds i j = false := by
  simp [empty, holds]

theorem holds_insert (t : AdjacencyTable) (i j k l : Nat) :
    (t.insert i j).holds k l = ((i, j) == (k, l) || t.holds k l) := by
  simp [insert, holds, Std.HashSet.contains_insert]

@[simp] theorem bound_insert (t : AdjacencyTable) (i j : Nat) : (t.insert i j).bound = t.bound := rfl

/-! ### The text of a table -/

def entriesInLine : Nat := 9

def greatestWhole : Nat := 1000

/-- The number of rows, and of columns, that are written at each end of a long table. -/
def outerCount : Nat := 3

/-- The words of which the outer ones are written if the table is long. -/
def outermost (isLong : Bool) (words : List String) : List String :=
  if isLong then words.take outerCount ++ ["..."] ++ words.drop (words.length - outerCount) else words

def newLine (column : Nat) : String := "\n" ++ String.ofList (List.replicate column ' ')

def rowText (isLong : Bool) (row : List Bool) : String :=
  let words := outermost isLong (row.map fun b => if b then " True" else "False")
  let parted := words.zipIdx.map fun (word, i) =>
    if i = 0 then word else if i % entriesInLine = 0 then "," ++ newLine 8 ++ word else ", " ++ word
  "[" ++ String.join parted ++ "]"

def describe (t : AdjacencyTable) : String :=
  let shape := s!"shape=({t.bound}, {t.bound})"
  if t.bound = 0 then "array([], " ++ shape ++ ", dtype=bool)"
  else
    let isLong := greatestWhole < t.bound * t.bound
    let rows := outermost isLong (t.rows.map (rowText isLong))
    let remark := if !isLong then "" else if shape.length < 18 then ", " ++ shape
      else "," ++ newLine 6 ++ shape
    "array([" ++ ("," ++ newLine 7).intercalate rows ++ "]" ++ remark ++ ")"

end AdjacencyTable

end MaximalCliques
