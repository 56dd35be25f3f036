import MaximalCliques.Fault
import MaximalCliques.IndexSpace
import MaximalCliques.Marks.Indexing

/-!
# Sets of marks

A bit set remembers which indices of a fixed index space are marked; nodes are addressed through an
indexing.  A seen set holds the nodes themselves.

* **`BitSet.ofSize`**, **`BitSet.ofNodes`** — a set without marks, and one with the given nodes marked.
* **`BitSet.mark`** — marks a node and tells whether it was unmarked before.
* **`BitSet.isMarked`** — the test for a node.
* **`BitSet.marked`** — the marked indices, in ascending order.
* **`SeenSet`** — the nodes, each in its first spelling and in order of arrival.
* **`SeenSet.mark`** — adds a node and tells whether it was new.
* **`SeenSet.isMarked`** — the test for a node; a value that cannot be a key is refused.
-/

namespace MaximalCliques

/-! ### Bit sets -/

/-- The marked indices below `size`, in ascending order. -/
structure BitSet where
  size : Nat
  marked : List Nat := []
  indexing : Indexing

namespace BitSet

/-- Puts an index into an ascending list that does not hold it. -/
def insertAscending (i : Nat) : List Nat → List Nat
  | [] => [i]
  | j :: js => if i < j then i :: j :: js else j :: insertAscending i js

def ofSize (room : Nat) (size : Int) (indexing : Indexing) : Except Fault BitSet := do
  return { size := ← IndexSpace.forMarks room size, indexing }

/-- The index of a node, if it lies below the size. -/
def locate (b : BitSet) (x : Identifier) : Except Fault Nat := do
  let i ← b.indexing.index x
  if 0 ≤ i ∧ i < b.size then return i.toNat else throw (Fault.nodeOutOfRange x i b.size).raised

def isMarked (b : BitSet) (x : Identifier) : Except Fault Bool := do
  let i ← b.locate x
  return b.marked.contains i

/-- Marks a node; the answer tells whether it was unmarked before. -/
def mark (b : BitSet) (x : Identifier) : Except Fault (Bool × BitSet) := do
  let i ← b.locate x
  if b.marked.contains i then return (false, b)
  else return (true, { b with marked := insertAscending i b.marked })

def ofNodes (room : Nat) (size : Int) (indexing : Indexing) (nodes : List Identifier) :
    Except Fault BitSet := do
  let b ← ofSize room size indexing
  nodes.foldlM (fun b x => do return (← b.mark x).2) b

def clear (b : BitSet) : BitSet := { b with marked := [] }

def count (b : BitSet) : Nat := b.marked.length

def describe (b : BitSet) : String := s!"FixedBitSet(size={b.size}, set={b.count})"

theorem mem_insertAscending {i j : Nat} {js : List Nat} :
    i ∈ insertAscending j js ↔ i = j ∨ i ∈ js := by
  induction js with
  | nil => simp [insertAscending]
  | cons k ks ih =>
    unfold insertAscending
    split
    · simp
    · simp only [List.mem_cons, ih]
      constructor
      · rintro (h | h | h) <;> simp [h]
      · rintro (h | h | h) <;> simp [h]

end BitSet

/-! ### Seen sets -/

structure SeenSet where
  members : List Identifier := []

namespace SeenSet

def ofList (nodes : List Identifier) : Except Fault SeenSet := do
  nodes.forM Identifier.requireKey
  return ⟨Identifier.distinct nodes⟩

def isMarked (s : SeenSet) (x : Identifier) : Except Fault Bool := do
  x.requireKey
  return x.isIn s.members

/-- Adds a node; the answer tells whether it was new. -/
def mark (s : SeenSet) (x : Identifier) : Except Fault (Bool × SeenSet) := do
  x.requireKey
  if x.isIn s.members then return (false, s) else return (true, ⟨s.members ++ [x]⟩)

def clear (_ : SeenSet) : SeenSet := {}

def count (s : SeenSet) : Nat := s.members.length

def sameMembers (s t : SeenSet) : Bool :=
  s.count == t.count && s.members.all (·.isIn t.members)

def describe (s : SeenSet) : String := s!"HashSetVisitMap({s.count} nodes)"

end SeenSet

end MaximalCliques
