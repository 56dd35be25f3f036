import MaximalCliques.Identifier.Order

/-!
# Index spaces, and the machine that holds them

An index space is the numbers below a bound.  Positions in memory, and the room that the machine has, limit
how large a space may be whose indices are marked, and how large one whose pairs of indices are tabulated.

* **`Machine`** — what the machine decides: how much room there is, and how a set of nodes is gone through.
* **`IndexSpace.forMarks`** — the size of a space whose indices can be marked.
* **`IndexSpace.forPairs`**, **`IndexSpace.forCopy`** — the size of a space whose pairs can be tabulated, and
  the room for a second table beside the first one.
* **`IndexSpace.sizeOf`**, **`IndexSpace.lengthOf`** — a value read as a number of marks, and as a length
  of a table.
-/

namespace MaximalCliques

/-- May one node stand before another in a set?  Whole numbers come first, by value; the other nodes keep
the order in which they have been put in. -/
def Identifier.mayPrecede (x y : Identifier) : Bool :=
  match x.wholeValue?, y.wholeValue? with
  | some m, some n => m ≤ n
  | none, some _ => false
  | _, none => true

/-- What the program leaves to the machine that it runs on. -/
structure Machine where
  /-- How many bytes the tables that are made together may take: one for a mark or for a pair. -/
  room : Nat := 34359738368
  /-- May one node stand before another where a set of nodes is gone through?  Only nodes that share an
  index are taken in this order. -/
  precedes : Identifier → Identifier → Bool := Identifier.mayPrecede

/-- The largest index that a position in memory can have. -/
def largestIndex : Int := 9223372036854775807

/-- Has a position in memory room for a number? -/
def fitsWord (n : Int) : Bool := -largestIndex - 1 ≤ n && n ≤ largestIndex

namespace IndexSpace

/-- The size of a space whose indices can be marked. -/
def forMarks (room : Nat) (size : Int) : Except Fault Nat :=
  if size < 0 then .error (Fault.negativeSize (.integer size)).raised
  else if largestIndex < size then .error .tooManyMarks
  else if room < size then .error (.outOfMemory [size.toNat])
  else .ok size.toNat

/-- The size of a space whose pairs can be tabulated. -/
def forPairs (room : Nat) (bound : Int) : Except Fault Nat :=
  if !fitsWord bound then .error .tooManyMarks
  else if bound < 0 then .error .negativeBound
  else if largestIndex < bound * bound then .error .tooManyPairs
  else if room < bound * bound then .error (.outOfMemory [bound.toNat, bound.toNat])
  else .ok bound.toNat

/-- Makes room for a copy of a table of pairs, which stays where it is. -/
def forCopy (room bound : Nat) : Except Fault Unit :=
  if room < 2 * (bound * bound) then .error (.outOfMemory [bound, bound]) else .ok ()

def sizeOf (size : Identifier) : Except Fault Int := do
  if ← Comparison.below.holds size (.integer 0) then throw (Fault.negativeSize size).raised
  match size with
  | .integer n => return n
  | size => throw (Fault.notASize size).raised

def lengthOf : Identifier → Except Fault Int
  | .integer n => .ok n
  | .truth _ => .error .truthAsLength
  | x => .error (.notAnInteger x.kindName)

/-- Why no pairs can be tabulated below a bound within a limit, if the bound is no integer. -/
def refusal? (bound limit : Identifier) : Option Fault :=
  match bound with
  | .integer _ => none
  | bound => match Comparison.above.holds bound limit, lengthOf bound with
    | .error e, _ => some e
    | .ok true, _ => some (Fault.capacityExceeded bound limit).raised
    | .ok false, .error e => some e
    | .ok false, .ok _ => none

theorem forMarks_natCast {room n : Nat} (hindex : (n : Int) ≤ largestIndex) (hroom : n ≤ room) :
    forMarks room n = .ok n := by
  have h0 : ¬ (n : Int) < 0 := by omega
  have h1 : ¬ largestIndex < (n : Int) := by omega
  have h2 : ¬ (room : Int) < (n : Int) := by omega
  simp [forMarks, h0, h1, h2]

end IndexSpace

end MaximalCliques
