import MaximalCliques.Counters
import MaximalCliques.Identifier.Arithmetic

/-!
# Tallies

A tally holds counters as their owner has written them.  A counter keeps its spelling until something
is counted on it.

* **`Tally`** — three counters as values.
* **`Tally.ofList`** — the tally of the counters listed, the others being zero.
* **`Tally.counters`** — the counters as numbers to count on.
* **`Tally.plus`**, **`Tally.running`** — two tallies together, and one to which others are added.
* **`Tally.advance`** — a tally after a search.
* **`Tally.refusal?`** — why nothing can be counted on a tally, if its first counter is no number.
-/

namespace MaximalCliques

/-- Counters as values. -/
structure Tally where
  calls : Identifier := .integer 0
  branches : Identifier := .integer 0
  cliques : Identifier := .integer 0
deriving BEq, Repr

namespace Tally

def ofList : List Identifier → Except Fault Tally
  | [] => .ok {}
  | [calls] => .ok { calls }
  | [calls, branches] => .ok { calls, branches }
  | [calls, branches, cliques] => .ok { calls, branches, cliques }
  | values => .error (.argumentCount "SearchStats.__init__" 1 4 (values.length + 1))

def toList (t : Tally) : List Identifier := [t.calls, t.branches, t.cliques]

/-- A counter as an integer: a real loses its fraction. -/
def number : Identifier → Int
  | .real x => x.truncate?.getD 0
  | x => x.toInt?.getD 0

/-- The counters as numbers to count on. -/
def counters (t : Tally) : Counters := ⟨number t.calls, number t.branches, number t.cliques⟩

/-- Two tallies together. -/
def plus (t u : Tally) : Except Fault Tally := do
  return ⟨← t.calls.plus u.calls, ← t.branches.plus u.branches, ← t.cliques.plus u.cliques⟩

/-- What becomes of a total when tallies are added to it one after the other: for each, the total
before, the tally and the total after. -/
def running (total : Tally) : List (List Identifier) → Except Fault (List (Tally × Tally × Tally))
  | [] => .ok []
  | values :: rest => do
    let other ← ofList values
    let next ← total.plus other
    return (total, other, next) :: (← running next rest)

/-- A counter on which so much has been counted, if something was. -/
def advanceOne (x : Identifier) (change : Int) : Identifier :=
  if change = 0 then x else (x.plus (.integer change)).toOption.getD x

/-- The tally after a search that has counted from some numbers to others. -/
def advance (t : Tally) (first last : Counters) : Tally :=
  ⟨advanceOne t.calls (last.calls - first.calls), advanceOne t.branches (last.branches - first.branches),
    advanceOne t.cliques (last.cliques - first.cliques)⟩

/-- Why a search cannot count on a tally whose first counter is no number. -/
def refusal? (t : Tally) : Option Fault :=
  match t.calls with
  | .text _ | .tuple _ => some (.notContinued t.calls.kindName)
  | .sequence _ => some (.withoutItems "int")
  | x => if x.isNumber then none else some (.noSum x.kindName "int")

def describe (t : Tally) : String :=
  "SearchStats(calls=" ++ t.calls.literal ++ ", branches=" ++ t.branches.literal ++ ", cliques=" ++
    t.cliques.literal ++ ")"

end Tally

end MaximalCliques
