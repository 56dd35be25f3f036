import MaximalCliques.Fault
import MaximalCliques.Identifier.Order
import Std.Data.HashMap

/-!
# Tables keyed by identifiers, and numberings

A numbering lists identifiers and finds the place of an identifier in the list.

* **`Association`** — entries in the order in which their keys first came; a later value for a key
  replaces the earlier one and keeps the key's first spelling.
* **`Association.get?`** — the value of a key.
* **`Association.index`** — the index that a table gives a node.
* **`Numbering.ofNames`** — the numbering of a list; of equal names the last place counts.
* **`Numbering.place?`**, **`Numbering.name?`** — from names to places and back.
* **`Numbering.places`** — each name once, in its first spelling, with its place.
-/

namespace MaximalCliques

/-! ### Tables -/

/-- Values by identifier, one for each key. -/
structure Association (α : Type) where
  entries : List (Identifier × α) := []

namespace Association

variable {α : Type}

def put (t : Association α) (key : Identifier) (value : α) : Association α :=
  if t.entries.any (·.1 == key) then
    ⟨t.entries.map fun (k, v) => (k, if k == key then value else v)⟩
  else ⟨t.entries ++ [(key, value)]⟩

/-- The table of a list of entries, if all keys can be keys. -/
def ofList (entries : List (Identifier × α)) : Except Fault (Association α) :=
  entries.foldlM (fun t (key, value) => do
    key.requireKey
    return t.put key value) {}

def get? (t : Association α) (key : Identifier) : Except Fault (Option α) := do
  key.requireKey
  return (t.entries.find? (·.1 == key)).map (·.2)

def entry (t : Association α) (x : Identifier) : Except Fault α := do
  match ← t.get? x with
  | some value => return value
  | none => throw (Fault.unknownNode x).raised

/-- The index that a table gives a node.  Only a number is above or below others, and only an integer
is a position. -/
def index (t : Association Identifier) (x : Identifier) : Except Fault Int := do
  let i ← t.entry x
  match i.toInt? with
  | some n => return n
  | none =>
    let _ ← Comparison.notAbove.holds (.integer 0) i
    throw .notAPosition

end Association

/-! ### Numberings -/

/-- Names in index order, with the place of each. -/
structure Numbering where
  names : Array Identifier
  placeOf : Std.HashMap Identifier Nat

namespace Numbering

def ofNames (names : List Identifier) : Numbering where
  names := names.toArray
  placeOf := names.zipIdx.foldl (fun m (name, i) => m.insert name i) ∅

/-- Numbers the names in the order given, if all of them can be keys. -/
def ofNames? (names : List Identifier) : Except Fault Numbering := do
  names.forM Identifier.requireKey
  return ofNames names

def size (n : Numbering) : Nat := n.names.size

def place? (n : Numbering) (name : Identifier) : Option Nat := n.placeOf[name]?

def name? (n : Numbering) (i : Int) : Option Identifier :=
  if i < 0 then none else n.names[i.toNat]?

/-- Each name once, in its first spelling, with its place, in order of places. -/
def places (n : Numbering) : List (Identifier × Nat) :=
  let named := (Identifier.distinct n.names.toList).filterMap fun name =>
    (n.place? name).map fun i => (name, i)
  named.mergeSort fun a b => a.2 ≤ b.2

end Numbering

end MaximalCliques
