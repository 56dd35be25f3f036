import MaximalCliques.Graph.Association
import MaximalCliques.Text.Numeral

/-!
# Ways to index identifiers

* **`Indexing`** — by a numbering, by a table, by reading the identifier itself as an integer, or not
  at all.
* **`Indexing.ofIdentifier`** — an identifier read as an integer: truth values are zero and one, reals
  lose their fraction, texts are read as numerals.
* **`Indexing.index`** — the index that an identifier has.
-/

namespace MaximalCliques

/-- A way to index identifiers. -/
inductive Indexing where
  | byValue
  | byNumbering (numbering : Numbering)
  | byTable (table : Association Identifier)
  /-- No identifier has an index, for this reason. -/
  | refused (fault : Fault)

namespace Indexing

def ofIdentifier (x : Identifier) : Except Fault Int :=
  match x with
  | .truth b => .ok (if b then 1 else 0)
  | .integer n => .ok n
  | .real r => match r.truncate? with
    | some n => .ok n
    | none => .error .infiniteIndex
  | .text s => match Text.readInteger? s with
    | some n => .ok n
    | none => .error (Fault.notAnIndex x).raised
  | _ => .error (Fault.notAnIndex x).raised

def index : Indexing → Identifier → Except Fault Int
  | byValue, x => ofIdentifier x
  | refused fault, _ => .error fault
  | byNumbering numbering, x => match numbering.place? x with
    | some i => .ok i
    | none => .error (Fault.unknownNode x).raised
  | byTable table, x => table.index x

end Indexing

end MaximalCliques
