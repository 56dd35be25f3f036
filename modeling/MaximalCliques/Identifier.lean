import MaximalCliques.Binary64

/-!
# Node identifiers

A node is named by a value: nothing, a truth value, a number, a text, or a tuple of values.  Numbers
are compared by value across truth values, integers and reals, so that several spellings name one
node.  Sequences and mappings occur only as values that name no node.

* **`Identifier`** — the values.
* **`Identifier.identity`** — what two spellings of one node have in common.
* **`a == b`** — the two values name the same node; an equivalence (`EquivBEq`), with a hash that
  respects it (`LawfulHashable`).
* **`Identifier.keyless?`** — the part of a value that keeps it from being a key, if there is one.
* **`Identifier.isTruthy`** — the reading of a value as an answer.
-/

namespace MaximalCliques

/-- A value that may name a node. -/
inductive Identifier where
  | absent
  | truth (value : Bool)
  | integer (value : Int)
  | real (value : Binary64)
  /-- An undefined number: it equals no number but the very same occurrence. -/
  | undefined (occurrence : Nat)
  | text (value : String)
  | tuple (items : List Identifier)
  /-- A sequence that may change; it cannot be a key. -/
  | sequence (items : List Identifier)
  /-- A mapping of texts, in their order; it may change and cannot be a key. -/
  | mapping (entries : List (String × Identifier))
deriving Inhabited, Repr

/-- One sign of an identity. -/
inductive Mark where
  | absent
  | number (value : Rat)
  | infinite (negative : Bool)
  | undefined (occurrence : Nat)
  | text (value : String)
  | openTuple
  | openSequence
  | openMapping
  | close
deriving DecidableEq, Hashable, Repr

namespace Identifier

/-! ### Identity -/

mutual

/-- What all spellings of a node have in common. -/
def identity : Identifier → List Mark
  | absent => [.absent]
  | truth b => [.number (if b then 1 else 0)]
  | integer n => [.number n]
  | real x => [match x.toRat? with
    | some q => .number q
    | none => .infinite (x == .infinite true)]
  | undefined k => [.undefined k]
  | text s => [.text s]
  | tuple xs => .openTuple :: identities xs
  | sequence xs => .openSequence :: identities xs
  | mapping es => .openMapping :: identitiesOfEntries es

def identities : List Identifier → List Mark
  | [] => [.close]
  | x :: xs => identity x ++ identities xs

def identitiesOfEntries : List (String × Identifier) → List Mark
  | [] => [.close]
  | (k, x) :: es => .text k :: identity x ++ identitiesOfEntries es

end

/-- Do two values name the same node? -/
def same : Identifier → Identifier → Bool
  | integer m, integer n => m == n
  | text s, text t => s == t
  | a, b => a.identity == b.identity

theorem same_iff (a b : Identifier) : same a b = true ↔ a.identity = b.identity := by
  unfold same
  split <;> simp [identity]

instance : BEq Identifier := ⟨same⟩

theorem beq_iff {a b : Identifier} : (a == b) = true ↔ a.identity = b.identity := same_iff a b

instance : EquivBEq Identifier where
  rfl := beq_iff.2 rfl
  symm h := beq_iff.2 (beq_iff.1 h).symm
  trans h h' := beq_iff.2 ((beq_iff.1 h).trans (beq_iff.1 h'))

instance : Hashable Identifier := ⟨fun a => hash a.identity⟩

instance : LawfulHashable Identifier where
  hash_eq _ _ h := by simp only [hash]; rw [beq_iff.1 h]

def isIn (a : Identifier) (xs : List Identifier) : Bool := xs.any (· == a)

/-- Keeps the first spelling of each node. -/
def distinct (xs : List Identifier) : List Identifier :=
  xs.foldl (fun kept x => if x.isIn kept then kept else kept ++ [x]) []

def sameSet (xs ys : List Identifier) : Bool := xs.all (·.isIn ys) && ys.all (·.isIn xs)

/-! ### Values that cannot be keys -/

mutual

/-- The first part of a value, in reading order, that keeps it from being a key. -/
def keyless? : Identifier → Option Identifier
  | sequence xs => some (sequence xs)
  | mapping es => some (mapping es)
  | tuple xs => firstKeyless? xs
  | _ => none

/-- The first such part among the items of a tuple. -/
def firstKeyless? : List Identifier → Option Identifier
  | [] => none
  | x :: xs => match keyless? x with
    | some part => some part
    | none => firstKeyless? xs

end

/-! ### Values as answers -/

/-- A value read as an answer: nothing, zero and empty values mean no. -/
def isTruthy : Identifier → Bool
  | absent => false
  | truth b => b
  | integer n => n != 0
  | real x => !x.isZero
  | undefined _ => true
  | text s => !s.isEmpty
  | tuple xs => !xs.isEmpty
  | sequence xs => !xs.isEmpty
  | mapping es => !es.isEmpty

/-- The value of a whole number. -/
def wholeValue? (x : Identifier) : Option Int :=
  match x.identity with
  | [.number q] => if q.den = 1 then some q.num else none
  | _ => none

/-- The integer that a truth value or an integer stands for. -/
def toInt? : Identifier → Option Int
  | truth b => some (if b then 1 else 0)
  | integer n => some n
  | _ => none

end Identifier

end MaximalCliques
