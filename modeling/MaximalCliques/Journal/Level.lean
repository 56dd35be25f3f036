import MaximalCliques.Fault

/-!
# Levels of records

* **`Level`** — a number, or a truth value that counts as one.
* **`Level.name`** — the name of a level; levels without a name of their own show what they are.
* **`Level.ofName?`** — the level of a name; some levels have a second one.
* **`Level.ofIdentifier`** — the level that a value stands for: itself, or that of a name.
-/

namespace MaximalCliques

/-- A level; a truth value counts as zero or one and is shown as it was given. -/
inductive Level where
  | number (value : Int)
  | truth (value : Bool)
deriving DecidableEq, Repr

namespace Level

instance {n : Nat} : OfNat Level n := ⟨.number n⟩

def toIdentifier : Level → Identifier
  | number n => .integer n
  | truth b => .truth b

def toInt : Level → Int
  | number n => n
  | truth b => if b then 1 else 0

/-- The levels that have names, from the least to the greatest. -/
def named : List (Int × String) :=
  [(0, "NOTSET"), (10, "DEBUG"), (20, "INFO"), (30, "WARNING"), (40, "ERROR"), (50, "CRITICAL")]

/-- Second names of levels; they are understood but not shown. -/
def alsoNamed : List (Int × String) := [(30, "WARN"), (50, "FATAL")]

def name (level : Level) : String :=
  match named.lookup level.toInt with
  | some name => name
  | none => "Level " ++ level.toIdentifier.literal

def ofName? (name : String) : Option Level :=
  ((named ++ alsoNamed).find? (·.2 == name)).map fun (n, _) => .number n

def ofInteger? : Identifier → Option Level
  | .integer n => some (.number n)
  | .truth b => some (.truth b)
  | _ => none

def ofIdentifier : Identifier → Except Fault Level
  | .text name => match ofName? name with
    | some level => .ok level
    | none => .error (.unknownLevel name)
  | v => match ofInteger? v with
    | some level => .ok level
    | none => .error (Fault.notALevel v).raised

/-- The name of a named level stands for it. -/
example : named.all (fun (n, text) =>
    ofName? (name (.number n)) == some (.number n) && name (.number n) == text) := by
  decide

end Level

end MaximalCliques
