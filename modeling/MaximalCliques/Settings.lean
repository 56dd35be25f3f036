import MaximalCliques.Identifier.Order
import MaximalCliques.IndexSpace

/-!
# Settings of an enumeration

A setting keeps whatever value it is given; it is read when it is used.

* **`Settings`** — the settings and their initial values.
* **`Overrides`** — a choice of new values; a setting left out keeps its value.
* **`Settings.usesPivot`**, **`Settings.usesStack`** — the choices as they are read.
* **`Settings.capacity`** — the largest index space that an oracle may have.
* **`Settings.requireWorkers`** — accepts the number of branches that may run at once.
* **`Overrides.ofList`**, **`Settings.ofList`** — overrides and settings given by name.
-/

namespace MaximalCliques

structure Settings where
  /-- Branch only on candidates outside the neighbourhood of a pivot. -/
  pivot : Identifier := .truth true
  /-- Search with an explicit stack. -/
  iterative : Identifier := .truth false
  /-- The largest index space of an oracle. -/
  maxOracleNodes : Identifier := .integer 16384
  /-- How many branches may run at once; if absent, that is left open. -/
  parallelWorkers : Identifier := .absent
deriving BEq, Repr

/-- New values for some settings; an absent one overrides nothing. -/
structure Overrides where
  pivot : Identifier := .absent
  iterative : Identifier := .absent
  maxOracleNodes : Identifier := .absent
  parallelWorkers : Identifier := .absent
deriving Repr

/-- A value, or another one in its absence. -/
def Identifier.otherwise (x y : Identifier) : Identifier :=
  match x with
  | .absent => y
  | x => x

namespace Settings

/-- Is a pivot used? -/
def usesPivot (s : Settings) : Bool := s.pivot.isTruthy

def usesStack (s : Settings) : Bool := s.iterative.isTruthy

/-- The largest index space that an oracle may have: no position in memory lies beyond it. -/
def capacity (s : Settings) : Except Fault Identifier := do
  if ← Comparison.below.holds (.integer largestIndex) s.maxOracleNodes then
    return .integer largestIndex
  else return s.maxOracleNodes

def requireWorkers (s : Settings) : Except Fault Unit :=
  match s.parallelWorkers with
  | .absent => .ok ()
  | workers => do if ← Comparison.notAbove.holds workers (.integer 0) then throw .noWorkers

def override (s : Settings) (o : Overrides) : Settings where
  pivot := o.pivot.otherwise s.pivot
  iterative := o.iterative.otherwise s.iterative
  maxOracleNodes := o.maxOracleNodes.otherwise s.maxOracleNodes
  parallelWorkers := o.parallelWorkers.otherwise s.parallelWorkers

/-- An integer from zero on and below the largest index is the capacity itself. -/
theorem capacity_of_le {s : Settings} {n : Int} (h : s.maxOracleNodes = .integer n)
    (hn : n ≤ largestIndex) : s.capacity = .ok (.integer n) := by
  have : ¬ largestIndex < n := by omega
  simp [capacity, h, Comparison.below_holds_integer, this, bind, Except.bind, pure, Except.pure]

end Settings

namespace Overrides

/-- Does a choice of new values change no setting at all? -/
def isEmpty (o : Overrides) : Bool :=
  [o.pivot, o.iterative, o.maxOracleNodes, o.parallelWorkers].all (· matches .absent)

end Overrides

/-! ### Settings by name -/

def Settings.maker : String := "CliqueConfig.__init__"

/-- The settings with the named one set, if there is one of the name. -/
def Settings.put? (s : Settings) (name : String) (value : Identifier) : Option Settings :=
  match name with
  | "pivot" => some { s with pivot := value }
  | "iterative" => some { s with iterative := value }
  | "max_oracle_nodes" => some { s with maxOracleNodes := value }
  | "parallel_workers" => some { s with parallelWorkers := value }
  | _ => none

/-- The overrides with the named one set, if there is one of the name. -/
def Overrides.put? (o : Overrides) (name : String) (value : Identifier) : Option Overrides :=
  match name with
  | "pivot" => some { o with pivot := value }
  | "iterative" => some { o with iterative := value }
  | "max_oracle_nodes" => some { o with maxOracleNodes := value }
  | "parallel_workers" => some { o with parallelWorkers := value }
  | _ => none

/-- The initial settings with the named ones set; every name must be known. -/
def Settings.ofList (fields : List (String × Identifier)) : Except Fault Settings :=
  fields.foldlM (fun s (name, value) => match s.put? name value with
    | some s => .ok s
    | none => .error (.unexpectedArgument Settings.maker name)) {}

/-- The overrides given by name; a name that no setting has is refused unless it comes with nothing. -/
def Overrides.ofList (fields : List (String × Identifier)) : Except Fault Overrides :=
  fields.foldlM (fun o (name, value) => match o.put? name value, value with
    | some o, _ => .ok o
    | none, .absent => .ok o
    | none, _ => .error (.unexpectedArgument Settings.maker name)) {}

end MaximalCliques
