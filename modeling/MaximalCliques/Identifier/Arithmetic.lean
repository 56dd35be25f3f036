import MaximalCliques.Binary64
import MaximalCliques.Fault

/-!
# Arithmetic on values

Truth values count as zero and one.  As soon as one of two numbers is a real, so is the result.

* **`Identifier.plus`** — the sum of two numbers.
* **`Identifier.residue`** — the residue of a number, on the same side of zero as the modulus.
-/

namespace MaximalCliques.Identifier

/-- The real that a number stands for: none for an undefined number. -/
def toReal : Identifier → Except Fault (Option Binary64)
  | real x => .ok (some x)
  | undefined _ => .ok none
  | x => match Binary64.ofInt? (x.toInt?.getD 0) with
    | some r => .ok (some r)
    | none => .error .beyondReals

def isNumber : Identifier → Bool
  | truth _ | integer _ | real _ | undefined _ => true
  | _ => false

def ofReal? : Option Binary64 → Identifier
  | some x => real x
  | none => undefined 0

/-- The result of an operation on the reals that two numbers stand for. -/
def combineReals (f : Binary64 → Binary64 → Option Binary64) (x y : Identifier) :
    Except Fault Identifier := do
  match ← x.toReal, ← y.toReal with
  | some a, some b => return ofReal? (f a b)
  | _, _ => return ofReal? none

def plus (x y : Identifier) : Except Fault Identifier :=
  match x.toInt?, y.toInt? with
  | some m, some n => .ok (integer (m + n))
  | _, _ =>
    if x.isNumber && y.isNumber then combineReals Binary64.add? x y
    else .error (.noSum x.kindName y.kindName)

def residue (x modulus : Identifier) : Except Fault Identifier :=
  match x.toInt?, modulus.toInt? with
  | some n, some m => if m = 0 then .error (.zeroModulus false) else .ok (integer (n.fmod m))
  | _, _ =>
    if x.isNumber && modulus.isNumber then
      if modulus.isTruthy then combineReals Binary64.residue? x modulus
      else .error (.zeroModulus true)
    else .error (.noResidue x.kindName modulus.kindName)

end MaximalCliques.Identifier
