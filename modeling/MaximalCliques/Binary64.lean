/-!
# Numbers of the 64-bit binary format

A finite number is a sign, a significand below `2 ^ 53` and a power of two; the two infinities stand
apart.  Everything here is exact arithmetic on natural numbers and fractions; a result is the number
nearest to the exact one, and a zero has the sign that the operands give it.

* **`Binary64.nearest`** — the number nearest to a fraction, a half going to the even significand.
* **`Binary64.toRat?`** — the exact value of a finite number.
* **`Binary64.truncate?`** — the integer between the number and zero, for a finite number.
* **`Binary64.ofInt?`** — the number nearest to an integer, unless the integer is larger than all
  numbers.
* **`Binary64.add?`** — the sum, which two infinities of different signs do not have.
* **`Binary64.residue?`** — the residue, on the same side of zero as the modulus.
-/

namespace MaximalCliques

/-- A number of the 64-bit binary format, other than an undefined one. -/
inductive Binary64 where
  | finite (negative : Bool) (significand : Nat) (exponent : Int)
  | infinite (negative : Bool)
deriving DecidableEq, Repr

namespace Binary64

/-- The smallest power of two that a significand may stand before. -/
def leastExponent : Int := -1074

def greatestExponent : Int := 971

/-- The leading bit of a significand that has all its bits, `2 ^ 52`. -/
def leadingBit : Nat := 4503599627370496

/-- The number `n * base ^ e` for an `e` that is not negative, and `n` for one that is. -/
def scaleUp (base : Nat) (e : Int) (n : Nat) : Nat := n * Nat.pow base e.toNat

/-! ### Rounding a fraction -/

/-- The quotient of `num` by `den` to the nearest integer, a half going to the even one. -/
def roundQuotient (num den : Nat) : Nat :=
  let q := num / den
  let r := num % den
  if 2 * r < den then q
  else if den < 2 * r then q + 1
  else if q % 2 = 0 then q else q + 1

/-- The power `l` with `2 ^ l ≤ num / den < 2 ^ (l + 1)`, for positive `num` and `den`. -/
def floorLog2 (num den : Nat) : Int :=
  let l : Int := (num.log2 : Int) - (den.log2 : Int)
  if scaleUp 2 l den ≤ scaleUp 2 (-l) num then l else l - 1

/-- The number nearest to `num / den`, for a positive `den`. -/
def nearest (negative : Bool) (num den : Nat) : Binary64 :=
  if num = 0 then .finite negative 0 leastExponent
  else
    let e := max (floorLog2 num den - 52) leastExponent
    let q := roundQuotient (scaleUp 2 (-e) num) (scaleUp 2 e den)
    let (q, e) := if q = 2 * leadingBit then (leadingBit, e + 1) else (q, e)
    if greatestExponent < e then .infinite negative else .finite negative q e

/-! ### Exact values -/

def toRat? : Binary64 → Option Rat
  | .finite negative m e =>
    let magnitude : Rat := mkRat (scaleUp 2 e m : Nat) (scaleUp 2 (-e) 1)
    some (if negative then -magnitude else magnitude)
  | .infinite _ => none

/-- The integer between a finite number and zero that is nearest to it. -/
def truncate? : Binary64 → Option Int
  | .finite negative m e =>
    let magnitude : Nat := scaleUp 2 e m / scaleUp 2 (-e) 1
    some (if negative then -(magnitude : Int) else magnitude)
  | .infinite _ => none

/-- A zero, of either sign. -/
def isZero : Binary64 → Bool
  | .finite _ m _ => m == 0
  | .infinite _ => false

/-! ### Arithmetic -/

/-- The number nearest to a fraction; a zero is negative if it is to be. -/
def ofRat (q : Rat) (negativeZero : Bool) : Binary64 :=
  nearest (if q = 0 then negativeZero else q < 0) q.num.natAbs q.den

/-- The number nearest to an integer, unless that is larger than all numbers. -/
def ofInt? (n : Int) : Option Binary64 :=
  match nearest (n < 0) n.natAbs 1 with
  | .infinite _ => none
  | x => some x

/-- Is the number below zero, or the zero below the other one? -/
def isNegative : Binary64 → Bool
  | .finite negative .. => negative
  | .infinite negative => negative

def add? (x y : Binary64) : Option Binary64 :=
  match x.toRat?, y.toRat? with
  | some p, some q => some (ofRat (p + q) (x.isNegative && y.isNegative))
  | some _, none => some y
  | none, some _ => some x
  | none, none => if x.isNegative = y.isNegative then some x else none

/-- The residue of a number by a modulus other than zero, on the same side of zero as the modulus.  An
infinity has none. -/
def residue? (x y : Binary64) : Option Binary64 :=
  match x.toRat?, y.toRat? with
  | some p, some q => some (ofRat (p - q * ((p / q).floor : Int)) y.isNegative)
  | some p, none =>
    if p = 0 then some (.finite y.isNegative 0 leastExponent)
    else some (if x.isNegative = y.isNegative then x else y)
  | none, _ => none

end Binary64

end MaximalCliques
