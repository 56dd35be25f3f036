import MaximalCliques.Binary64.Decimal

/-!
# Figures: numbers written with a point

* **`Figure.fixed`** — with a given number of places after the point.
* **`Figure.scientific`** — one digit, the point, a given number of places and an exponent.
* **`Figure.general`** — with a given number of significant digits, in the shorter of the two ways.

A number is a fraction `num / den`, for a positive `den`, and its last place is rounded, a half going to
the even digit.  A `bare` point is one that no digit follows; it is left out unless it is asked for.
-/

namespace MaximalCliques

/-- One digit before the point, the digits after it, and the power of ten that they are scaled by. -/
structure Figure where
  digits : List Char
  scale : Int
deriving DecidableEq, Repr

namespace Figure

/-- So many places hold any binary number written out; all places after them are zeros. -/
def finestPlaces : Nat := 1400

def zeros (count : Nat) : List Char := List.replicate count '0'

/-- The quotient of `num * 10 ^ places` by `den`, rounded. -/
def rounded (num den : Nat) (places : Int) : Nat :=
  Binary64.roundQuotient (Binary64.scaleUp 10 places num) (Binary64.scaleUp 10 (-places) den)

/-- The first `places + 1` digits of a number. -/
def leading (places num den : Nat) : Figure :=
  if num = 0 then ⟨zeros (places + 1), 0⟩
  else
    let known := min places finestPlaces
    let scale := Binary64.floorLog10 num den
    let digits := Nat.toDigits 10 (rounded num den (known - scale))
    ⟨digits.take (known + 1) ++ zeros (places - known), scale + (digits.length - (known + 1) : Nat)⟩

def joined (bare : Bool) (whole fraction : List Char) : List Char :=
  if fraction.isEmpty && !bare then whole else whole ++ '.' :: fraction

def fixed (bare : Bool) (places num den : Nat) : List Char :=
  let known := min places finestPlaces
  let digits := Nat.toDigits 10 (rounded num den known)
  let digits := zeros (known + 1 - digits.length) ++ digits
  let whole := digits.length - known
  joined bare (digits.take whole) (digits.drop whole ++ zeros (places - known))

def exponent (scale : Int) : List Char :=
  let digits := Nat.toDigits 10 scale.natAbs
  'e' :: (if scale < 0 then '-' else '+') :: (zeros (2 - digits.length) ++ digits)

def withoutZeros (cs : List Char) : List Char := (cs.reverse.dropWhile (· == '0')).reverse

def scientific (bare : Bool) (places num den : Nat) : List Char :=
  let f := leading places num den
  joined bare (f.digits.take 1) (f.digits.drop 1) ++ exponent f.scale

/-- The least scale of a number that is written without an exponent. -/
def leastScale : Int := -4

/-- A number with `size` significant digits.  Unless a bare point is asked for, zeros that end the
places after the point are left out. -/
def general (bare : Bool) (size num den : Nat) : List Char :=
  let size := max size 1
  let f := leading (size - 1) num den
  let hasExponent := f.scale < leastScale || (size : Int) ≤ f.scale
  let scale := if hasExponent then 0 else f.scale
  let digits := zeros (-scale).toNat ++ f.digits
  let fraction := digits.drop (scale.toNat + 1)
  joined bare (digits.take (scale.toNat + 1)) (if bare then fraction else withoutZeros fraction) ++
    if hasExponent then exponent f.scale else []

example : scientific false 2 12345 1 = "1.23e+04".toList := by decide +kernel

example : scientific false 0 95 1 = "1e+02".toList := by decide +kernel

example : scientific false 1 1 16 = "6.2e-02".toList := by decide +kernel

example : fixed false 2 1 8 = "0.12".toList ∧ fixed true 0 5 2 = "2.".toList := by decide +kernel

example : general false 6 20 1 = "20".toList ∧ general false 2 1 1024 = "0.00098".toList := by
  decide +kernel

end Figure

end MaximalCliques
