import MaximalCliques.Binary64

/-!
# Decimal writing of binary numbers

The text of a number has the fewest digits that read back as the same number.

* **`Binary64.shortest`** — those digits: for one digit, two digits and so on, the two neighbours of
  the number on that decimal grid are tested against the interval of values that round to it; the
  first grid with a hit wins, of two hits the nearer, of two equally near the even one.
* **`Layout`** — where positional writing ends and how an exponent is written.
* **`Binary64.text`** and **`Binary64.read?`** — writing and reading.
-/

namespace MaximalCliques

namespace Binary64

/-! ### The fewest digits -/

/-- The value `digits * 10 ^ exponent`. -/
structure Decimal where
  digits : Nat
  exponent : Int
deriving DecidableEq, Repr

/-- The power `k` with `10 ^ k ≤ num / den < 10 ^ (k + 1)`, for positive `num` and `den`. -/
def floorLog10 (num den : Nat) : Int :=
  let k := floorLog2 num den * 30103 / 100000
  let reached (k : Int) : Bool := scaleUp 10 k den ≤ scaleUp 10 (-k) num
  if reached (k + 1) then k + 1 else if reached k then k else k - 1

/-- A point `c * 10 ^ p` of a decimal grid and a value `x * 2 ^ (e - 2)`, on one common scale. -/
def onCommonScale (e p : Int) (x c : Nat) : Nat × Nat :=
  (scaleUp 10 (-p) (scaleUp 2 (e - 2) x), scaleUp 2 (2 - e) (scaleUp 10 p c))

/-- Does `c * 10 ^ p` round to the number `m * 2 ^ e`?  The ends of the interval belong to it when
`m` is even; below a power of two the interval is half as wide. -/
def roundsTo (m : Nat) (e p : Int) (c : Nat) : Bool :=
  let below := if m = leadingBit ∧ leastExponent < e then 4 * m - 1 else 4 * m - 2
  let (low, point) := onCommonScale e p below c
  let (high, _) := onCommonScale e p (4 * m + 2) c
  if m % 2 = 0 then low ≤ point && point ≤ high else low < point && point < high

/-- The neighbour of `m * 2 ^ e` on the grid of step `10 ^ p` that rounds to it, if one does. -/
def neighbour? (m : Nat) (e p : Int) : Option Nat :=
  let (value, step) := onCommonScale e p (4 * m) 1
  let c := value / step
  match roundsTo m e p c, roundsTo m e p (c + 1) with
  | true, true =>
    let r := value % step
    some (if 2 * r < step then c else if step < 2 * r then c + 1 else if c % 2 = 0 then c else c + 1)
  | true, false => some c
  | false, true => some (c + 1)
  | false, false => none

/-- Moves the zeros at the end of the digits into the exponent; `places` bounds their number. -/
def Decimal.stripped : Nat → Decimal → Decimal
  | 0, d => d
  | places + 1, d =>
    if d.digits % 10 = 0 ∧ d.digits ≠ 0 then stripped places ⟨d.digits / 10, d.exponent + 1⟩ else d

/-- The fewest digits that read back as `m * 2 ^ e`, for a positive `m`. -/
def shortest (m : Nat) (e : Int) : Decimal :=
  let k := floorLog10 (scaleUp 2 e m) (scaleUp 2 (-e) 1)
  let found := (List.range 17).findSome? fun n : Nat =>
    let p := k - n
    (neighbour? m e p).map fun c => Decimal.mk c p
  (found.getD ⟨0, 0⟩).stripped 18

/-! ### Writing -/

structure Layout where
  /-- The point stands after more than this many places in positional writing. -/
  pointAfter : Int
  /-- The point stands after at most this many places in positional writing. -/
  pointUpTo : Int
  /-- The least number of digits of an exponent. -/
  exponentDigits : Nat

/-- Positional from `0.0001` to below `10 ^ 16`; an exponent has a sign and two digits or more. -/
def layout : Layout := ⟨-4, 16, 2⟩

def Layout.write (l : Layout) (d : Decimal) : String :=
  let digits := Nat.toDigits 10 d.digits
  let point : Int := digits.length + d.exponent
  let zeros (n : Int) : List Char := List.replicate n.toNat '0'
  if l.pointAfter < point ∧ point ≤ l.pointUpTo then
    let whole := if point ≤ 0 then ['0'] else digits.take point.toNat ++ zeros d.exponent
    let rest := if point ≤ 0 then zeros (-point) ++ digits else digits.drop point.toNat
    String.ofList (whole ++ '.' :: if rest.isEmpty then ['0'] else rest)
  else
    let scale := point - 1
    let size := Nat.toDigits 10 scale.natAbs
    let fraction := match digits.drop 1 with
      | [] => []
      | rest => '.' :: rest
    String.ofList (digits.take 1 ++ fraction ++ 'e' :: (if scale < 0 then '-' else '+') ::
      (zeros (l.exponentDigits - size.length) ++ size))

def text : Binary64 → String
  | .finite negative m e =>
    (if negative then "-" else "") ++ if m = 0 then "0.0" else layout.write (shortest m e)
  | .infinite negative => if negative then "-inf" else "inf"

/-! ### Reading -/

/-- The value of a list of digits, most significant first; `none` if another character occurs. -/
def natOfDigits? (cs : List Char) : Option Nat :=
  cs.foldl (fun n c => n.bind fun n => if c.isDigit then some (10 * n + (c.toNat - 48)) else none)
    (some 0)

/-- An optional sign in front: whether it is a minus, and what follows. -/
def splitSign : List Char → Bool × List Char
  | '-' :: cs => (true, cs)
  | '+' :: cs => (false, cs)
  | cs => (false, cs)

/-- The number nearest to a decimal.  Decimals far above or below all numbers are not written out. -/
def ofDecimal (negative : Bool) (d : Decimal) : Binary64 :=
  let point : Int := (Nat.toDigits 10 d.digits).length + d.exponent
  if d.digits = 0 ∨ point < -400 then .finite negative 0 leastExponent
  else if 400 < point then .infinite negative
  else nearest negative (scaleUp 10 d.exponent d.digits) (scaleUp 10 (-d.exponent) 1)

/-- The number that a decimal text such as `-2.5e-07` denotes, or an infinity written `inf`. -/
def read? (s : String) : Option Binary64 :=
  let (negative, cs) := splitSign s.toList
  if cs = ['i', 'n', 'f'] then some (.infinite negative)
  else do
    let mantissa := cs.takeWhile (· ≠ 'e')
    let whole := mantissa.takeWhile (· ≠ '.')
    let fraction := (mantissa.dropWhile (· ≠ '.')).drop 1
    let digits ← if (whole ++ fraction).isEmpty then none else natOfDigits? (whole ++ fraction)
    let scale ← match (cs.dropWhile (· ≠ 'e')).drop 1 with
      | [] => if cs.contains 'e' then none else some 0
      | es =>
        let (down, es) := splitSign es
        if es.isEmpty then none
        else (natOfDigits? es).map fun n => if down then -(n : Int) else (n : Int)
    some (ofDecimal negative ⟨digits, scale - fraction.length⟩)

end Binary64

end MaximalCliques
