import MaximalCliques.Fault

/-!
# The order of values

Numbers are compared by value, texts letter by letter, tuples and sequences by their first items that
differ.  Values of other kinds, and values of different kinds, have no order.

* **`Comparison.holds`** — does a comparison hold of two values?
* **`Identifier.isWithin`** — is a value a number from zero on and below a bound?
-/

namespace MaximalCliques

def Mark.isNumber : Mark → Bool
  | number _ | infinite _ | undefined _ => true
  | _ => false

/-- Is the one number below the other?  An undefined number is below none and above none. -/
def Mark.isBelow : Mark → Mark → Bool
  | number p, number q => p < q
  | number _, infinite negative => !negative
  | infinite negative, number _ => negative
  | infinite negative, infinite negative' => negative && !negative'
  | _, _ => false

/-- How two texts stand to each other, letter by letter. -/
def compareLetters : List Char → List Char → Ordering
  | [], [] => .eq
  | [], _ :: _ => .lt
  | _ :: _, [] => .gt
  | c :: cs, d :: ds => if c = d then compareLetters cs ds else compare c.toNat d.toNat

namespace Comparison

/-- Does the comparison hold of two things that stand so to each other? -/
def accepts : Comparison → Ordering → Bool
  | below, .lt => true
  | notAbove, .lt | notAbove, .eq => true
  | above, .gt => true
  | _, _ => false

def holdsOfNumbers (c : Comparison) (m n : Mark) : Bool :=
  match c with
  | below => m.isBelow n
  | notAbove => m.isBelow n || (match m with
    | .undefined _ => false
    | m => m == n)
  | above => n.isBelow m

def holdsOfWhole (c : Comparison) (x y : Identifier) : Except Fault Bool :=
  let refused : Except Fault Bool := .error (.notOrdered c x.kindName y.kindName)
  match x.identity, y.identity with
  | [m], [n] => if m.isNumber && n.isNumber then .ok (c.holdsOfNumbers m n) else refused
  | _, _ => refused

mutual

def holds (c : Comparison) : Identifier → Identifier → Except Fault Bool
  | .text s, .text t => .ok (c.accepts (compareLetters s.toList t.toList))
  | .tuple xs, .tuple ys => c.holdsOfItems xs ys
  | .sequence xs, .sequence ys => c.holdsOfItems xs ys
  | x, y => c.holdsOfWhole x y
termination_by structural x => x

/-- Does the comparison hold of the items of two values?  The first items that differ decide. -/
def holdsOfItems (c : Comparison) : List Identifier → List Identifier → Except Fault Bool
  | [], [] => .ok (c.accepts .eq)
  | [], _ :: _ => .ok (c.accepts .lt)
  | _ :: _, [] => .ok (c.accepts .gt)
  | x :: xs, y :: ys => if x == y then c.holdsOfItems xs ys else c.holds x y
termination_by structural xs => xs

end

end Comparison

/-- Is a value a number from zero on and below a bound? -/
def Identifier.isWithin (x : Identifier) (bound : Int) : Except Fault Bool := do
  if ← Comparison.notAbove.holds (.integer 0) x then Comparison.below.holds x (.integer bound)
  else return false

theorem Comparison.below_holds_integer (m n : Int) :
    below.holds (.integer m) (.integer n) = .ok (decide (m < n)) := by
  have h : (m : Rat) < n ↔ m < n := Rat.intCast_lt_intCast
  show Except.ok (decide ((m : Rat) < n)) = .ok (decide (m < n))
  rw [decide_eq_decide.2 h]

theorem Comparison.notAbove_holds_integer (m n : Int) :
    notAbove.holds (.integer m) (.integer n) = .ok (decide (m ≤ n)) := by
  have hlt : (m : Rat) < n ↔ m < n := Rat.intCast_lt_intCast
  have heq : (m : Rat) = n ↔ m = n := Rat.intCast_inj
  show Except.ok (decide ((m : Rat) < n) || (Mark.number m == Mark.number n)) = _
  have hmark : (Mark.number (m : Rat) == Mark.number n) = decide (m = n) := by
    rw [Bool.eq_iff_iff, beq_iff_eq, Mark.number.injEq, heq, decide_eq_true_iff]
  rw [hmark, decide_eq_decide.2 hlt, ← Bool.decide_or, decide_eq_decide.2]
  omega

theorem Comparison.above_holds_integer (m n : Int) :
    above.holds (.integer m) (.integer n) = .ok (decide (n < m)) :=
  (rfl : _ = below.holds (.integer n) (.integer m)).trans (below_holds_integer n m)

end MaximalCliques
