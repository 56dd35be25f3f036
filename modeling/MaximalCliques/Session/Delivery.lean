import MaximalCliques.Session.Run
import MaximalCliques.View.Value

/-!
# Items delivered one by one

* **`Watch.isKept`** — are there still as many neighbours as when they were asked for?
* **`Action.nextItem`** — the next item of a sequence that is held open.
* **`Action.itemsOf`** — the items of a thing; one that is held open delivers them.
* **`Action.contains`** — does a thing contain a value?  A sequence that is held open delivers its items
  up to the value, an enumeration all of its cliques.
-/

namespace MaximalCliques

/-- Are there still as many neighbours as when they were asked for? -/
def Watch.isKept (w : World) (watch : Watch) : Bool :=
  match w.networks[watch.network]? with
  | some g =>
    let answer := match watch.direction with
      | none => g.neighbours watch.node
      | some d => g.neighboursToward d watch.node
    answer.toOption.any fun items => items.length == watch.size
  | none => false

namespace Action

/-- The next item of the sequence at a place, or that there is none.  Nothing more is delivered once the
neighbours that are watched have become more, but an end that has been told stays one. -/
def nextItem (place : Nat) : Action (Option Identifier) := do
  let s ← get
  match s.sequences[place]? with
  | none => throw (.unavailable "sequence")
  | some sequence =>
    if sequence.ended then return none
    if !sequence.watch.all (·.isKept s.world) then throw .changedMeanwhile
    let ((answer, items), world) := (pull (Filter.testAll sequence.filters) sequence.items).run s.world
    let ended := answer matches .ok none
    let sequences := s.sequences.setIfInBounds place { sequence with items, ended }
    set { s with world, sequences }
    ofExcept answer

/-- The number of items that the sequence at a place may still deliver. -/
def remaining (place : Nat) : Action Nat := do
  return (((← get).sequences[place]?).map (·.items.length)).getD 0

/-- The next items that the sequence at a place delivers, so many at most. -/
def deliver (place : Nat) : Nat → Action (List Identifier)
  | 0 => return []
  | limit + 1 => do
    match ← nextItem place with
    | some item => return item :: (← deliver place limit)
    | none => return []

/-- Does the sequence at a place deliver a value within so many items? -/
def delivers (place : Nat) (x : Identifier) : Nat → Action Bool
  | 0 => return false
  | limit + 1 => do
    match ← nextItem place with
    | some item => if item == x then return true else delivers place x limit
    | none => return false

def holdsText (part : List Char) : List Char → Bool
  | [] => part.isEmpty
  | c :: cs => part.isPrefixOf (c :: cs) || holdsText part cs

def valueContains (whole x : Identifier) : Except Fault Bool :=
  match whole, x with
  | .text s, .text part => .ok (holdsText part.toList s.toList)
  | .text _, x => .error (.notAText x.kindName)
  | .mapping es, x => do
    x.requireKey
    return x.isIn (es.map fun (k, _) => .text k)
  | whole, x => match whole.items? with
    | some items => .ok (x.isIn items)
    | none => .error (.containsNothing whole.kindName)

/-- The cliques that the enumeration at a place delivers, each as a value. -/
def cliquesOf (place : Nat) : Action (List Identifier) := do
  return (← HeldEnumeration.exhaust place).map .tuple

def itemsOf (thing : Thing) : Action (List Identifier) := do
  match thing with
  | ⟨.seen place, []⟩ => do return (← seenSetAt place).members
  | ⟨.sequence place _, []⟩ => do deliver place ((← remaining place) + 1)
  | ⟨.enumeration place, []⟩ => cliquesOf place
  | thing => match (thing.value? (← get).world).bind Identifier.items? with
    | some items => return items
    | none => throw (.withoutItems thing.fullKindName)

/-- Does a thing contain a value?  No clique is a value. -/
def contains (thing : Thing) (x : Identifier) : Action Bool := do
  match thing with
  | ⟨.bits place, []⟩ => do ofExcept ((← bitSetAt place).isMarked x)
  | ⟨.seen place, []⟩ => do ofExcept ((← seenSetAt place).isMarked x)
  | ⟨.table _ t, []⟩ => return (← ofExcept (t.toBlock.compare (← ofExcept x.toBlock))).any id
  | ⟨.sequence place _, []⟩ => do delivers place x ((← remaining place) + 1)
  | ⟨.enumeration place, []⟩ => do
    let _ ← HeldEnumeration.exhaust place
    return false
  | thing => match thing.value? (← get).world with
    | some whole => ofExcept (valueContains whole x)
    | none => throw (.containsNothing thing.kindName)

end Action

end MaximalCliques
