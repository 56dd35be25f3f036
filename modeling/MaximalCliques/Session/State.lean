import MaximalCliques.Enumeration.Parallel
import MaximalCliques.Enumeration.Resumable
import MaximalCliques.Journal
import MaximalCliques.View.Filter

/-!
# Sessions: named things

A session binds names to things.  What may change is kept in one place and referred to by that place,
so that a name given anew leaves earlier references as they were.

* **`Session`** — the names, the things that may change, and the settings in force by default.
* **`Action`** — a step of a session: a question with access to the whole session.
-/

namespace MaximalCliques

/-- The neighbours of a node in a network, of which there were so many when they were asked for. -/
structure Watch where
  network : Nat
  direction : Option Direction
  node : Identifier
  size : Nat

/-- A sequence held open: the items still to come and the filters that test them, the outermost
first. -/
structure OpenSequence where
  items : List Identifier
  filters : List Filter := []
  /-- Neighbours that must stay as many as they were for as long as items are delivered. -/
  watch : Option Watch := none
  /-- Has it been told that there are no more items? -/
  ended : Bool := false

/-- When a search is to be stopped. -/
inductive StopCheck where
  /-- From the poll after this many polls on. -/
  | after (polls : Identifier)
  /-- At this poll only, the first being number one. -/
  | at (poll : Identifier)
  /-- While the flag of this name is raised. -/
  | flag (name : String)
deriving Repr

/-- The settings that an enumeration asks for: a whole set of settings, or those in force when it
starts, with some overridden. -/
structure SettingsChoice where
  settings : Option Settings := none
  overrides : Overrides := {}

structure HeldEnumeration where
  graph : Thing
  choice : SettingsChoice
  stop : Option StopCheck
  /-- The place of the counters that it counts on, or why it cannot count. -/
  tally : Except Fault Nat
  state : OpenEnumeration := .notStarted

/-- A session. -/
structure Session where
  world : World := {}
  names : List (String × Thing) := []
  sequences : Array OpenSequence := #[]
  enumerations : Array HeldEnumeration := #[]
  /-- The settings in force where none are given. -/
  defaults : Settings := {}
  /-- The next serial number. -/
  serial : Nat := 0
  /-- The journal that enumerations report to. -/
  journal : Journal := {}

def Session.thing? (s : Session) (name : String) : Option Thing :=
  (s.names.find? (·.1 == name)).map (·.2)

/-- A step of a session. -/
abbrev Action := Query Session

namespace Action

def inWorld {α : Type} (q : Query World α) : Action α :=
  ExceptT.mk fun s =>
    let (answer, world) := q.run s.world
    (answer, { s with world })

def ofExcept {α : Type} (answer : Except Fault α) : Action α := Query.ofExcept answer

/-- A fresh serial number. -/
def freshSerial : Action Nat := do
  let s ← get
  set { s with serial := s.serial + 1 }
  return s.serial

def bind (name : String) (thing : Thing) : Action Unit :=
  modify fun s => { s with names := (name, thing) :: s.names.filter (·.1 != name) }

def bindBase (name : String) (base : Base) : Action Unit := bind name { base }

/-- Changes the world of the session. -/
def modifyWorld (change : World → World) : Action Unit :=
  modify fun s => { s with world := change s.world }

def bitSetAt (place : Nat) : Action BitSet := do
  match (← get).world.bitSets[place]? with
  | some b => return b
  | none => throw (.unavailable "bit set")

def seenSetAt (place : Nat) : Action SeenSet := do
  match (← get).world.seenSets[place]? with
  | some t => return t
  | none => throw (.unavailable "seen set")

/-- Puts a trace back. -/
def storeTrace (place : Nat) (nodes : List Identifier) : Action Unit :=
  modifyWorld fun w => { w with traces := w.traces.setIfInBounds place nodes.toArray }

def storeMapping (place : Nat) (entries : List (String × Identifier)) : Action Unit :=
  modifyWorld fun w => { w with mappings := w.mappings.setIfInBounds place entries }

def storeBitSet (place : Nat) (b : BitSet) : Action Unit :=
  modifyWorld fun w => { w with bitSets := w.bitSets.setIfInBounds place b }

def storeSeenSet (place : Nat) (t : SeenSet) : Action Unit :=
  modifyWorld fun w => { w with seenSets := w.seenSets.setIfInBounds place t }

def storeTally (place : Nat) (tally : Tally) : Action Unit :=
  modifyWorld fun w => { w with tallies := w.tallies.setIfInBounds place tally }

/-- A new place for a bit set. -/
def newBitSet (b : BitSet) : Action Nat := do
  let place := (← get).world.bitSets.size
  modifyWorld fun w => { w with bitSets := w.bitSets.push b }
  return place

def newSeenSet (t : SeenSet) : Action Nat := do
  let place := (← get).world.seenSets.size
  modifyWorld fun w => { w with seenSets := w.seenSets.push t }
  return place

def newTrace (nodes : List Identifier) : Action Nat := do
  let place := (← get).world.traces.size
  modifyWorld fun w => { w with traces := w.traces.push nodes.toArray }
  return place

def newMapping (entries : List (String × Identifier)) : Action Nat := do
  let place := (← get).world.mappings.size
  modifyWorld fun w => { w with mappings := w.mappings.push entries }
  return place

def newTally (tally : Tally) : Action Nat := do
  let place := (← get).world.tallies.size
  modifyWorld fun w => { w with tallies := w.tallies.push tally }
  return place

end Action

end MaximalCliques
