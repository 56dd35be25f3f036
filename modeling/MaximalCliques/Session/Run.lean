import MaximalCliques.Session.Make
import MaximalCliques.View.Value

/-!
# Enumerations in a session

* **`StopCheck.poll`** — the answer of a stop check, which may depend on what the search has changed.
* **`Account`** — the counters of an enumeration.
* **`RunSpec.run`** — an enumeration from beginning to end.
* **`RunSpec.hold`**, **`HeldEnumeration.resume`**, **`HeldEnumeration.exhaust`** — an enumeration held
  open.
* **`Survey.perform`** — how several enumerations of one graph ended; a graph or a filter that cannot be
  made is the answer to all of them.
-/

namespace MaximalCliques

/-- The answer of a stop check after a number of polls.  A flag is raised while the thing of its name, as
it is at the moment, means yes. -/
def StopCheck.poll (s : Session) (polls : Nat) : StopCheck → Query World Bool
  | .after n => Query.ofExcept (Comparison.above.holds (.integer (polls + 1)) n)
  | .at n => return .integer (polls + 1) == n
  | .flag name => do
    match s.thing? name with
    | some thing => Query.ofExcept (thing.isTruthy (← get))
    | none => throw (.unknownName name)

/-- The answers of a stop check; an absent one lets everything pass. -/
def StopCheck.polls (s : Session) (stop : Option StopCheck) (polls : Nat) : Query World Bool :=
  match stop with
  | some stop => stop.poll s polls
  | none => return false

def SettingsChoice.resolve (c : SettingsChoice) (defaults : Settings) : Settings :=
  (c.settings.getD defaults).override c.overrides

/-- Why a thing cannot be tabulated with the settings, if its index space is at fault. -/
def Base.refusalWith? (settings : Settings) (base : Base) : Option Fault :=
  match base.refusal? "node_bound", base, settings.capacity with
  | none, .tableGraph _ g, .ok limit => IndexSpace.refusal? g.bound limit
  | refusal, _, _ => refusal

/-- The counters of an enumeration. -/
structure Account where
  /-- The place of the counters, or why nothing can be counted. -/
  place : Except Fault Nat
  /-- Why it cannot be told what has been counted. -/
  untold : Option Fault := none

namespace Account

def tally (account : Account) (w : World) : Tally :=
  (account.place.toOption.map w.tally).getD {}

/-- Why an enumeration cannot count. -/
def refusal? (account : Account) (w : World) : Option Fault :=
  match account.place with
  | .ok place => (w.tally place).refusal?
  | .error e => some e

/-- Enters what has been counted from some numbers to others. -/
def store (account : Account) (first last : Counters) : Action Unit := do
  if let .ok place := account.place then
    let tally := (← get).world.tally place
    Action.storeTally place (tally.advance first last)

end Account

namespace RunSpec

def choice (spec : RunSpec) : Except Fault SettingsChoice := do
  let settings ← match spec.settings with
    | some given => (Settings.ofList given).map some
    | none => .ok none
  let overrides : Overrides := {
    pivot := spec.pivot
    iterative := spec.iterative
    parallelWorkers := spec.workers.getD .absent }
  return { settings, overrides }

/-- The counters that an enumeration counts on.  Nothing given for them stands for new ones, which
nobody else knows of. -/
def account (spec : RunSpec) : Action Account := do
  match spec.counters with
  | .start values => do
    return { place := .ok (← Action.newTally (← Action.ofExcept (Tally.ofList values))) }
  | .named name => do
    match ← Action.find name with
    | ⟨.tally place, []⟩ => return { place := .ok place }
    | thing =>
      let refusal := .refusal thing.fullKindName "calls"
      match thing with
      | ⟨.value .absent, []⟩ => return { place := .ok (← Action.newTally {}), untold := some refusal }
      | _ => return { place := .error refusal, untold := some refusal }

/-- The refusal of an argument that the mode has no use for. -/
def unexpected? (spec : RunSpec) : Option Fault :=
  if spec.workers.isSome && spec.mode ≠ .inBranches then
    some (.unexpectedArgument spec.mode.operation "max_workers")
  else none

/-- The level from which the reports of an enumeration are captured. -/
def level? (spec : RunSpec) : Except Fault (Option Level) :=
  match spec.captureLevel with
  | some level => (Level.ofIdentifier level).map some
  | none => .ok none

/-- Conducts an enumeration that is described, unless it is refused at the beginning. -/
def conduct (spec : RunSpec) (s : Session) (g : Thing) (settings : Settings) (account : Account) :
    StateM World Outcome := do
  let counters := (account.tally s.world).counters
  let access := g.access s.world
  let stop := StopCheck.polls s spec.stop
  match spec.unexpected? <|> g.base.refusalWith? settings, account.refusal? s.world with
  | some e, _ => return { fault := e, counters }
  | none, some e =>
    match ← (Subject.failUncounted (α := Unit) access settings e).run with
    | .error e => return { fault := e, counters }
    | .ok () => return { counters }
  | none, none =>
    match spec.mode with
    | .asSet => enumerate access settings stop counters
    | .inOrder => iterate access settings stop counters
    | .inBranches => enumerateInBranches access settings stop spec.discipline counters

/-- An enumeration from beginning to end; the reply comes with the reports that the journal keeps. -/
def run (spec : RunSpec) (g : Thing) : Action (RunReply × List Report) := do
  let choice ← Action.ofExcept spec.choice
  let account ← spec.account
  let level ← Action.ofExcept spec.level?
  let s ← get
  let (outcome, world) := (spec.conduct s g (choice.resolve s.defaults) account).run s.world
  set { s with world }
  account.store (account.tally s.world).counters outcome.counters
  if let some e := account.untold then throw e
  let journal := level.elim s.journal s.journal.capturing
  let kept := outcome.reports.filter fun r => journal.keeps r.channel r.level
  let handedOver := spec.mode = .inOrder || outcome.fault.isNone
  return ({ cliques := if handedOver then some (outcome.cliques.map Clique.nodes) else none
            fault := outcome.fault
            counters := account.tally (← get).world
            polls := spec.stop.map fun _ => outcome.polls
            captured := level.map fun _ => kept }, kept)

def hold (spec : RunSpec) (name : String) (g : Thing) : Action Unit := do
  let choice ← Action.ofExcept spec.choice
  let account ← spec.account
  if let some e := spec.unexpected? then throw e
  let place := (← get).enumerations.size
  let held : HeldEnumeration := { graph := g, choice, stop := spec.stop, tally := account.place }
  modify fun s => { s with enumerations := s.enumerations.push held }
  Action.bindBase name (.enumeration place)

end RunSpec

namespace HeldEnumeration

def goOn (place : Nat)
    (go : Access World → Settings → (Nat → Query World Bool) → Counters → OpenEnumeration →
      StateM World Resumption) : Action Resumption := do
  let s ← get
  match s.enumerations[place]? with
  | none => throw (.unavailable "enumeration")
  | some held =>
    let account : Account := { place := held.tally }
    let counters := (account.tally s.world).counters
    let access := held.graph.access s.world
    let settings := held.choice.resolve s.defaults
    let failed (e : Fault) : Resumption := { answer := .error e, state := .ended, counters }
    let resumed : StateM World Resumption :=
      match held.state, held.graph.base.refusalWith? settings, account.refusal? s.world with
      | .notStarted, some e, _ => pure (failed e)
      | .notStarted, none, some e => do
        let answer ← (Subject.failUncounted (α := Unit) access settings e).run
        return { failed e with answer := answer.map fun _ => none }
      | state, _, _ => go access settings (StopCheck.polls s held.stop) counters state
    let (r, world) := resumed.run s.world
    let enumerations := s.enumerations.setIfInBounds place { held with state := r.state }
    set { s with world, enumerations }
    account.store counters r.counters
    return r

/-- The next clique of the enumeration at a place, or that there is none. -/
def resume (place : Nat) : Action (Option (List Identifier)) := do
  let r ← goOn place OpenEnumeration.resume
  return (← Action.ofExcept r.answer).map Clique.nodes

/-- Lets the enumeration at a place run to its end and delivers the cliques that were still to come. -/
def exhaust (place : Nat) : Action (List (List Identifier)) := do
  let r ← goOn place OpenEnumeration.exhaust
  let _ ← Action.ofExcept r.answer
  return r.passed.map Clique.nodes

end HeldEnumeration

/-! ### Surveys -/

/-- A graph, filters over it, and enumerations of the graph seen through them. -/
structure Survey where
  graph : GraphSpec
  filters : List FilterSpec := []
  runs : List RunSpec

def Survey.perform (survey : Survey) : Action (List RunReply) := do
  let base ← survey.graph.make
  let view ← survey.filters.foldlM (fun (g : Thing) filter => do
    let (f, _) ← filter.make
    return { g with filters := f :: g.filters }) base
  survey.runs.mapM fun run => do return (← run.run view).1

end MaximalCliques
