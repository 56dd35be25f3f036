import MaximalCliques.Enumeration.Sequential
import MaximalCliques.Search.Plan

/-!
# Enumerating by independent branches

The nodes below the root are searched as branches that share nothing but the graph, its oracle and
the stop check.  Branches run one at a time, in order, each to its end.

* **`Discipline`** — whether branches still waiting are dropped once a branch has come to a bad end.
* **`Branch`** — a branch and what has become of it.
* **`runBranches`** — runs the branches.
* **`prepareBranches`** — splits the root of a search into branches.
* **`enumerateInBranches`** — delivers the set of the maximal cliques found by the branches; a stopped
  enumeration hands over whatever the branches have found.
-/

namespace MaximalCliques

/-- What happens to the branches that are waiting when a branch has been stopped or has failed. -/
inductive Discipline where
  | dropWaiting
  | drainWaiting
deriving DecidableEq, Repr

inductive Ending where
  | finished
  | stopped
  /-- The branch never started. -/
  | dropped
  | failed (fault : Fault)
deriving Repr

namespace Ending

def isBad : Ending → Bool
  | finished | dropped => false
  | stopped | failed _ => true

/-- How a branch ends whose search has been conducted. -/
def after : Except Fault (Option Unit) → Ending
  | .ok (some ()) => finished
  | .ok none => stopped
  | .error e => failed e

end Ending

structure Branch where
  root : SearchNode Vertex
  ending : Ending
  found : List Clique := []
  counters : Counters := {}

variable {σ : Type}

namespace Subject

/-- Runs one branch, `polls` polls having been made before; tells also how many have been made after. -/
def runBranch (s : Subject) (g : Access σ) (settings : Settings) (stop : Nat → Query σ Bool)
    (root : SearchNode Vertex) (polls : Nat) : StateM σ (Branch × Nat) := do
  let run := searchBelow settings root
  let (answer, p) ← Searching.askFrom (run.finish (s.conductor g stop)) { polls }
  return ({ root, ending := .after answer, found := p.found.reverse, counters := p.counters }, p.polls)

def runBranches (s : Subject) (g : Access σ) (settings : Settings) (stop : Nat → Query σ Bool)
    (discipline : Discipline) :
    List (SearchNode Vertex) → Bool → Nat → StateM σ (List Branch × Nat)
  | [], _, polls => pure ([], polls)
  | root :: roots, dropping, polls =>
    if dropping then do
      let (branches, polls) ← s.runBranches g settings stop discipline roots true polls
      return ({ root, ending := .dropped } :: branches, polls)
    else do
      let (branch, polls) ← s.runBranch g settings stop root polls
      let dropping := branch.ending.isBad && discipline = .dropWaiting
      let (branches, polls) ← s.runBranches g settings stop discipline roots dropping polls
      return (branch :: branches, polls)

end Subject

def Branch.firstFault (branches : List Branch) : Option Fault :=
  branches.findSome? fun b => match b.ending with
    | .failed e => some e
    | _ => none

def Branch.anyStopped (branches : List Branch) : Bool :=
  branches.any fun b => match b.ending with
    | .stopped => true
    | _ => false

/-- What the branches have found and counted together, on top of what the root has counted. -/
def Outcome.ofBranches (counters : Counters) (polls : Nat) (reports : List Report)
    (branches : List Branch) : Outcome :=
  let cliques := Clique.collect (branches.flatMap (·.found))
  let total := branches.foldl (fun c b => c + b.counters) counters
  match Branch.firstFault branches, Branch.anyStopped branches with
  | some e, _ => { fault := some e, counters, polls, reports }
  | none, true =>
    { cliques, fault := some (.cancelled (cliques.map Clique.nodes)), counters := total, polls
      reports := reports ++ [.cancelledInBranches cliques.length] }
  | none, false =>
    { cliques, counters := total, polls
      reports := reports ++ [.enumeratedInBranches cliques.length branches.length] }

/-- Branches that are ready to be searched. -/
structure Batch where
  subject : Subject
  roots : List (SearchNode Vertex)
  /-- What the root has counted. -/
  counters : Counters
  reports : List Report

/-- Tabulates a graph and splits the root of its search into branches.  An enumeration that comes to no
branches is over. -/
def prepareBranches (g : Access σ) (settings : Settings) (stop : Nat → Query σ Bool)
    (counters : Counters) : StateM σ (Outcome ⊕ Batch) := do
  match ← (Subject.tabulate g settings).run with
  | .error e => return .inl { fault := e, counters }
  | .ok s =>
    let reports := [s.report]
    let counters := { counters with calls := counters.calls + 1 }
    if s.roster.vertices.isEmpty then
      let counters := { counters with cliques := counters.cliques + 1 }
      return .inl { cliques := [[]], counters, reports }
    let split := (Subject.plan settings).topBranches s.roster.vertices
    match ← Searching.askFrom (split.finish (s.conductor g stop)) { counters } with
    | (.error e, _) => return .inl { fault := e, counters, reports }
    | (.ok none, _) => return .inl { fault := some (.cancelled []), counters, reports }
    | (.ok (some roots), _) =>
      let counters := { counters with branches := counters.branches + roots.length }
      if let .error e := settings.requireWorkers then
        return .inl { fault := e, counters, reports }
      return .inr { subject := s, roots, counters, reports }

/-- Delivers the set of the maximal cliques, branch by branch. -/
def enumerateInBranches (g : Access σ) (settings : Settings) (stop : Nat → Query σ Bool)
    (discipline : Discipline) (counters : Counters) : StateM σ Outcome := do
  match ← prepareBranches g settings stop counters with
  | .inl outcome => return outcome
  | .inr batch =>
    let (branches, polls) ←
      batch.subject.runBranches g settings stop discipline batch.roots false 0
    return .ofBranches batch.counters polls batch.reports branches

end MaximalCliques
