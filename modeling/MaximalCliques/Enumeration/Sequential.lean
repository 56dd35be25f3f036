import MaximalCliques.Enumeration.Progress
import MaximalCliques.Enumeration.Report

/-!
# Enumerating maximal cliques

* **`Outcome`** — how an enumeration ended: the cliques delivered, the fault if there was one, the
  counters, the number of polls and the reports.
* **`iterate`** — delivers the cliques in the order of their discovery.
* **`enumerate`** — delivers them as a set; a stopped enumeration hands over the cliques found.
-/

namespace MaximalCliques

/-- How an enumeration ended. -/
structure Outcome where
  /-- The cliques delivered: in the order of discovery, or as a set. -/
  cliques : List Clique := []
  fault : Option Fault := none
  counters : Counters
  polls : Nat := 0
  reports : List Report := []

/-- A question asked in the course of a search, put with the progress made so far. -/
def Searching.askFrom {σ α : Type} (q : Searching σ α) (p : Progress) :
    StateM σ (Except Fault α × Progress) := fun w =>
  let (answer, (p, w)) := q.run (p, w)
  ((answer, p), w)

namespace Subject

def report (s : Subject) : Report := .oracleBuilt s.oracle.bound s.oracle.edgeCount

end Subject

variable {σ : Type}

/-- Delivers the maximal cliques in the order of their discovery.  `counters` are counted on. -/
def iterate (g : Access σ) (settings : Settings) (stop : Nat → Query σ Bool)
    (counters : Counters) : StateM σ Outcome := do
  match ← (Subject.tabulate g settings).run with
  | .error e => return { fault := e, counters }
  | .ok s =>
    let (answer, p) ← Searching.askFrom ((s.search settings).finish (s.conductor g stop)) { counters }
    let outcome : Outcome :=
      { cliques := p.found.reverse, counters := p.counters, polls := p.polls, reports := [s.report] }
    return match answer with
      | .ok (some ()) => outcome
      | .ok none => { outcome with
        fault := some (.cancelled [])
        reports := outcome.reports ++ [.cancelled p.counters.cliques] }
      | .error e => { outcome with fault := some e }

/-- The outcome of an enumeration whose cliques are handed over as a set. -/
def Outcome.asSet (o : Outcome) : Outcome :=
  let cliques := Clique.collect o.cliques
  match o.fault with
  | none => { o with
    cliques
    reports := o.reports ++ [.enumerated cliques.length o.counters.calls o.counters.branches] }
  | some (.cancelled _) => { o with cliques, fault := some (.cancelled (cliques.map Clique.nodes)) }
  | some _ => { o with cliques }

def enumerate (g : Access σ) (settings : Settings) (stop : Nat → Query σ Bool)
    (counters : Counters) : StateM σ Outcome := do return (← iterate g settings stop counters).asSet

end MaximalCliques
