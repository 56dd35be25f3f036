import MaximalCliques.Enumeration.Sequential

/-!
# Enumerations that are resumed

An enumeration may be held open: each time it is resumed it delivers one clique.  Nothing runs before
the first time.

* **`OpenEnumeration`** — where it stands.
* **`OpenEnumeration.resume`** — delivers the next clique, or tells that there is none; after a fault
  the enumeration has ended.
* **`OpenEnumeration.exhaust`** — lets all cliques that are still to come pass.
-/

namespace MaximalCliques

/-- Where an enumeration that is held open stands. -/
inductive OpenEnumeration where
  | notStarted
  | suspended (subject : Subject) (rest : Run Vertex Unit) (progress : Progress)
  | ended

/-- What happens when an enumeration is resumed. -/
structure Resumption where
  /-- The next clique, or that there is none. -/
  answer : Except Fault (Option Clique)
  state : OpenEnumeration
  counters : Counters
  reports : List Report := []
  /-- The cliques that were let pass. -/
  passed : List Clique := []

variable {σ : Type}

namespace OpenEnumeration

/-- What happens at the end of a search, whose result is absent if it was stopped. -/
def close (reports : List Report) (p : Progress) : Except Fault (Option Unit) → Resumption
  | .ok (some ()) => { answer := .ok none, state := .ended, counters := p.counters, reports }
  | .ok none =>
    { answer := .error (.cancelled []), state := .ended, counters := p.counters
      reports := reports ++ [.cancelled p.counters.cliques] }
  | .error e => { answer := .error e, state := .ended, counters := p.counters, reports }

def proceed (s : Subject) (g : Access σ) (stop : Nat → Query σ Bool) (reports : List Report)
    (rest : Run Vertex Unit) (p : Progress) : StateM σ Resumption := do
  let (answer, p) ← Searching.askFrom (rest.next (s.conductor g stop)) p
  return match answer with
    | .ok (.clique c rest) =>
      { answer := .ok (some c), state := .suspended s rest p, counters := p.counters, reports }
    | .ok (.done ()) => close reports p (.ok (some ()))
    | .ok .stopped => close reports p (.ok none)
    | .error e => close reports p (.error e)

def conclude (s : Subject) (g : Access σ) (stop : Nat → Query σ Bool) (reports : List Report)
    (rest : Run Vertex Unit) (p : Progress) : StateM σ Resumption := do
  let (answer, p) ← Searching.askFrom (rest.finish (s.conductor g stop)) { p with found := [] }
  return { close reports p answer with passed := p.found.reverse }

/-- Goes on with an enumeration; `counters` are counted on, and `conduct` conducts the search. -/
def goOn (conduct : Subject → List Report → Run Vertex Unit → Progress → StateM σ Resumption)
    (g : Access σ) (settings : Settings) (counters : Counters) :
    OpenEnumeration → StateM σ Resumption
  | notStarted => do
    match ← (Subject.tabulate g settings).run with
    | .error e => return { answer := .error e, state := .ended, counters }
    | .ok s => conduct s [s.report] (s.search settings) { counters }
  | suspended s rest p => conduct s [] rest { p with counters }
  | ended => return { answer := .ok none, state := .ended, counters }

def resume (g : Access σ) (settings : Settings) (stop : Nat → Query σ Bool) (counters : Counters) :
    OpenEnumeration → StateM σ Resumption :=
  goOn (proceed · g stop) g settings counters

def exhaust (g : Access σ) (settings : Settings) (stop : Nat → Query σ Bool) (counters : Counters) :
    OpenEnumeration → StateM σ Resumption :=
  goOn (conclude · g stop) g settings counters

end OpenEnumeration

end MaximalCliques
