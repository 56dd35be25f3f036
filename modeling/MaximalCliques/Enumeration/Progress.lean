import MaximalCliques.Counters
import MaximalCliques.Enumeration.Vertex
import MaximalCliques.Graph.Oracle
import MaximalCliques.Search.Conductor
import MaximalCliques.Search.Plan
import MaximalCliques.Search.Stack
import MaximalCliques.Settings

/-!
# The progress of a search on a graph

The clique neighbours of a node are the nodes among its neighbours, the node itself apart, that the
oracle holds adjacent to it both ways.

* **`cliqueNeighbours`**, **`neighbourhood`** — the clique neighbours of a node, and the same as a
  neighbourhood of listed vertices.
* **`Progress`** — the counters, the polls of the stop check, the neighbourhoods asked for so far, and
  the cliques delivered.
* **`Subject`** — a graph with its oracle and its roster.
* **`Subject.conductor`** — answers a search from the graph and keeps its progress.
* **`Subject.search`** — the search that the settings ask for.
-/

namespace MaximalCliques

/-- A set of identifiers as a neighbourhood; members that are not listed count for its size only. -/
def Hood.ofMembers (roster : Roster) (members : List Identifier) : Hood Vertex :=
  let spelling : Std.HashMap Nat Identifier := members.foldl (fun m x =>
    match roster.placeOf[x]? with
    | some k => m.insert k x
    | none => m) ∅
  { size := members.length
    find? := fun u => spelling[u.place]?.map fun x => { u with node := x } }

variable {σ : Type}

/-- The clique neighbours of a node, each in its first spelling. -/
def cliqueNeighbours (g : Access σ) (o : Oracle) (v : Identifier) : Query σ (List Identifier) := do
  let items ← g.neighbours v
  let mutuals ← g.foldItems (fun kept u => do
    if u == v then return kept
    if ← Query.ofExcept (o.isMutuallyAdjacent u v) then return u :: kept else return kept) [] items
  return Identifier.distinct mutuals.reverse

def neighbourhood (g : Access σ) (o : Oracle) (roster : Roster) (v : Vertex) :
    Query σ (Hood Vertex) := do
  return .ofMembers roster (← cliqueNeighbours g o v.node)

/-! ### Progress -/

structure Progress where
  counters : Counters := {}
  /-- How often the stop check has been polled. -/
  polls : Nat := 0
  /-- The neighbourhoods that have been asked for, by place. -/
  hoods : Std.HashMap Nat (Hood Vertex) := ∅
  /-- The cliques delivered, the last one first. -/
  found : List Clique := []

/-- A question asked in the course of a search. -/
abbrev Searching (σ : Type) := Query (Progress × σ)

def Query.during {σ τ α : Type} (q : Query σ α) : Query (τ × σ) α :=
  ExceptT.mk fun (t, s) =>
    let (answer, s) := q.run s
    (answer, (t, s))

/-- A graph that has been tabulated. -/
structure Subject where
  oracle : Oracle
  roster : Roster

namespace Subject

variable {σ : Type}

def tabulate (g : Access σ) (settings : Settings) : Query σ Subject := do
  let oracle ← Oracle.build g (← Query.ofExcept settings.capacity)
  let roster ← Roster.gather g
  return { oracle, roster }

/-- Fails to count for this reason, once a graph has been tabulated. -/
def failUncounted {α : Type} (g : Access σ) (settings : Settings) (reason : Fault) : Query σ α := do
  let _ ← tabulate g settings
  throw reason

def hoodOf (s : Subject) (g : Access σ) (v : Vertex) : Searching σ (Hood Vertex) := do
  match (← get).1.hoods[v.place]? with
  | some h => return h
  | none =>
    let h ← Query.during (neighbourhood g s.oracle s.roster v)
    modify fun (p, w) => ({ p with hoods := p.hoods.insert v.place h }, w)
    return h

/-- Answers a search from the graph; `stop k` asks the stop check after `k` polls.  A poll counts even
if it is not answered. -/
def conductor (s : Subject) (g : Access σ) (stop : Nat → Query σ Bool) :
    Conductor (Searching σ) Vertex where
  hood := s.hoodOf g
  visit _ := modify fun (p, w) =>
    ({ p with counters := { p.counters with calls := p.counters.calls + 1 } }, w)
  mayBranch _ _ := do
    let polls := (← get).1.polls
    modify fun (p, w) => ({ p with polls := polls + 1 }, w)
    if ← Query.during (stop polls) then return false
    modify fun (p, w) =>
      ({ p with counters := { p.counters with branches := p.counters.branches + 1 } }, w)
    return true
  emit clique := modify fun (p, w) => ({ p with
    counters := { p.counters with cliques := p.counters.cliques + 1 }
    found := clique :: p.found }, w)

/-- How the settings ask for the work to be done. -/
def plan (settings : Settings) : Plan Vertex := ⟨settings.usesPivot, Vertex.le⟩

def searchBelow (settings : Settings) (node : SearchNode Vertex) : Run Vertex Unit :=
  if settings.usesStack then (plan settings).expandStack node (.done ())
  else (plan settings).expand node (.done ())

def search (s : Subject) (settings : Settings) : Run Vertex Unit :=
  searchBelow settings ⟨[], s.roster.vertices, []⟩

end Subject

end MaximalCliques
