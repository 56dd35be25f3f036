/-!
# Searches as requests

A search is written as the requests that it makes, one after the other: it asks for the
neighbourhood of a vertex, announces a search node, announces that it is about to expand a candidate,
and delivers a clique.  Whoever conducts the search answers the requests and may stop it wherever it
is about to expand a candidate.

* **`Hood`** — a neighbourhood, as the answer to a request.
* **`SearchNode`** — the committed vertices, the candidates and the excluded vertices of a search node.
* **`Run`** — searches.
* **`Run.trail`** — what happens when the neighbourhoods and the answers to the polls are given: the
  events in order, and the result unless the search was stopped.
-/

namespace MaximalCliques

/-- The neighbourhood of a vertex: how many members it has, and for each vertex that is a member the
member itself, which may be another spelling of the vertex. -/
structure Hood (α : Type) where
  size : Nat
  find? : α → Option α

namespace Hood

variable {α : Type}

def has (h : Hood α) (u : α) : Bool := (h.find? u).isSome

/-- The members among `us`, which stand for a set of `among` vertices.  The smaller of the two sets
gives the spelling; of two equally large ones, the neighbourhood. -/
def meet (h : Hood α) (among : Nat) (us : List α) : List α :=
  us.filterMap fun u => (h.find? u).map fun w => if among < h.size then u else w

theorem length_meet_le (h : Hood α) (among : Nat) (us : List α) :
    (h.meet among us).length ≤ us.length := List.length_filterMap_le ..

end Hood

structure SearchNode (α : Type) where
  /-- The vertices of the clique under construction, the last one first. -/
  committed : List α
  /-- The vertices that may extend it. -/
  candidates : List α
  /-- The vertices that could extend it but whose cliques have been delivered already. -/
  excluded : List α
deriving DecidableEq, Repr

namespace SearchNode

variable {α : Type}

/-- The node reached by committing to `v` beside the other candidates `rest`. -/
def child (R : List α) (v : α) (rest X : List α) (h : Hood α) : SearchNode α :=
  ⟨v :: R, h.meet (rest.length + 1) rest, h.meet X.length X⟩

def isMaximal (n : SearchNode α) : Bool := n.candidates.isEmpty && n.excluded.isEmpty

theorem length_candidates_child (R : List α) (v : α) (rest X : List α) (h : Hood α) :
    (child R v rest X h).candidates.length ≤ rest.length := h.length_meet_le ..

end SearchNode

/-- A search over vertices `α` with a result in `β`. -/
inductive Run (α β : Type) where
  | done (result : β)
  /-- Asks for the neighbourhood of a vertex. -/
  | ask (v : α) (resume : Hood α → Run α β)
  /-- Announces a search node. -/
  | visit (node : SearchNode α) (rest : Run α β)
  /-- Announces that `v` is to be expanded at a node, as it stands; here the search may be stopped. -/
  | branch (node : SearchNode α) (v : α) (rest : Run α β)
  /-- Delivers a clique. -/
  | emit (clique : List α) (rest : Run α β)

/-- What can be observed of a search. -/
inductive Event (α : Type) where
  | visit (node : SearchNode α)
  /-- The poll before `v` is expanded, and whether its answer was to go on. -/
  | poll (node : SearchNode α) (v : α) (goOn : Bool)
  | emit (clique : List α)
deriving DecidableEq, Repr

namespace Run

variable {α β : Type}

/-- The events of a search and its result, when `hoods` are the neighbourhoods and `stop k` is the
answer to the poll after `k` earlier ones.  A stopped search has no result. -/
def trail (hoods : α → Hood α) (stop : Nat → Bool) (polls : Nat) :
    Run α β → List (Event α) × Option β
  | done b => ([], some b)
  | ask v resume => (resume (hoods v)).trail hoods stop polls
  | visit node rest =>
    let (events, result) := rest.trail hoods stop polls
    (.visit node :: events, result)
  | branch node v rest =>
    if stop polls then ([.poll node v false], none)
    else
      let (events, result) := rest.trail hoods stop (polls + 1)
      (.poll node v true :: events, result)
  | emit clique rest =>
    let (events, result) := rest.trail hoods stop polls
    (.emit clique :: events, result)

def askAll : List α → (List (Hood α) → Run α β) → Run α β
  | [], k => k []
  | u :: us, k => ask u fun h => askAll us fun hs => k (h :: hs)

end Run

end MaximalCliques
