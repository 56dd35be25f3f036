import MaximalCliques.Search.Run

/-!
# Conducting a search

* **`Conductor`** — whoever answers the requests of a search.
* **`Run.step`** — answers the first request of a search; nothing is left of it if it is stopped.
* **`Run.finish`** — conducts a search to its end; no result if it is stopped.
* **`Run.next`** — conducts a search up to the next clique that it delivers.
-/

namespace MaximalCliques

/-- Answers the requests of a search. -/
structure Conductor (m : Type → Type) (α : Type) where
  hood : α → m (Hood α)
  visit : SearchNode α → m Unit
  /-- Whether the search may go on and expand the vertex. -/
  mayBranch : SearchNode α → α → m Bool
  emit : List α → m Unit

/-- Where a search that is conducted step by step stands. -/
inductive Pause (α β : Type) where
  | clique (clique : List α) (rest : Run α β)
  | done (result : β)
  | stopped

namespace Run

variable {m : Type → Type} [Monad m] {α β : Type}

/-- Answers the first request of a search and leaves the rest. -/
def step (c : Conductor m α) : Run α β → m (Option (Run α β))
  | done b => pure (some (done b))
  | ask v resume => do return some (resume (← c.hood v))
  | visit node rest => do
    c.visit node
    return some rest
  | branch node v rest => do if ← c.mayBranch node v then return some rest else return none
  | emit clique rest => do
    c.emit clique
    return some rest

def finish (c : Conductor m α) : Run α β → m (Option β)
  | done b => pure (some b)
  | ask v resume => do (resume (← c.hood v)).finish c
  | visit node rest => do
    c.visit node
    rest.finish c
  | branch node v rest => do if ← c.mayBranch node v then rest.finish c else pure none
  | emit clique rest => do
    c.emit clique
    rest.finish c

def next (c : Conductor m α) : Run α β → m (Pause α β)
  | done b => pure (.done b)
  | ask v resume => do (resume (← c.hood v)).next c
  | visit node rest => do
    c.visit node
    rest.next c
  | branch node v rest => do if ← c.mayBranch node v then rest.next c else pure .stopped
  | emit clique rest => do
    c.emit clique
    return .clique clique rest

end Run

end MaximalCliques
