import MaximalCliques.Search.Run

/-!
# Plans and the recursive search

* **`Plan`** — the order in which vertices are taken and whether a pivot is used.
* **`Split`** — the candidates of a node, parted into those to branch on and the others.
* **`Plan.choose`** — the split of a node.  With a pivot, a vertex with as many candidates for
  neighbours as any, the pivot's neighbours are not branched on: a maximal clique without the pivot
  holds a vertex that is not its neighbour.
* **`Plan.enter`** — announces a node; delivers its clique if nothing can extend it and splits its
  candidates otherwise.
* **`Plan.explore`** — goes through the candidates of a node one after the other; a candidate that has
  been expanded becomes excluded.
* **`Plan.expand`** — searches below a node.
* **`Plan.topBranches`** — the nodes below the root of a search, each with the candidates and the
  excluded vertices that it has when the search from the root reaches it.

The recursive search assumes that nested calls meet no limit; `Search/Stack` needs no such assumption.
-/

namespace MaximalCliques

/-- How a search goes about its work. -/
structure Plan (α : Type) where
  pivot : Bool
  /-- The order of the vertices. -/
  le : α → α → Bool

/-- The candidates `P`, parted into those to branch on, in order, and the others. -/
structure Split {α : Type} (P : List α) where
  todo : List α
  kept : List α
  perm : (todo ++ kept).Perm P

theorem Split.length_eq {α : Type} {P : List α} (s : Split P) :
    s.todo.length + s.kept.length = P.length := by
  rw [← List.length_append, s.perm.length_eq]

namespace Plan

variable {α β : Type}

def ordered (plan : Plan α) (us : List α) : List α := us.mergeSort plan.le

def everyone (plan : Plan α) (P : List α) : Split P where
  todo := plan.ordered P
  kept := []
  perm := by rw [List.append_nil]; exact List.mergeSort_perm ..

/-- The candidates outside a neighbourhood are branched on. -/
def outside (plan : Plan α) (h : Hood α) (P : List α) : Split P where
  todo := (plan.ordered P).filter fun u => !h.has u
  kept := (plan.ordered P).filter h.has
  perm := (List.perm_append_comm.trans (List.filter_append_perm ..)).trans (List.mergeSort_perm ..)

/-- The best neighbourhood so far and how many members it has among `P`, or another one that has more. -/
def wider (P : List α) (best : Option (Nat × Hood α)) (h : Hood α) : Option (Nat × Hood α) :=
  let n := P.countP h.has
  match best with
  | some (m, g) => if m < n then some (n, h) else some (m, g)
  | none => some (n, h)

/-- The first of the neighbourhoods with the most members among `P`. -/
def widest (P : List α) (hoods : List (Hood α)) : Option (Hood α) :=
  (hoods.foldl (wider P) none).map (·.2)

def choose (plan : Plan α) (P X : List α) (k : Split P → Run α β) : Run α β :=
  if plan.pivot && !P.isEmpty then
    Run.askAll (plan.ordered (P ++ X)) fun hoods =>
      match widest P hoods with
      | some h => k (plan.outside h P)
      | none => k (plan.everyone P)
  else k (plan.everyone P)

/-- Announces a node, then delivers its clique or goes through its candidates. -/
def enter (plan : Plan α) (node : SearchNode α) (next : Run α β)
    (loop : Split node.candidates → Run α β) : Run α β :=
  .visit node <|
    if node.isMaximal then .emit node.committed next
    else plan.choose node.candidates node.excluded loop

/-! ### The recursive search -/

/-- Expands the candidates `todo` of a node in turn, beside the candidates `kept`, and then goes on
with `next`. -/
def explore (plan : Plan α) (R todo kept X : List α) (next : Run α β) : Run α β :=
  match todo with
  | [] => next
  | v :: rest =>
    .branch ⟨R, v :: rest ++ kept, X⟩ v <| .ask v fun h =>
      let node := SearchNode.child R v (rest ++ kept) X h
      let after := plan.explore R rest kept (v :: X) next
      plan.enter node after fun s => plan.explore node.committed s.todo s.kept node.excluded after
termination_by todo.length + kept.length
decreasing_by
  · simp only [List.length_cons]; omega
  · have hs := s.length_eq
    have hc : node.candidates.length ≤ (rest ++ kept).length :=
      SearchNode.length_candidates_child ..
    rw [List.length_append] at hc
    rw [List.length_cons]
    omega

/-- Searches below a node and then goes on with `next`.  It is assumed that there is no limit to the
recursion, which goes as deep as the largest clique below the node; where calls may only be nested so
many times, a search that would pass the limit fails instead. -/
def expand (plan : Plan α) (node : SearchNode α) (next : Run α β) : Run α β :=
  plan.enter node next fun s => plan.explore node.committed s.todo s.kept node.excluded next

/-! ### Independent branches -/

/-- The nodes below the candidates `todo` of the root, after those in `earlier`, last one first. -/
def nodesBelow (kept : List α) :
    List α → List α → List (SearchNode α) → Run α (List (SearchNode α))
  | [], _, earlier => .done earlier.reverse
  | v :: rest, X, earlier => .ask v fun h =>
    nodesBelow kept rest (v :: X) (SearchNode.child [] v (rest ++ kept) X h :: earlier)

def topBranches (plan : Plan α) (P : List α) : Run α (List (SearchNode α)) :=
  plan.choose P [] fun s => nodesBelow s.kept s.todo [] []

end Plan

end MaximalCliques
