import MaximalCliques.Proofs.Search.Splitting

/-!
# Invariants of a search

What a search keeps when it goes below a candidate and when it excludes one holds at every node that it
reaches, and at every node as it stands when a candidate is polled for.

* **`SearchNode.IsInvariant`** — what a search keeps, step by step.
* **`SearchNode.KeepsAt`**, **`Event.Upholds`** — what an event shows of an invariant.
* **`Plan.search_upholds`** — below a node, and along candidates, every event upholds an invariant.
* **`Plan.topNodes_uphold`** — so do the nodes below the root.
* **`Run.Upholds`** — what a search shows of an invariant where it stands, before its next event.
* **`SearchNode.IsInvariant.comap`** — what a search keeps, a search that mirrors it keeps as well.
-/

namespace MaximalCliques

variable {α κ β : Type} {hoods : α → Hood α} {p : SearchNode α → Prop}

/-- **An invariant of a search** whose neighbourhoods are `hoods`: it is kept below a candidate, and when
this candidate has been excluded, and the order of the candidates does not matter to it. -/
structure SearchNode.IsInvariant (hoods : α → Hood α) (p : SearchNode α → Prop) : Prop where
  child : ∀ R v others X, p ⟨R, v :: others, X⟩ → p (.child R v others X (hoods v))
  exclude : ∀ R v others X, p ⟨R, v :: others, X⟩ → p ⟨R, others, v :: X⟩
  perm : ∀ R P Q X, Q.Perm P → p ⟨R, P, X⟩ → p ⟨R, Q, X⟩

/-- **A node keeps an invariant at a candidate**: it has it as it stands, and has it when the candidate, the
first one, has been excluded. -/
def SearchNode.KeepsAt (p : SearchNode α → Prop) (n : SearchNode α) (v : α) : Prop :=
  p n ∧ ∃ others, n.candidates = v :: others ∧ p ⟨n.committed, others, v :: n.excluded⟩

/-- **What an event shows of an invariant**: a node that is visited has it, and a node with a candidate that is
polled for keeps it there. -/
def Event.Upholds (p : SearchNode α → Prop) : Event α → Prop
  | visit n => p n
  | poll n v _ => n.KeepsAt p v
  | emit _ => True

namespace Plan

variable (hp : SearchNode.IsInvariant hoods p)
include hp

/-- **Below a node that has an invariant** every event upholds it, and so does every event along the
candidates of such a node. -/
theorem search_upholds (plan : Plan α) :
    (∀ n, p n → ∀ e ∈ plan.below hoods n, e.Upholds p) ∧
    ∀ R todo kept X, p ⟨R, todo ++ kept, X⟩ → ∀ e ∈ plan.along hoods R todo kept X, e.Upholds p := by
  apply SearchNode.induction
  case node =>
    intro n hloop hn
    rw [below_eq]
    refine List.forall_mem_cons.2 ⟨hn, ?_⟩
    split
    · exact List.forall_mem_singleton.2 trivial
    · exact hloop _ (hp.perm _ _ _ _ (plan.parted hoods n.candidates n.excluded).perm hn)
  case nil =>
    intro R kept X _
    rw [along_nil]
    exact fun e he => absurd he List.not_mem_nil
  case cons =>
    intro R v rest kept X hchild hrest hn
    rw [along_cons]
    have hexcluded := hp.exclude R v (rest ++ kept) X hn
    refine List.forall_mem_cons.2 ⟨⟨hn, rest ++ kept, rfl, hexcluded⟩, ?_⟩
    exact List.forall_mem_append.2 ⟨hchild _ (hp.child R v (rest ++ kept) X hn), hrest hexcluded⟩

theorem nodesAlong_uphold {todo kept X : List α} (h : p ⟨[], todo ++ kept, X⟩) :
    ∀ n ∈ nodesAlong hoods kept todo X, p n := by
  induction todo generalizing X with
  | nil => exact fun n hn => absurd hn List.not_mem_nil
  | cons v rest ih =>
    exact List.forall_mem_cons.2 ⟨hp.child [] v (rest ++ kept) X h, ih (hp.exclude [] v _ X h)⟩

/-- **The nodes below a root that has an invariant** have it. -/
theorem topNodes_uphold (plan : Plan α) {P : List α} (h : p ⟨[], P, []⟩) :
    ∀ n ∈ plan.topNodes hoods P, p n :=
  nodesAlong_uphold hp (hp.perm _ _ _ _ (plan.parted hoods P []).perm h)

end Plan

/-! ### Where a search stands -/

/-- **What a search shows of an invariant where it stands**: a node that is about to be visited has it, and a
node with a candidate that is about to be expanded keeps it there. -/
def Run.Upholds (p : SearchNode α → Prop) : Run α β → Prop
  | .visit n _ => p n
  | .branch n v _ => n.KeepsAt p v
  | _ => True

theorem Run.upholds_of_events {run : Run α β} (h : ∀ e ∈ run.events hoods, e.Upholds p) :
    run.Upholds p := by
  cases run with
  | visit n rest => exact h (.visit n) List.mem_cons_self
  | branch n v rest => exact h (.poll n v true) List.mem_cons_self
  | _ => trivial

theorem Run.Upholds.imp {q : SearchNode α → Prop} {run : Run α β} (h : run.Upholds p)
    (hpq : ∀ n, p n → q n) : run.Upholds q := by
  cases run with
  | visit n rest => exact hpq n h
  | branch n v rest =>
    obtain ⟨hn, others, hothers, hexcluded⟩ := h
    exact ⟨hpq n hn, others, hothers, hpq _ hexcluded⟩
  | _ => trivial

/-! ### Corresponding searches -/

/-- **An invariant of a search is one of every search that mirrors it.** -/
theorem SearchNode.IsInvariant.comap {f : α → κ} {S : α → Prop} {hoods' : κ → Hood κ}
    {q : SearchNode κ → Prop} (hq : IsInvariant hoods' q)
    (hh : ∀ v, S v → (hoods v).Mirrors f S (hoods' (f v))) :
    IsInvariant hoods fun n => n.Within S ∧ q (n.map f) where
  child R v others X := by
    rintro ⟨hn, hqn⟩
    obtain ⟨hv, hothers⟩ := List.forall_mem_cons.1 hn.candidates
    refine ⟨Plan.child_within (hh v hv) hn.committed hv hothers hn.excluded, ?_⟩
    rw [← Plan.child_map (hh v hv) hothers hn.excluded]
    exact hq.child _ _ _ _ hqn
  exclude R v others X := by
    rintro ⟨hn, hqn⟩
    obtain ⟨hv, hothers⟩ := List.forall_mem_cons.1 hn.candidates
    exact ⟨⟨hn.committed, hothers, List.forall_mem_cons.2 ⟨hv, hn.excluded⟩⟩, hq.exclude _ _ _ _ hqn⟩
  perm R P Q X hperm := by
    rintro ⟨hn, hqn⟩
    exact ⟨⟨hn.committed, fun u hu => hn.candidates u (hperm.mem_iff.1 hu), hn.excluded⟩,
      hq.perm _ _ _ _ (hperm.map f) hqn⟩

end MaximalCliques
