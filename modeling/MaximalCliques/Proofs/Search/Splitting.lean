import MaximalCliques.Proofs.Search.Requests
import MaximalCliques.Search.Plan

/-!
# Splitting the root of a search

Splitting the root asks for neighbourhoods only and gives the nodes below the root, as the search from
the root reaches them.  What happens below the root is what happens below these nodes, one after the
other, and a poll before each.

* **`Plan.topNodes`** — the nodes below the root, given the neighbourhoods.
* **`Plan.delivered_root`**, **`Plan.tally_root`** — what is delivered and counted below the root.
* **`Plan.topBranches_mirrors`** — corresponding roots are split alike.
* **`Run.trail_of_polls_eq_zero`** — a search without polls cannot be stopped.
-/

namespace MaximalCliques

variable {α κ β : Type}

/-- A search that makes no polls passes through all its events, whatever the stop check would say. -/
theorem Run.trail_of_polls_eq_zero {hoods : α → Hood α} {run : Run α β}
    (h : Event.polls (run.events hoods) = 0) (stop : Nat → Bool) (polls : Nat) :
    run.trail hoods stop polls = (run.events hoods, some (run.result hoods)) :=
  trail_unstopped fun k hk => absurd hk (by omega)

namespace Plan

/-! ### The nodes below the root -/

/-- The nodes below the candidates `todo` of the root. -/
def nodesAlong (hoods : α → Hood α) (kept : List α) : List α → List α → List (SearchNode α)
  | [], _ => []
  | v :: rest, X =>
    .child [] v (rest ++ kept) X (hoods v) :: nodesAlong hoods kept rest (v :: X)

def topNodes (plan : Plan α) (hoods : α → Hood α) (P : List α) : List (SearchNode α) :=
  let s := plan.parted hoods P []
  nodesAlong hoods s.kept s.todo []

/-- **A node below the root** has one committed vertex, and its candidates are found in the neighbourhood
of this vertex. -/
theorem exists_of_mem_nodesAlong {hoods : α → Hood α} {kept todo X : List α} {n : SearchNode α}
    (h : n ∈ nodesAlong hoods kept todo X) : ∃ v ∈ todo, ∃ others Y,
      (∀ u ∈ others, u ∈ todo ++ kept) ∧ n = .child [] v others Y (hoods v) := by
  induction todo generalizing X with
  | nil => exact absurd h List.not_mem_nil
  | cons v rest ih =>
    rcases List.mem_cons.1 h with rfl | h
    · exact ⟨v, List.mem_cons_self, rest ++ kept, X, fun u hu => List.mem_cons_of_mem v hu, rfl⟩
    · obtain ⟨u, hu, others, Y, hothers, rfl⟩ := ih h
      exact ⟨u, List.mem_cons_of_mem v hu, others, Y,
        fun x hx => List.mem_cons_of_mem v (hothers x hx), rfl⟩

theorem exists_of_mem_topNodes {plan : Plan α} {hoods : α → Hood α} {P : List α} {n : SearchNode α}
    (h : n ∈ plan.topNodes hoods P) : ∃ v ∈ P, ∃ others Y,
      (∀ u ∈ others, u ∈ P) ∧ n = .child [] v others Y (hoods v) := by
  obtain ⟨v, hv, others, Y, hothers, rfl⟩ := exists_of_mem_nodesAlong h
  have hperm := (plan.parted hoods P []).perm
  exact ⟨v, hperm.subset (List.mem_append_left _ hv), others, Y,
    fun u hu => hperm.subset (hothers u hu), rfl⟩

theorem events_nodesBelow (hoods : α → Hood α) (kept todo X : List α)
    (earlier : List (SearchNode α)) : (nodesBelow kept todo X earlier).events hoods = [] := by
  induction todo generalizing X earlier with
  | nil => rfl
  | cons v rest ih => exact ih _ _

theorem result_nodesBelow (hoods : α → Hood α) (kept todo X : List α)
    (earlier : List (SearchNode α)) :
    (nodesBelow kept todo X earlier).result hoods
      = earlier.reverse ++ nodesAlong hoods kept todo X := by
  induction todo generalizing X earlier with
  | nil => exact (List.append_nil _).symm
  | cons v rest ih =>
    refine (ih _ _).trans ?_
    rw [List.reverse_cons, List.append_assoc, List.singleton_append]
    rfl

theorem events_topBranches (plan : Plan α) (hoods : α → Hood α) (P : List α) :
    (plan.topBranches P).events hoods = [] := by
  rw [topBranches, events_choose, events_nodesBelow]

/-- **Splitting the root** gives the nodes below it. -/
theorem result_topBranches (plan : Plan α) (hoods : α → Hood α) (P : List α) :
    (plan.topBranches P).result hoods = plan.topNodes hoods P := by
  rw [topBranches, result_choose, result_nodesBelow]
  rfl

/-! ### What happens below the root -/

/-- **Along candidates of the root** is seen what is seen below each of the top nodes, but for the polls. -/
theorem filterMap_along_nodes {β : Type} (see : Event α → Option β)
    (hpoll : ∀ n v goOn, see (.poll n v goOn) = none) (plan : Plan α) (hoods : α → Hood α)
    (todo kept X : List α) : (plan.along hoods [] todo kept X).filterMap see
      = (nodesAlong hoods kept todo X).flatMap fun n => (plan.below hoods n).filterMap see := by
  induction todo generalizing X with
  | nil => rw [along_nil]; rfl
  | cons v rest ih =>
    rw [along_cons, List.filterMap_cons_none (hpoll _ v true), List.filterMap_append, ih, nodesAlong,
      List.flatMap_cons]

/-- What is counted along some nodes: a branch for each of them, and what is counted below it. -/
def tallyOf (plan : Plan α) (hoods : α → Hood α) (nodes : List (SearchNode α)) : Counters :=
  nodes.foldr (fun n c => { branches := 1 } + (Event.tally (plan.below hoods n) + c)) {}

theorem tally_along_nodes (plan : Plan α) (hoods : α → Hood α) (todo kept X : List α) :
    Event.tally (plan.along hoods [] todo kept X)
      = plan.tallyOf hoods (nodesAlong hoods kept todo X) := by
  induction todo generalizing X with
  | nil => rw [along_nil]; rfl
  | cons v rest ih =>
    rw [along_cons, Event.tally_cons, Event.tally_append, ih]
    rfl

variable {plan : Plan α} {hoods : α → Hood α} {P : List α}

theorem below_root (hP : P ≠ []) : plan.below hoods ⟨[], P, []⟩ = .visit ⟨[], P, []⟩ ::
    plan.along hoods [] (plan.parted hoods P []).todo (plan.parted hoods P []).kept [] := by
  have hmaximal : (⟨[], P, []⟩ : SearchNode α).isMaximal = false := by
    simp [SearchNode.isMaximal, hP]
  rw [below_eq, hmaximal]
  rfl

/-- **Below the root is delivered what is delivered below its branches**, in their order. -/
theorem delivered_root (hP : P ≠ []) : Event.delivered (plan.below hoods ⟨[], P, []⟩)
    = (plan.topNodes hoods P).flatMap fun n => Event.delivered (plan.below hoods n) := by
  rw [below_root hP, Event.delivered_visit]
  exact filterMap_along_nodes Event.clique? (fun _ _ _ => rfl) plan hoods _ _ []

/-- **Below the root is counted what is counted below its branches**, the branches and one call. -/
theorem tally_root (hP : P ≠ []) : Event.tally (plan.below hoods ⟨[], P, []⟩)
    = { calls := 1 } + plan.tallyOf hoods (plan.topNodes hoods P) := by
  rw [below_root hP, Event.tally_cons, tally_along_nodes]
  rfl

/-! ### Corresponding roots -/

section Mirrors

variable {f : α → κ} {S : α → Prop} {hoods' : κ → Hood κ} {plan' : Plan κ}

/-- Lists of nodes that correspond, and whose vertices are in `S`. -/
def Corresponding (f : α → κ) (S : α → Prop) (ns : List (SearchNode α)) (ns' : List (SearchNode κ)) :
    Prop := ns' = ns.map (SearchNode.map f) ∧ ∀ n ∈ ns, n.Within S

theorem nodesBelow_mirrors (hh : ∀ v, S v → (hoods v).Mirrors f S (hoods' (f v)))
    {kept todo X : List α} {earlier : List (SearchNode α)} (hkept : ∀ u ∈ kept, S u)
    (htodo : ∀ u ∈ todo, S u) (hX : ∀ u ∈ X, S u) (hearlier : ∀ n ∈ earlier, n.Within S) :
    (nodesBelow kept todo X earlier).Mirrors f S hoods hoods' (Corresponding f S)
      (nodesBelow (kept.map f) (todo.map f) (X.map f) (earlier.map (SearchNode.map f))) := by
  induction todo generalizing X earlier with
  | nil =>
    refine .done ⟨List.map_reverse.symm, fun n hn => hearlier n (List.mem_reverse.1 hn)⟩
  | cons v rest ih =>
    have hv := htodo v List.mem_cons_self
    have hrest : ∀ u ∈ rest, S u := fun u hu => htodo u (List.mem_cons_of_mem v hu)
    have hothers : ∀ u ∈ rest ++ kept, S u := fun u hu =>
      (List.mem_append.1 hu).elim (hrest u) (hkept u)
    refine .ask hv ?_
    have hchild := child_map (R := []) (v := v) (hh v hv) hothers hX
    rw [List.map_nil, List.map_append] at hchild
    rw [hchild, ← List.map_cons, ← List.map_cons]
    refine ih hrest (fun u hu => ?_) (fun n hn => ?_)
    · rcases List.mem_cons.1 hu with rfl | hu
      · exact hv
      · exact hX u hu
    · rcases List.mem_cons.1 hn with rfl | hn
      · exact child_within (hh v hv) (fun u hu => absurd hu List.not_mem_nil) hv hothers hX
      · exact hearlier n hn

/-- **Corresponding roots are split alike.** -/
theorem topBranches_mirrors (hp : plan.Agrees f S plan')
    (hh : ∀ v, S v → (hoods v).Mirrors f S (hoods' (f v))) (hP : ∀ u ∈ P, S u) :
    (plan.topBranches P).Mirrors f S hoods hoods' (Corresponding f S)
      (plan'.topBranches (P.map f)) := by
  refine choose_mirrors hp hh hP (fun u hu => absurd hu List.not_mem_nil) ?_
  intro s s' htodo hkept
  rw [htodo, hkept]
  have hs : ∀ u ∈ s.todo ++ s.kept, S u := fun u hu => hP u (s.perm.mem_iff.1 hu)
  exact nodesBelow_mirrors hh (fun u hu => hs u (List.mem_append_right _ hu))
    (fun u hu => hs u (List.mem_append_left _ hu)) (fun u hu => absurd hu List.not_mem_nil)
    (fun n hn => absurd hn List.not_mem_nil)

end Mirrors

end Plan

end MaximalCliques
