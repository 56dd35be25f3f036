import MaximalCliques.Enumeration.Resumable
import MaximalCliques.Proofs.Search.History

/-!
# The search with an explicit stack is the recursive search

A stack whose top frame goes through the candidates of a node makes the requests of the loop over
these candidates, and then those of the stack below.  So the two searches make the same requests in
the same order, and nobody who answers the requests can tell one from the other.

* **`Plan.drain_cons`** — the top frame of a stack.
* **`Plan.expandStack_eq_expand`** — the two searches below a node.
* **`Subject.searchBelow_observed`** — what can be observed of the two searches on a graph.
-/

namespace MaximalCliques

variable {α β : Type}

namespace Plan

@[simp] theorem drain_nil (plan : Plan α) (next : Run α β) : plan.drain [] next = next := by
  rw [drain]

theorem drain_finished (plan : Plan α) (R kept X : List α) (stack : List (Frame α))
    (next : Run α β) :
    plan.drain (⟨R, [], kept, X⟩ :: stack) next = plan.drain stack next := by
  rw [drain]

/-- Nodes are entered alike if the loops over their candidates are alike. -/
theorem enter_congr (plan : Plan α) (n : SearchNode α) (next : Run α β)
    {loop loop' : Split n.candidates → Run α β} (h : ∀ s, loop s = loop' s) :
    plan.enter n next loop = plan.enter n next loop' := by
  rw [funext h]

/-- **The top frame of a stack** makes the requests of the loop over its candidates, and the stack
below it follows.  The candidate that is excluded before its search starts is not looked at there. -/
theorem drain_cons (plan : Plan α) (R todo kept X : List α) (stack : List (Frame α))
    (next : Run α β) :
    plan.drain (⟨R, todo, kept, X⟩ :: stack) next
      = plan.explore R todo kept X (plan.drain stack next) := by
  refine (SearchNode.induction
    (N := fun n => ∀ stack, plan.enter n (plan.drain stack next)
        (fun s => plan.drain (Frame.ofNode n s :: stack) next)
      = plan.expand n (plan.drain stack next))
    (L := fun R todo kept X => ∀ stack, plan.drain (⟨R, todo, kept, X⟩ :: stack) next
      = plan.explore R todo kept X (plan.drain stack next)) ?node ?nil ?cons).2 R todo kept X stack
  case node =>
    intro n hloop stack
    exact plan.enter_congr n _ fun s => hloop s stack
  case nil =>
    intro R kept X stack
    rw [drain_finished, explore_nil]
  case cons =>
    intro R v rest kept X hchild hrest stack
    rw [drain, explore_cons]
    congr 2
    funext h
    rw [← hrest stack]
    exact hchild h (⟨R, rest, kept, v :: X⟩ :: stack)

/-- **The two searches below a node are one search.** -/
theorem expandStack_eq_expand (plan : Plan α) (n : SearchNode α) (next : Run α β) :
    plan.expandStack n next = plan.expand n next := by
  refine plan.enter_congr n next fun s => ?_
  rw [Frame.ofNode, drain_cons, drain_nil]

end Plan

namespace Subject

theorem searchBelow_eq (settings : Settings) (n : SearchNode Vertex) :
    searchBelow settings n = (plan settings).expand n (.done ()) := by
  unfold searchBelow
  split
  · exact Plan.expandStack_eq_expand ..
  · rfl

variable {σ : Type}

/-- The search below a node is the same for any two choices of the engine. -/
theorem searchBelow_engine (settings : Settings) (engine engine' : Identifier)
    (n : SearchNode Vertex) : searchBelow { settings with iterative := engine } n
      = searchBelow { settings with iterative := engine' } n := by
  rw [searchBelow_eq, searchBelow_eq]
  rfl

/-- **Nobody can tell the engines apart.**  Take any two choices of the engine.
From any node, with any neighbourhoods, after any number of polls and with any answers of the stop
check, the two searches pass through the same events to the same end: the nodes, the polls with their
answers and the cliques, in one order.
From any node on any graph, with any progress made before, the search that is let run to its end
delivers the same cliques, makes the same polls, ends in the same way and leaves the same counters; the
search that is resumed clique by clique delivers the same next clique at the same counters, and leaves
the same search to be resumed.
So whoever runs an enumeration, or holds one open and resumes it as often as he likes, gets the same. -/
theorem searchBelow_observed (settings : Settings) (engine engine' : Identifier) :
    let chosen := { settings with iterative := engine }
    let chosen' := { settings with iterative := engine' }
    (∀ n hoods answers polls, (searchBelow chosen n).trail hoods answers polls
      = (searchBelow chosen' n).trail hoods answers polls) ∧
    (∀ (s : Subject) (g : Access σ) (stop : Nat → Query σ Bool) n (p : Progress) (w : σ),
      (Searching.askFrom ((searchBelow chosen n).finish (s.conductor g stop)) p).run w
        = (Searching.askFrom ((searchBelow chosen' n).finish (s.conductor g stop)) p).run w ∧
      ∀ reports, (OpenEnumeration.proceed s g stop reports (searchBelow chosen n) p).run w
        = (OpenEnumeration.proceed s g stop reports (searchBelow chosen' n) p).run w) ∧
    ∀ (g : Access σ) (stop : Nat → Query σ Bool) (counters : Counters) (w : σ),
      (iterate g chosen stop counters).run w = (iterate g chosen' stop counters).run w ∧
      ∀ enumeration, (OpenEnumeration.resume g chosen stop counters enumeration).run w
        = (OpenEnumeration.resume g chosen' stop counters enumeration).run w := by
  intro chosen chosen'
  have hbelow : ∀ n, searchBelow chosen n = searchBelow chosen' n :=
    searchBelow_engine settings engine engine'
  have hsearch : ∀ s : Subject, s.search chosen = s.search chosen' := fun s => hbelow _
  refine ⟨fun n _ _ _ => by rw [hbelow n], fun s g stop n p w => ?_, fun g stop counters w => ?_⟩
  · rw [hbelow n]
    exact ⟨rfl, fun _ => rfl⟩
  · constructor
    · unfold iterate
      simp only [hsearch]
      rfl
    · intro enumeration
      cases enumeration with
      | notStarted =>
        unfold OpenEnumeration.resume OpenEnumeration.goOn
        simp only [hsearch]
        rfl
      | suspended s rest p => rfl
      | ended => rfl

end Subject

end MaximalCliques
