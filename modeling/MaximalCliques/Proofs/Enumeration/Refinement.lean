import MaximalCliques.Proofs.Enumeration.CliqueSets
import MaximalCliques.Proofs.Enumeration.PoolOutcomes

/-!
# Branches on a pool come to what the search from the root comes to

* **`Branch.ofRoot`** — a branch that has been searched to its end.
* **`branches_eq_map`** — after any schedule in which nothing is stopped, all branches are such.
* **`enumerateOnPool_unstopped`** — what an enumeration on a pool comes to that nobody stops.
* **`enumerateOnPool_refines`** — whatever the schedule, the cliques and the counters are those of the
  enumeration one after the other.
-/

namespace MaximalCliques

variable {σ : Type} {g : Access σ} {w : σ} {o : Oracle} {settings : Settings}

/-! ### Counters of the branches -/

def Branch.ofRoot (g : Access σ) (w : σ) (o : Oracle) (settings : Settings)
    (n : SearchNode Vertex) : Branch where
  root := n
  ending := .finished
  found := Subject.discoveriesBelow g w o settings n
  counters := Event.tally (Subject.historyBelow g w o settings n)

/-- **The root counts the branches at once**, and each branch counts what happens below it: together
they count what is counted along the branches. -/
theorem tallyBelow_eq (roots : List (SearchNode Vertex)) :
    Subject.tallyBelow g w o settings roots = { branches := roots.length } +
      (roots.map (Branch.ofRoot g w o settings)).foldr (fun b c => b.counters + c) {} := by
  induction roots with
  | nil => rfl
  | cons n roots ih =>
    have hbelow : (Branch.ofRoot g w o settings n).counters
        = Event.tally ((Subject.plan settings).below (g.hoodAt w o) n) := by
      rw [Branch.ofRoot, Subject.historyBelow_eq]
    have hbranches : ({ branches := 1 } : Counters) + { branches := (roots.length : Int) }
        = { branches := ((n :: roots).length : Int) } := by
      rw [Counters.add_branches, List.length_cons, Int.natCast_succ, Int.add_comm]
    show { branches := 1 } + (Event.tally ((Subject.plan settings).below (g.hoodAt w o) n)
      + Subject.tallyBelow g w o settings roots) = _
    rw [ih, ← hbelow, ← hbranches, List.map_cons, List.foldr_cons, Counters.add_assoc,
      ← Counters.add_assoc _ { branches := (roots.length : Int) },
      Counters.add_comm _ { branches := (roots.length : Int) }, Counters.add_assoc]

/-! ### Branches that nobody stops -/

/-- A branch that has neither been stopped nor dropped has been searched to its end. -/
theorem Branch.Sound.eq_ofRoot {b : Branch} {es : List (Event Vertex)}
    (h : b.Sound g w o settings es) (hstopped : b.ending ≠ .stopped) (hdropped : b.ending ≠ .dropped) :
    b = .ofRoot g w o settings b.root := by
  obtain ⟨-, hcounters, hfound, hending⟩ := h
  obtain ⟨root, ending, found, counters⟩ := b
  cases hending with
  | finished => exact congrArg₂ (Branch.mk root .finished) hfound hcounters
  | stopped => exact absurd rfl hstopped
  | dropped => exact absurd rfl hdropped

/-- **Branches of which none has been stopped** have all been searched to their end. -/
theorem branches_eq_map {branches : List Branch} {roots : List (SearchNode Vertex)}
    (hroots : branches.map (·.root) = roots)
    (hsound : ∀ b ∈ branches, ∃ es, b.Sound g w o settings es)
    (hstopped : ¬∃ b ∈ branches, b.ending = .stopped)
    (hdropped : ¬∃ b ∈ branches, b.ending = .dropped) :
    branches = roots.map (.ofRoot g w o settings) := by
  rw [← hroots, List.map_map]
  refine (List.map_id branches).symm.trans (List.map_congr_left fun b hb => ?_)
  obtain ⟨es, hes⟩ := hsound b hb
  exact hes.eq_ofRoot (fun h => hstopped ⟨b, hb, h⟩) fun h => hdropped ⟨b, hb, h⟩

/-- **Different branches find different cliques.** -/
theorem pairwise_found (hg : g.Orderly w) (ho : o.Tabulates g w) (hne : g.listed w ≠ []) :
    ((Subject.topRoots g w o settings).map (Branch.ofRoot g w o settings)).Pairwise fun b b' =>
      ∀ c ∈ b.found, ∀ d ∈ b'.found, Identifier.sameSet c.nodes d.nodes = false := by
  have honce := (Subject.discoveries_enumerates hg ho settings).once
  rw [Subject.discoveries_eq_flatMap hne] at honce
  exact List.pairwise_map.2 (List.pairwise_flatMap.1 (List.pairwise_map.1 honce)).2

/-! ### The refinement -/

section Unstopped

variable (hg : g.Orderly w) (ho : o.Tabulates g w)
variable (htabulate : (Subject.tabulate g settings).Answers w ⟨o, g.roster w⟩)
variable {counters : Counters} {moves : List Move} {branches : List Branch} {outcome : Outcome}
variable {world : σ}
variable (h : enumerateOnPool g settings (fun _ => pure false) counters moves w
  = .settled branches outcome world)
include htabulate h

theorem enumerateOnPool_unstopped_of_empty (hempty : g.listed w = []) : branches = [] ∧
    outcome.cliques = Clique.collect (Subject.discoveries g w o settings) ∧ outcome.fault = none ∧
      outcome.counters = counters + Event.tally (Subject.history g w o settings) := by
  obtain ⟨rfl, rfl, -⟩ := Standing.eq_of_over
    (enumerateOnPool_of_empty htabulate (fun _ => false) counters hempty) h
  have hcollect : Clique.collect [[]] = [[]] :=
    List.perm_singleton.1 (Clique.collect_perm (List.pairwise_singleton _ _))
  have htally : Event.tally (Subject.history g w o settings) = { calls := 1 } + { cliques := 1 } := by
    rw [Subject.history_of_listed_eq_nil o settings hempty, Event.tally_cons, Event.tally_singleton]
    rfl
  rw [Subject.discoveries_of_listed_eq_nil o settings hempty, hcollect, htally, ← Counters.add_assoc]
  exact ⟨rfl, rfl, rfl, rfl⟩

include hg ho

/-- **What an enumeration on a pool comes to that nobody stops.**  All branches have been searched to
their end. -/
theorem enumerateOnPool_unstopped (hne : g.listed w ≠ []) (hwork : settings.AllowsWork) :
    branches = (Subject.topRoots g w o settings).map (.ofRoot g w o settings) ∧
      outcome.cliques = Clique.collect (Subject.discoveries g w o settings) ∧ outcome.fault = none ∧
      outcome.counters = counters + Event.tally (Subject.history g w o settings) := by
  obtain ⟨-, hroots, hsound, hstopped, hdropped, houtcome⟩ :=
    enumerateOnPool_settled hg ho htabulate (fun _ => false) counters hne hwork h
  have hnone : ¬∃ b ∈ branches, b.ending = .stopped := by
    rw [hstopped]
    simp
  have hfaults : ∀ b ∈ branches, ∀ fault, b.ending ≠ .failed fault :=
    fun b hb => (hsound b hb).elim fun _ hes => hes.ne_failed
  have hbranches := branches_eq_map hroots hsound hnone fun h => hnone (hdropped h)
  refine ⟨hbranches, ?_, ?_, ?_⟩
  · rw [houtcome, Outcome.cliques_ofBranches _ _ _ hfaults, hbranches, List.flatMap_map,
      Subject.discoveries_eq_flatMap hne]
    rfl
  · rw [houtcome, Outcome.fault_ofBranches _ _ _ hfaults]
    exact if_neg fun h => hnone (Branch.anyStopped_iff.1 h)
  · rw [houtcome, Outcome.counters_ofBranches _ _ _ hfaults, hbranches, Subject.tally_history hne,
      tallyBelow_eq, Subject.batch, Counters.add_assoc, Counters.add_assoc]

end Unstopped

/-- **Branches on a pool come to what the search from the root comes to.**  Take an orderly graph that
fits, and workers that can work.  Whatever the schedule, the enumeration on a pool comes to an end if
nobody stops it; it hands over the cliques that the enumeration one after the other hands over, and
leaves the same counters.  Different branches find different cliques, and the cliques found by the
branches, in the order of the branches, are the cliques in the order of their discovery.  A graph without
nodes has no branches, and its one clique is found by the root. -/
theorem enumerateOnPool_refines (hg : g.Orderly w) (hfits : g.FitsIn settings)
    (hwork : settings.AllowsWork) (counters : Counters) :
    ∃ sequential sequence,
      (enumerate g settings (fun _ => pure false) counters).run w = (sequential, w) ∧
      (iterate g settings (fun _ => pure false) counters).run w = (sequence, w) ∧
      (Standing.Ends fun moves =>
        enumerateOnPool g settings (fun _ => pure false) counters moves w) ∧
      ∀ moves branches outcome world,
        enumerateOnPool g settings (fun _ => pure false) counters moves w
          = .settled branches outcome world →
        outcome.cliques = sequential.cliques ∧ outcome.fault = none ∧ sequential.fault = none ∧
        outcome.counters = sequential.counters ∧
        (branches.Pairwise fun b b' =>
          ∀ c ∈ b.found, ∀ d ∈ b'.found, Identifier.sameSet c.nodes d.nodes = false) ∧
        (g.listed w ≠ [] → branches.flatMap (·.found) = sequence.cliques) ∧
        (g.listed w = [] → branches = [] ∧ sequence.cliques = [[]]) := by
  obtain ⟨o, ho, htabulate⟩ := Subject.tabulate_answers hg hfits
  have hiterate := iterate_unstopped hg ho htabulate counters
  have henumerate : (enumerate g settings (fun _ => pure false) counters).run w = (_, w) :=
    run_bind_of_eq hiterate
  refine ⟨_, _, henumerate, hiterate,
    enumerateOnPool_ends hg ho htabulate (fun _ => false) counters hwork, ?_⟩
  intro moves branches outcome world h
  by_cases hempty : g.listed w = []
  · obtain ⟨hbranches, hcliques, hfault, hcounters⟩ :=
      enumerateOnPool_unstopped_of_empty htabulate h hempty
    subst hbranches
    exact ⟨hcliques, hfault, rfl, hcounters, List.Pairwise.nil, fun hne => absurd hempty hne,
      fun _ => ⟨rfl, Subject.discoveries_of_listed_eq_nil o settings hempty⟩⟩
  · obtain ⟨hbranches, hcliques, hfault, hcounters⟩ :=
      enumerateOnPool_unstopped hg ho htabulate h hempty hwork
    subst hbranches
    refine ⟨hcliques, hfault, rfl, hcounters, pairwise_found hg ho hempty, fun _ => ?_,
      fun h => absurd h hempty⟩
    show _ = Subject.discoveries g w o settings
    rw [List.flatMap_map, Subject.discoveries_eq_flatMap hempty]
    rfl

/-- Two workers come to the maximal cliques of an asymmetric graph whatever they do first. -/
theorem enumerateOnPool_refines_lopsided :
    (Thing.lopsided.access {}).Orderly {} ∧
      (Thing.lopsided.access {}).FitsIn { parallelWorkers := .integer 2 } ∧
      Settings.AllowsWork { parallelWorkers := .integer 2 } ∧
      ∃ sequential sequence,
        (enumerate (Thing.lopsided.access {}) { parallelWorkers := .integer 2 }
          (fun _ => pure false) {}).run ({} : World) = (sequential, {}) ∧
        (iterate (Thing.lopsided.access {}) { parallelWorkers := .integer 2 }
          (fun _ => pure false) {}).run ({} : World) = (sequence, {}) ∧
        (Standing.Ends fun moves => enumerateOnPool (Thing.lopsided.access {})
          { parallelWorkers := .integer 2 } (fun _ => pure false) {} moves {}) ∧
        ∀ moves branches outcome world,
          enumerateOnPool (Thing.lopsided.access {}) { parallelWorkers := .integer 2 }
            (fun _ => pure false) {} moves {} = .settled branches outcome world →
          outcome.cliques = sequential.cliques ∧ outcome.fault = none ∧ sequential.fault = none ∧
          outcome.counters = sequential.counters ∧
          (branches.Pairwise fun b b' =>
            ∀ c ∈ b.found, ∀ d ∈ b'.found, Identifier.sameSet c.nodes d.nodes = false) ∧
          ((Thing.lopsided.access {}).listed {} ≠ [] →
            branches.flatMap (·.found) = sequence.cliques) ∧
          ((Thing.lopsided.access {}).listed {} = [] → branches = [] ∧ sequence.cliques = [[]]) :=
  have hfits : (Thing.lopsided.access {}).FitsIn { parallelWorkers := .integer 2 } :=
    Thing.lopsided_fitsIn rfl
  have hwork : Settings.AllowsWork { parallelWorkers := .integer 2 } :=
    Settings.allowsWork_of_pos rfl (by decide)
  ⟨Thing.lopsided_orderly {}, hfits, hwork,
    enumerateOnPool_refines (Thing.lopsided_orderly {}) hfits hwork {}⟩

def Thing.void : Thing where
  base := .tableGraph 0
    { nodes := [], bound := .integer 0, indices := {}, outgoing := {}, incoming := {}, directed := false }
  filters := []

theorem TableGraph.not_holds {t : TableGraph} (h : t.nodes = []) (x : Identifier) : ¬t.Holds x := by
  intro hx
  rw [Holds, h] at hx
  simp at hx

theorem Thing.void_orderly (w : World) : (Thing.void.access w).Orderly w := by
  refine Thing.orderly (Base.tableGraph_orderly rfl ?_ ?_ ?_ w) (fun f hf => absurd hf List.not_mem_nil)
  · exact fun x hx => absurd hx (TableGraph.not_holds rfl x)
  · exact fun x hx => absurd hx (TableGraph.not_holds rfl x)
  · exact fun x y hx => absurd hx (TableGraph.not_holds rfl x)

/-- A graph without nodes has no branches, so that the cliques found by the branches are not those
discovered from the root. -/
theorem enumerateOnPool_void :
    ∃ outcome sequence,
      enumerateOnPool (Thing.void.access {}) {} (fun _ => pure false) {} [] {}
        = .settled [] outcome {} ∧
      (iterate (Thing.void.access {}) {} (fun _ => pure false) {}).run ({} : World)
        = (sequence, {}) ∧
      ([] : List Branch).flatMap (·.found) ≠ sequence.cliques := by
  have hfits : (Thing.void.access {}).FitsIn {} :=
    Access.fitsIn_of_le rfl (by decide) (by decide) (by decide) (by decide)
  obtain ⟨o, ho, htabulate⟩ := Subject.tabulate_answers (Thing.void_orderly {}) hfits
  have hempty : (Thing.void.access {}).listed {} = [] := rfl
  refine ⟨_, _, enumerateOnPool_of_empty htabulate (fun _ => false) {} hempty [],
    iterate_unstopped (Thing.void_orderly {}) ho htabulate {}, ?_⟩
  show [] ≠ Subject.discoveries (Thing.void.access {}) {} o {}
  rw [Subject.discoveries_of_listed_eq_nil o {} hempty]
  decide

end MaximalCliques
