import MaximalCliques.Enumeration.Parallel
import MaximalCliques.Proofs.Enumeration.Exactness
import MaximalCliques.Proofs.Search.Splitting

/-!
# The branches of an orderly graph

* **`Subject.topRoots`** — the nodes below the root of the search on a graph.
* **`Subject.finish_topBranches`** — splitting the root gives these.
* **`prepareBranches_answers`** — a graph with nodes is split into these; **`prepareBranches_of_empty`**
  says what a graph without nodes comes to.
* **`Subject.discoveries_eq_flatMap`**, **`Subject.tally_history`** — what the search from the root
  discovers and counts is what the searches below these nodes discover and count together.
-/

namespace MaximalCliques

variable {σ : Type} {g : Access σ} {w : σ} {o : Oracle} {settings : Settings}

theorem Access.vertices_eq_nil_iff : (g.roster w).vertices = [] ↔ g.listed w = [] := by
  constructor
  · intro h
    by_contra hne
    obtain ⟨x, hx⟩ := List.exists_mem_of_ne_nil _ hne
    obtain ⟨u, hu, -⟩ := exists_vertex (Identifier.isIn_of_mem hx)
    rw [h] at hu
    exact List.not_mem_nil hu
  · intro h
    by_contra hne
    obtain ⟨u, hu⟩ := List.exists_mem_of_ne_nil _ hne
    have hlisted := (stands_of_mem_vertices hu).isIn_listed
    rw [h] at hlisted
    exact absurd hlisted Bool.false_ne_true

namespace Subject

def topRoots (g : Access σ) (w : σ) (o : Oracle) (settings : Settings) : List (SearchNode Vertex) :=
  (plan settings).topNodes (g.hoodAt w o) (g.roster w).vertices

/-- What the searches below some nodes count, and a branch for each. -/
def tallyBelow (g : Access σ) (w : σ) (o : Oracle) (settings : Settings)
    (roots : List (SearchNode Vertex)) : Counters := (plan settings).tallyOf (g.hoodAt w o) roots

theorem discoveries_eq_flatMap (hne : g.listed w ≠ []) :
    discoveries g w o settings
      = (topRoots g w o settings).flatMap (discoveriesBelow g w o settings) := by
  have hvertices : (g.roster w).vertices ≠ [] := fun h => hne (Access.vertices_eq_nil_iff.1 h)
  unfold discoveries discoveriesBelow topRoots
  simp only [historyBelow_eq]
  exact Plan.delivered_root hvertices

theorem tally_history (hne : g.listed w ≠ []) : Event.tally (history g w o settings)
    = { calls := 1 } + tallyBelow g w o settings (topRoots g w o settings) := by
  have hvertices : (g.roster w).vertices ≠ [] := fun h => hne (Access.vertices_eq_nil_iff.1 h)
  rw [history, historyBelow_eq]
  exact Plan.tally_root hvertices

variable (hg : g.Orderly w) (ho : o.Tabulates g w)
include hg ho

theorem topBranches_mirrors (settings : Settings) :
    ((plan settings).topBranches (g.roster w).vertices).Mirrors
    Vertex.index (g.Stands w) (g.hoodAt w o) (fun i => .ofTest (o.linked i))
    (Plan.Corresponding Vertex.index (g.Stands w))
    ((onPositions settings).topBranches (g.indices w)) :=
  Plan.topBranches_mirrors (plan_agrees hg settings)
    (fun _ hv => Access.hoodAt_mirrors hg ho hv) fun _ hu => Access.stands_of_mem_vertices hu

theorem topRoots_within : ∀ n ∈ topRoots g w o settings, n.Within (g.Stands w) := by
  have h := (topBranches_mirrors hg ho settings).result
  rw [Plan.result_topBranches] at h
  exact h.2

/-- **Splitting the root of the search on a graph** gives the nodes below it, whatever the stop check is. -/
theorem finish_topBranches (settings : Settings) (stop : Nat → Query σ Bool) (counters : Counters) :
    ∃ p, (((plan settings).topBranches (g.roster w).vertices).finish
        (conductor ⟨o, g.roster w⟩ g stop)).run ({ counters }, w)
      = (.ok (some (topRoots g w o settings)), (p, w)) := by
  have hunpolled : g.PolledBy stop (fun _ => w) (fun _ => false) 0 :=
    ⟨fun k hk => absurd hk (Nat.not_lt_zero k), fun _ _ => .refl g w⟩
  have hpolls : Event.polls (((plan settings).topBranches (g.roster w).vertices).events
      (g.hoodAt w o)) = 0 := by
    rw [Plan.events_topBranches]
    rfl
  have htrail := Run.trail_of_polls_eq_zero hpolls (fun _ => false) 0
  obtain ⟨p, hfinish, -⟩ := finish_polled hunpolled hg ho (topBranches_mirrors hg ho settings).within
    (p := { counters }) (Progress.sound_of_empty g w o rfl) (by rw [htrail, hpolls])
  rw [htrail, Plan.result_topBranches] at hfinish
  exact ⟨p, hfinish⟩

end Subject

/-- **A graph without nodes** is done with at once: it has the empty clique. -/
theorem prepareBranches_of_empty
    (htabulate : (Subject.tabulate g settings).Answers w ⟨o, g.roster w⟩) (hempty : g.listed w = [])
    (stop : Nat → Query σ Bool) (counters : Counters) :
    (prepareBranches g settings stop counters).run w
      = (.inl { cliques := [[]], counters := counters + { calls := 1 } + { cliques := 1 }
                reports := [Subject.report ⟨o, g.roster w⟩] }, w) := by
  have hisEmpty : (g.roster w).vertices.isEmpty = true := by
    rw [Access.vertices_eq_nil_iff.2 hempty]
    rfl
  have htab : (Subject.tabulate g settings).run.run w = (.ok ⟨o, g.roster w⟩, w) := htabulate
  rw [Counters.add_cliques, Counters.add_calls]
  unfold prepareBranches
  refine (run_bind_of_eq htab).trans ?_
  simp only [hisEmpty]
  rfl

/-- The root of a graph with nodes is split, and then the number of workers decides. -/
theorem prepareBranches_eq (hg : g.Orderly w) (ho : o.Tabulates g w)
    (htabulate : (Subject.tabulate g settings).Answers w ⟨o, g.roster w⟩) (hne : g.listed w ≠ [])
    (stop : Nat → Query σ Bool) (counters : Counters) :
    (prepareBranches g settings stop counters).run w
      = (match settings.requireWorkers with
          | .error e => .inl { fault := e
                               counters := counters + { calls := 1 }
                                 + { branches := (Subject.topRoots g w o settings).length }
                               reports := [Subject.report ⟨o, g.roster w⟩] }
          | .ok () => .inr { subject := ⟨o, g.roster w⟩, roots := Subject.topRoots g w o settings
                             counters := counters + { calls := 1 }
                               + { branches := (Subject.topRoots g w o settings).length }
                             reports := [Subject.report ⟨o, g.roster w⟩] }, w) := by
  have hisEmpty : (g.roster w).vertices.isEmpty = false := by
    rw [List.isEmpty_eq_false_iff]
    exact fun h => hne (Access.vertices_eq_nil_iff.1 h)
  have htab : (Subject.tabulate g settings).run.run w = (.ok ⟨o, g.roster w⟩, w) := htabulate
  obtain ⟨p, hfinish⟩ := Subject.finish_topBranches hg ho settings stop (counters + { calls := 1 })
  rw [Counters.add_branches]
  rw [Counters.add_calls] at hfinish ⊢
  unfold prepareBranches
  refine (run_bind_of_eq htab).trans ?_
  simp only [hisEmpty]
  refine (run_bind_of_eq (Searching.run_askFrom hfinish)).trans ?_
  cases settings.requireWorkers with
  | error e => rfl
  | ok => rfl

/-- **A graph with nodes is split into branches**, and the root counts a call and these. -/
theorem prepareBranches_answers (hg : g.Orderly w) (ho : o.Tabulates g w)
    (htabulate : (Subject.tabulate g settings).Answers w ⟨o, g.roster w⟩) (hne : g.listed w ≠ [])
    (hworkers : settings.requireWorkers = .ok ()) (answers : Nat → Bool) (counters : Counters) :
    (prepareBranches g settings (fun k => pure (answers k)) counters).run w
      = (.inr { subject := ⟨o, g.roster w⟩, roots := Subject.topRoots g w o settings
                counters := counters + { calls := 1 }
                  + { branches := (Subject.topRoots g w o settings).length }
                reports := [Subject.report ⟨o, g.roster w⟩] }, w) := by
  rw [prepareBranches_eq hg ho htabulate hne, hworkers]

end MaximalCliques
