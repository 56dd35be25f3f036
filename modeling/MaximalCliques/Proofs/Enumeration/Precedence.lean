import Mathlib.Data.Finset.Sort
import MaximalCliques.Proofs.Enumeration.Accounting
import MaximalCliques.Proofs.Enumeration.Visits
import MaximalCliques.Proofs.Search.Precedence

/-!
# The order in which cliques are discovered without a pivot

A set of nodes is read as the ascending list of its indices, and sets are compared by these lists,
lexicographically.  Without a pivot the cliques are discovered in this order, so an enumeration that is
stopped has delivered the first ones.

* **`Access.ascent`**, **`Access.Before`** — the ascending indices of a set, and the order of sets.
* **`Subject.discoveries_before`** — without a pivot each clique comes before those discovered after it.
* **`Access.ListsFirst`** — the first maximal cliques in this order, as many as are listed.
* **`Outcome.InLexicographicOrder`** — an enumeration that delivers these, and all unless it is cancelled.
* **`iterate_lexicographic`** — every enumeration without a pivot is such a one, stopped or not.
-/

namespace MaximalCliques

variable {σ : Type} {g : Access σ} {w : σ} {o : Oracle} {settings : Settings}

/-! ### The order of sets of nodes -/

namespace Access

def ascent (g : Access σ) (c : List Identifier) : List Nat := (c.map g.position).toFinset.sort

/-- The ascending indices of the one set come before those of the other, in lexicographic order. -/
def Before (g : Access σ) (c d : List Identifier) : Prop := Precedes (g.ascent c) (g.ascent d)

theorem ascent_congr (hg : g.Orderly w) {c d : List Identifier} (hc : ∀ x ∈ c, g.Names w x)
    (hd : ∀ x ∈ d, g.Names w x) (h : Identifier.sameSet c d = true) : g.ascent c = g.ascent d := by
  rw [ascent, ascent, (sameSet_iff_positions hg hc hd).1 h]

end Access

/-- The ascending indices of a clique are those of its vertices, if these ascend. -/
theorem Clique.ascent_nodes {c : Clique} (hc : ∀ u ∈ c, g.Stands w u)
    (hascends : ((c.map (·.index)).reverse).Pairwise (· < ·)) :
    g.ascent c.nodes = (c.map (·.index)).reverse := by
  rw [Access.ascent, toFinset_positions hc, ← List.toFinset_reverse]
  refine (List.toFinset_sort (· ≤ ·) (hascends.imp fun h => h.ne)).2 ?_
  exact hascends.imp fun h => h.le

namespace Subject

/-- The root commits to nothing, and its candidates are different. -/
theorem root_ascends (hg : g.Orderly w) :
    ((root ⟨o, g.roster w⟩).map Vertex.index).Ascends where
  committed := List.Pairwise.nil
  above _ _ _ hv := absurd hv List.not_mem_nil
  nodup := Access.nodup_indices hg

/-- **Without a pivot each clique comes before those that are discovered after it.** -/
theorem discoveries_before (hg : g.Orderly w) (ho : o.Tabulates g w)
    (hpivot : settings.usesPivot = false) :
    ((discoveries g w o settings).map Clique.nodes).Pairwise g.Before := by
  have hstands : ∀ c ∈ discoveries g w o settings, ∀ u ∈ c, g.Stands w u :=
    stands_of_mem_discoveriesBelow hg ho (root_within g w o)
  obtain ⟨hascends, hsorted, -⟩ := (onPositions settings).delivered_ascending hpivot
    (fun _ _ => rfl) o.linked (root_ascends (o := o) hg)
  rw [← map_discoveriesBelow hg ho settings (root_within g w o), List.map_map] at hascends hsorted
  have hascent : ∀ c ∈ discoveries g w o settings, g.ascent c.nodes = (c.map (·.index)).reverse :=
    fun c hc => Clique.ascent_nodes (hstands c hc) (hascends _ (List.mem_map_of_mem hc))
  refine List.pairwise_map.2 ((List.pairwise_map.1 hsorted).imp_of_mem fun hc hd hcd => ?_)
  rw [Access.Before, hascent _ hc, hascent _ hd]
  exact hcd

end Subject

/-! ### The first maximal cliques -/

/-- **The first maximal cliques of a graph** in lexicographic order, as many as are listed: maximal cliques,
each before those listed after it, such that every other maximal clique comes after all of them. -/
structure Access.ListsFirst (g : Access σ) (w : σ) (cs : List (List Identifier)) : Prop where
  sound : ∀ c ∈ cs, ∃ K, g.IsMaximalClique w K ∧ Identifier.sameSet c K = true
  sorted : cs.Pairwise g.Before
  least : ∀ K, g.IsMaximalClique w K →
    (∃ c ∈ cs, Identifier.sameSet c K = true) ∨ ∀ c ∈ cs, g.Before c K

/-- The beginning of a list of all maximal cliques in this order holds the first ones. -/
theorem Access.ListsFirst.of_begins (hg : g.Orderly w) {cs ds : List Clique} (hbegins : cs <+: ds)
    (hstands : ∀ c ∈ ds, ∀ u ∈ c, g.Stands w u) (hall : g.Enumerates w (ds.map Clique.nodes))
    (hsorted : (ds.map Clique.nodes).Pairwise g.Before) :
    g.ListsFirst w (cs.map Clique.nodes) := by
  have hsublist : (cs.map Clique.nodes).Sublist (ds.map Clique.nodes) := hbegins.sublist.map _
  refine ⟨fun c hc => hall.sound c (hsublist.subset hc), hsorted.sublist hsublist, fun K hK => ?_⟩
  obtain ⟨rest, rfl⟩ := hbegins
  obtain ⟨nodes, hnodes, hsame⟩ := hall.complete K hK
  obtain ⟨d, hd, rfl⟩ := List.mem_map.1 hnodes
  rcases List.mem_append.1 hd with hfound | hleft
  · exact .inl ⟨_, List.mem_map_of_mem hfound, hsame⟩
  · refine .inr fun c hc => ?_
    rw [List.map_append] at hsorted
    have hcd := (List.pairwise_append.1 hsorted).2.2 c hc _ (List.mem_map_of_mem hleft)
    rw [Before, ← ascent_congr hg (fun x => Clique.names_of_mem_nodes (hstands d hd))
      (fun x hx => .inl (hK.listed x hx)) hsame]
    exact hcd

/-! ### Enumerations -/

/-- **What an enumeration delivers in lexicographic order**, one by one and as a set: the first maximal
cliques, which are all of them unless it is cancelled. -/
structure Outcome.InLexicographicOrder (g : Access σ) (w : σ) (outcome handed : Outcome) : Prop where
  first : g.ListsFirst w (outcome.cliques.map Clique.nodes)
  same : handed.cliques.Perm outcome.cliques
  ended : outcome.fault = none ∧ handed.fault = none ∧
      g.Enumerates w (outcome.cliques.map Clique.nodes) ∨
    outcome.fault = some (.cancelled []) ∧
      handed.fault = some (.cancelled (handed.cliques.map Clique.nodes))

/-- An enumeration without a pivot that goes through a trail delivers in lexicographic order. -/
theorem Outcome.inLexicographicOrder_ofTrail (hg : g.Orderly w) (ho : o.Tabulates g w)
    (hpivot : settings.usesPivot = false) (answers : Nat → Bool) (counters : Counters)
    {trail : List (Event Vertex) × Option Unit}
    (htrail : (Subject.searchBelow settings (Subject.root ⟨o, g.roster w⟩)).trail (g.hoodAt w o) answers 0
      = trail) :
    InLexicographicOrder g w (ofTrail ⟨o, g.roster w⟩ counters trail)
      (ofTrail ⟨o, g.roster w⟩ counters trail).asSet := by
  have hall := Subject.discoveries_enumerates hg ho settings
  have hbegins := Subject.delivered_trail_prefix g w o settings answers htrail
  obtain ⟨hcollect, -⟩ := asSet_eq (ofTrail ⟨o, g.roster w⟩ counters trail)
  refine ⟨.of_begins hg hbegins ?_ hall (Subject.discoveries_before hg ho hpivot), ?_, ?_⟩
  · exact Subject.stands_of_mem_discoveriesBelow hg ho (Subject.root_within g w o)
  · rw [hcollect]
    exact Clique.collect_perm ((Subject.pairwise_discoveries hg ho settings).sublist hbegins.sublist)
  · rcases fault_ofTrail ⟨o, g.roster w⟩ counters trail with ⟨hended, h⟩ | ⟨-, h⟩
    · refine .inl ⟨h, by rw [asSet, h], ?_⟩
      show g.Enumerates w ((Event.delivered trail.1).map Clique.nodes)
      rw [Subject.delivered_trail_of_isSome g w o settings answers htrail hended]
      exact hall
    · exact .inr ⟨h, by rw [asSet, h]⟩

/-- **Without a pivot cliques are delivered in lexicographic order.**  Take an orderly graph, settings
without a pivot, either engine and any stop check.  If the graph fits, the enumeration delivers the first
maximal cliques in the lexicographic order of their ascending indices, one by one in this order or as a
set, and all of them unless it is cancelled, which a stop check that always declines does not do.  A graph
that does not fit has nothing delivered. -/
theorem iterate_lexicographic {stop : Nat → Query σ Bool} {states : Nat → σ} {answers : Nat → Bool}
    (hg : g.Orderly (states 0)) (hpivot : settings.usesPivot = false)
    (hpolled : ∀ n, g.PolledBy stop states answers n) (counters : Counters) :
    ∃ outcome handed w', (iterate g settings stop counters).run (states 0) = (outcome, w') ∧
      (enumerate g settings stop counters).run (states 0) = (handed, w') ∧
      (g.FitsIn settings → Outcome.InLexicographicOrder g (states 0) outcome handed ∧
        ((∀ k, answers k = false) → outcome.fault = none)) ∧
      (¬g.FitsIn settings → outcome.cliques = [] ∧ handed.cliques = [] ∧ outcome.polls = 0) := by
  by_cases hfits : g.FitsIn settings
  · obtain ⟨ho, htabulate⟩ := Subject.tabulate_shown hg hfits
    obtain ⟨trail, htrail⟩ : ∃ trail, (Subject.searchBelow settings
        (Subject.root ⟨.shown g (states 0), g.roster (states 0)⟩)).trail
          (g.hoodAt (states 0) (.shown g (states 0))) answers 0 = trail := ⟨_, rfl⟩
    have hiterate := iterate_polled (hpolled _) hg ho htabulate counters htrail (Nat.le_refl _)
    refine ⟨_, _, _, hiterate, enumerate_of_iterate hiterate, fun _ => ⟨?_, fun hnever => ?_⟩,
      absurd hfits⟩
    · exact Outcome.inLexicographicOrder_ofTrail hg ho hpivot answers counters htrail
    · rw [← htrail, show answers = fun _ => false from funext hnever, Run.trail_never]
      rfl
  · obtain ⟨e, hrefused⟩ := Subject.tabulate_refused hfits
    have hiterate : (iterate g settings stop counters).run (states 0)
        = ({ fault := some e, counters }, states 0) :=
      run_bind_of_eq (hrefused g rfl rfl (states 0) hg)
    obtain ⟨hcollect, -⟩ := Outcome.asSet_eq { fault := some e, counters }
    exact ⟨_, _, _, hiterate, enumerate_of_iterate hiterate, fun h => absurd h hfits,
      fun _ => ⟨rfl, hcollect.trans (Clique.collect_perm .nil).eq_nil, rfl⟩⟩

/-- An enumeration of an asymmetric graph without a pivot that is cancelled at its third poll, by a stop
check that changes the world. -/
theorem iterate_lexicographic_lopsided :
    (Thing.lopsided.access {}).Orderly (World.polled 0) ∧ Settings.unpivoted.usesPivot = false ∧
      (∀ n, (Thing.lopsided.access {}).PolledBy World.stopThird World.polled (fun k => k == 2) n) ∧
      (Thing.lopsided.access {}).FitsIn .unpivoted ∧
      ∃ outcome handed w',
        (iterate (Thing.lopsided.access {}) .unpivoted World.stopThird {}).run (World.polled 0)
          = (outcome, w') ∧
        (enumerate (Thing.lopsided.access {}) .unpivoted World.stopThird {}).run (World.polled 0)
          = (handed, w') ∧
        Outcome.InLexicographicOrder (Thing.lopsided.access {}) (World.polled 0) outcome handed :=
  have horderly : (Thing.lopsided.access {}).Orderly (World.polled 0) :=
    Thing.lopsided_orderly (World.polled 0)
  have hfits : (Thing.lopsided.access {}).FitsIn .unpivoted := Thing.lopsided_fitsIn rfl
  have hpivot : Settings.unpivoted.usesPivot = false := rfl
  have ⟨outcome, handed, w', hiterate, henumerate, horder, _⟩ :=
    iterate_lexicographic horderly hpivot Thing.lopsided_polledBy {}
  ⟨horderly, hpivot, Thing.lopsided_polledBy, hfits, outcome, handed, w', hiterate, henumerate,
    (horder hfits).1⟩

end MaximalCliques
