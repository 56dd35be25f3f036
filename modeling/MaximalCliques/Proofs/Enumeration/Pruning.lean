import MaximalCliques.Proofs.Enumeration.Visits

/-!
# A pivot prunes

With a pivot the search visits some of the nodes that it visits without one, if nodes are told apart by
what they commit to.  It leaves some out exactly if two nodes of the graph are mutually adjacent.

* **`Subject.visited_pairwise`**, **`Subject.countP_visited`** — what the two searches commit to.
* **`Subject.visited_length_le`**, **`Subject.visited_length_lt`**, **`Subject.visited_length_eq`** — how many
  nodes they visit.
* **`iterate_pruned`** — what a pivot changes in an enumeration, and what it does not change.
-/

namespace MaximalCliques

variable {σ : Type} {g : Access σ} {w : σ} {o : Oracle} {settings whole : Settings}

/-- Where no two nodes are mutually adjacent, no positions are linked. -/
theorem Oracle.Tabulates.linked_eq_false (hg : g.Orderly w) (ho : o.Tabulates g w)
    (hnone : ¬∃ x y, g.Mutual w x y) (i j : Nat) : o.linked i j = false := by
  rw [← Bool.not_eq_true, Oracle.linked_iff_mutual hg ho]
  rintro ⟨x, y, hxy, -, -⟩
  exact hnone ⟨x, y, hxy⟩

namespace Subject

variable (hg : g.Orderly w) (ho : o.Tabulates g w)
include hg ho

/-- Different nodes of the search commit to different nodes of the graph. -/
theorem visited_pairwise (settings : Settings) :
    (Event.visited (history g w o settings)).Pairwise fun c d : Clique =>
      Identifier.sameSet c.nodes d.nodes = false :=
  Clique.pairwise_nodes hg (stands_of_mem_visited hg ho settings) (visited_listAtMostOnce hg ho settings).1

/-- The cliques that are discovered are equally many, whatever the settings. -/
theorem discoveries_length_eq (settings whole : Settings) :
    (discoveries g w o settings).length = (discoveries g w o whole).length := by
  have hlength := (discoveries_listOnce hg ho settings).length_eq (discoveries_listOnce hg ho whole)
  rw [List.length_map, List.length_map] at hlength
  exact hlength

section Whole

variable (hwhole : whole.usesPivot = false)
include hwhole

/-- Without a pivot the search commits to every set that a search commits to. -/
theorem visited_listOnce_whole :
    ListOnce ((Event.visited (history g w o whole)).map (List.map (·.index)))
      (Extends o.linked (g.indices w)) :=
  visited_listOnce hg ho (Plan.spreads_of_not_pivot o.linked hwhole)

/-- **A search visits no more nodes than the search without a pivot.** -/
theorem visited_length_le (settings : Settings) :
    (Event.visited (history g w o settings)).length
      ≤ (Event.visited (history g w o whole)).length := by
  have hle := (visited_listAtMostOnce hg ho settings).length_le
    (visited_listOnce_whole hg ho hwhole)
  rw [List.length_map, List.length_map] at hle
  exact hle

/-- **With a pivot the search visits fewer nodes**, if two nodes of the graph are mutually adjacent. -/
theorem visited_length_lt (hpivot : settings.usesPivot = true) (hmutual : ∃ x y, g.Mutual w x y) :
    (Event.visited (history g w o settings)).length
      < (Event.visited (history g w o whole)).length := by
  obtain ⟨x, y, hxy⟩ := hmutual
  have hlinked := (Access.linked_position_iff hg ho hxy.left_listed hxy.right_listed).2 hxy
  have hleft : ∃ S, Extends o.linked (g.indices w) S ∧
      S ∉ ((Event.visited (history g w o settings)).map (List.map (·.index))).map
        List.toFinset := by
    rw [map_visited hg ho]
    exact Plan.exists_not_visited o.isLinkage_linked (Access.nodup_indices hg) hpivot
      (Access.position_mem_indices hg hxy.left_listed)
      (Access.position_mem_indices hg hxy.right_listed) hlinked
  obtain ⟨S, hS, hnot⟩ := hleft
  have hlt := (visited_listAtMostOnce hg ho settings).length_lt
    (visited_listOnce_whole hg ho hwhole) hS hnot
  rw [List.length_map, List.length_map] at hlt
  exact hlt

/-- **Where no two nodes are mutually adjacent** a pivot leaves nothing out. -/
theorem visited_length_eq (settings : Settings) (hnone : ¬∃ x y, g.Mutual w x y) :
    (Event.visited (history g w o settings)).length
      = (Event.visited (history g w o whole)).length := by
  have hspreads : (onPositions settings).Spreads o.linked :=
    Plan.spreads_of_unlinked _ (ho.linked_eq_false hg hnone)
  have hlength := (visited_listOnce hg ho hspreads).length_eq
    (visited_listOnce_whole hg ho hwhole)
  rw [List.length_map, List.length_map] at hlength
  exact hlength

/-- **What a search commits to is committed to exactly once** by the search without a pivot. -/
theorem countP_visited (settings : Settings) {c : Clique}
    (hc : c ∈ Event.visited (history g w o settings)) :
    (Event.visited (history g w o whole)).countP
      (fun d : Clique => Identifier.sameSet d.nodes c.nodes) = 1 := by
  have hstands := stands_of_mem_visited hg ho settings
  have hstands' := stands_of_mem_visited hg ho whole
  have hextends := (visited_listAtMostOnce hg ho settings).2 _
    (List.mem_map_of_mem (List.mem_map_of_mem hc))
  obtain ⟨is, his, hds⟩ := List.mem_map.1
    (((visited_listOnce_whole hg ho hwhole).2 _).2 hextends)
  obtain ⟨d, hd, rfl⟩ := List.mem_map.1 his
  have hone : ((Event.visited (history g w o whole)).map Clique.nodes).countP
      (fun K => Identifier.sameSet K c.nodes) = 1 := by
    refine Identifier.countP_sameSet (List.pairwise_map.2 (visited_pairwise hg ho whole)) ?_
    exact ⟨Clique.nodes d, List.mem_map_of_mem hd,
      (Clique.sameSet_nodes_iff hg (hstands' d hd) (hstands c hc)).2 hds⟩
  rw [List.countP_map] at hone
  exact hone

end Whole

end Subject

/-- **A pivot prunes, and prunes exactly if there is something to prune.**  Take an orderly graph, and two
settings for which it fits, with either engine, one with a pivot and one without; both enumerations run to
their end.  The nodes that the search with a pivot visits commit to pairwise different cliques, and each
commits to what exactly one node of the search without a pivot commits to.  So with a pivot there are never
more calls or branches; there are fewer exactly if two nodes of the graph are mutually adjacent, and equally
many otherwise.  The number of maximal cliques that are delivered is the same. -/
theorem iterate_pruned {pivoted plain : Settings} (hg : g.Orderly w) (hfits : g.FitsIn pivoted)
    (hfits' : g.FitsIn plain) (hpivoted : pivoted.usesPivot = true) (hplain : plain.usesPivot = false)
    (counters : Counters) :
    ∃ s t pruned unpruned few many,
      g.RunsThrough pivoted counters w s pruned few ∧ g.RunsThrough plain counters w t unpruned many ∧
      ((Event.visited pruned).Pairwise fun c d : Clique => Identifier.sameSet c.nodes d.nodes = false) ∧
      (∀ c : Clique, c ∈ Event.visited pruned → (Event.visited unpruned).countP
        (fun d : Clique => Identifier.sameSet d.nodes c.nodes) = 1) ∧
      few.counters.calls ≤ many.counters.calls ∧ few.counters.branches ≤ many.counters.branches ∧
      (few.counters.calls < many.counters.calls ↔ ∃ x y, g.Mutual w x y) ∧
      (few.counters.branches < many.counters.branches ↔ ∃ x y, g.Mutual w x y) ∧
      few.cliques.length = many.cliques.length ∧ few.counters.cliques = many.counters.cliques := by
  obtain ⟨ho, htabulate⟩ := Subject.tabulate_shown hg hfits
  obtain ⟨-, htabulate'⟩ := Subject.tabulate_shown hg hfits'
  generalize Oracle.shown g w = o at ho htabulate htabulate'
  obtain ⟨hcalls, hbranches⟩ := Subject.tally_history_visited g w o pivoted
  obtain ⟨hcalls', hbranches'⟩ := Subject.tally_history_visited g w o plain
  have hle := Subject.visited_length_le hg ho hplain pivoted
  have hlt : (Event.visited (Subject.history g w o pivoted)).length
      < (Event.visited (Subject.history g w o plain)).length ↔ ∃ x y, g.Mutual w x y := by
    constructor
    · intro hlt
      by_contra hnone
      have heq := Subject.visited_length_eq hg ho hplain pivoted hnone
      omega
    · exact Subject.visited_length_lt hg ho hplain hpivoted
  have hcliques := Subject.discoveries_length_eq hg ho pivoted plain
  refine ⟨_, _, _, _, _, _, Access.runsThrough_history hg ho htabulate counters,
    Access.runsThrough_history hg ho htabulate' counters, Subject.visited_pairwise hg ho pivoted,
    fun c hc => Subject.countP_visited hg ho hplain pivoted hc, ?_, ?_, ?_, ?_, hcliques, ?_⟩
  · show counters.calls + (Event.tally (Subject.history g w o pivoted)).calls
      ≤ counters.calls + (Event.tally (Subject.history g w o plain)).calls
    omega
  · show counters.branches + (Event.tally (Subject.history g w o pivoted)).branches
      ≤ counters.branches + (Event.tally (Subject.history g w o plain)).branches
    omega
  · rw [← hlt]
    show counters.calls + (Event.tally (Subject.history g w o pivoted)).calls
      < counters.calls + (Event.tally (Subject.history g w o plain)).calls ↔ _
    omega
  · rw [← hlt]
    show counters.branches + (Event.tally (Subject.history g w o pivoted)).branches
      < counters.branches + (Event.tally (Subject.history g w o plain)).branches ↔ _
    omega
  · show counters.cliques + (Event.tally (Subject.history g w o pivoted)).cliques
      = counters.cliques + (Event.tally (Subject.history g w o plain)).cliques
    rw [Event.cliques_tally, Event.cliques_tally]
    exact congrArg (fun n : Nat => counters.cliques + n) hcliques

/-- On an asymmetric graph with two nodes that are mutually adjacent, a pivot prunes. -/
theorem iterate_pruned_lopsided :
    (Thing.lopsided.access {}).Orderly {} ∧ (Thing.lopsided.access {}).FitsIn {} ∧
      (Thing.lopsided.access {}).FitsIn .unpivoted ∧ Settings.usesPivot {} = true ∧
      Settings.unpivoted.usesPivot = false ∧
      ∃ s t pruned unpruned few many,
        (Thing.lopsided.access {}).RunsThrough {} {} {} s pruned few ∧
        (Thing.lopsided.access {}).RunsThrough .unpivoted {} {} t unpruned many ∧
        ((Event.visited pruned).Pairwise fun c d : Clique => Identifier.sameSet c.nodes d.nodes = false) ∧
        (∀ c : Clique, c ∈ Event.visited pruned → (Event.visited unpruned).countP
          (fun d : Clique => Identifier.sameSet d.nodes c.nodes) = 1) ∧
        few.counters.calls ≤ many.counters.calls ∧ few.counters.branches ≤ many.counters.branches ∧
        (few.counters.calls < many.counters.calls ↔
          ∃ x y, (Thing.lopsided.access {}).Mutual {} x y) ∧
        (few.counters.branches < many.counters.branches ↔
          ∃ x y, (Thing.lopsided.access {}).Mutual {} x y) ∧
        few.cliques.length = many.cliques.length ∧ few.counters.cliques = many.counters.cliques :=
  have hfits : (Thing.lopsided.access {}).FitsIn {} := Thing.lopsided_fitsIn rfl
  have hfits' : (Thing.lopsided.access {}).FitsIn .unpivoted := Thing.lopsided_fitsIn rfl
  ⟨Thing.lopsided_orderly {}, hfits, hfits', rfl, rfl,
    iterate_pruned (Thing.lopsided_orderly {}) hfits hfits' rfl rfl {}⟩

end MaximalCliques
