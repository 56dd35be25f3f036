import MaximalCliques.Proofs.Enumeration.Completions
import MaximalCliques.Proofs.Search.StackSearch

/-!
# What the search on an orderly graph discovers

* **`Access.sets_of_listOnce`** — lists of sets of positions, and the sets of nodes at these positions.
* **`Subject.onPositions`** — the plan of a search, for positions in place of vertices.
* **`Subject.searchBelow_mirrors`** — a search on the graph mirrors one on positions.
* **`Subject.discoveries`** — the cliques that the search from the root delivers when nobody stops it.
* **`Subject.discoveries_enumerates`** — these are the maximal cliques, each once.
-/

namespace MaximalCliques

variable {σ : Type} {g : Access σ} {w : σ} {o : Oracle}

/-! ### Nodes of a clique -/

theorem Clique.mem_nodes {c : Clique} {x : Identifier} : x ∈ c.nodes ↔ ∃ u ∈ c, u.node = x := by
  simp only [Clique.nodes, Clique.inOrder, List.mem_map, List.mem_mergeSort]

/-- The positions of a clique's nodes are the indices of its vertices. -/
theorem Clique.toFinset_positions {c : Clique} (hc : ∀ u ∈ c, g.Stands w u) :
    (c.nodes.map g.position).toFinset = (c.map (·.index)).toFinset := by
  ext i
  simp only [List.mem_toFinset, List.mem_map, mem_nodes]
  constructor
  · intro h
    obtain ⟨_, ⟨u, hu, rfl⟩, rfl⟩ := h
    exact ⟨u, hu, (hc u hu).index⟩
  · intro h
    obtain ⟨u, hu, rfl⟩ := h
    exact ⟨u.node, ⟨u, hu, rfl⟩, (hc u hu).index.symm⟩

theorem Clique.names_of_mem_nodes {c : Clique} (hc : ∀ u ∈ c, g.Stands w u) {x : Identifier}
    (hx : x ∈ c.nodes) : g.Names w x := by
  obtain ⟨u, hu, rfl⟩ := mem_nodes.1 hx
  exact (hc u hu).named

theorem Clique.sameSet_nodes_iff (hg : g.Orderly w) {c d : Clique} (hc : ∀ u ∈ c, g.Stands w u)
    (hd : ∀ u ∈ d, g.Stands w u) : Identifier.sameSet c.nodes d.nodes = true ↔
      (c.map (·.index)).toFinset = (d.map (·.index)).toFinset := by
  rw [Access.sameSet_iff_positions hg (fun x => names_of_mem_nodes hc)
    (fun x => names_of_mem_nodes hd), toFinset_positions hc, toFinset_positions hd]

theorem Clique.pairwise_nodes (hg : g.Orderly w) {cs : List Clique}
    (hcs : ∀ c ∈ cs, ∀ u ∈ c, g.Stands w u)
    (h : ((cs.map (List.map (·.index))).map List.toFinset).Nodup) :
    cs.Pairwise fun c d => Identifier.sameSet c.nodes d.nodes = false := by
  rw [List.map_map] at h
  refine (List.pairwise_map.1 h).imp_of_mem fun {c d} hc hd hne => ?_
  rw [← Bool.not_eq_true, sameSet_nodes_iff hg (hcs c hc) (hcs d hd)]
  exact hne

/-- **Sets of positions and sets of nodes.**  Let the listed nodes at the positions of a set with the
property `q` have the property `p`, and the positions of nodes with the property `p` the property `q`.
Then cliques whose positions are the sets with the property `q`, once each, are the sets of nodes with the
property `p`, once each. -/
theorem Access.sets_of_listOnce (hg : g.Orderly w) {p : List Identifier → Prop}
    {q : Finset Nat → Prop} {cs : List Clique} (hcs : ∀ c ∈ cs, ∀ u ∈ c, g.Stands w u)
    (hnamed : ∀ S, q S → (∀ i ∈ S, i ∈ g.indices w) ∧ p (g.named w S))
    (hpositions : ∀ K, p K → (∀ x ∈ K, x ∈ g.listed w) ∧ q (K.map g.position).toFinset)
    (h : ListOnce (cs.map (List.map (·.index))) q) :
    (∀ c ∈ cs.map Clique.nodes, ∃ K, p K ∧ Identifier.sameSet c K = true) ∧
      (∀ K, p K → ∃ c ∈ cs.map Clique.nodes, Identifier.sameSet c K = true) ∧
      (cs.map Clique.nodes).Pairwise fun c d => Identifier.sameSet c d = false := by
  obtain ⟨hnodup, hmem⟩ := h
  rw [List.map_map] at hmem
  refine ⟨?_, ?_, ?_⟩
  · intro nodes hnodes
    obtain ⟨c, hc, rfl⟩ := List.mem_map.1 hnodes
    obtain ⟨hsubset, hp⟩ := hnamed _ ((hmem _).1 (List.mem_map_of_mem hc))
    refine ⟨_, hp, ?_⟩
    rw [sameSet_iff_positions hg (fun x => Clique.names_of_mem_nodes (hcs c hc))
      (fun x hx => names_of_mem_places (mem_named.1 hx).1), toFinset_named hsubset,
      Clique.toFinset_positions (hcs c hc)]
    rfl
  · intro K hK
    obtain ⟨hlisted, hq⟩ := hpositions K hK
    obtain ⟨c, hc, hcK⟩ := List.mem_map.1 ((hmem _).2 hq)
    refine ⟨Clique.nodes c, List.mem_map_of_mem hc, ?_⟩
    rw [sameSet_iff_positions hg (fun x => Clique.names_of_mem_nodes (hcs c hc))
      (fun x hx => .inl (hlisted x hx)), Clique.toFinset_positions (hcs c hc), ← hcK]
    rfl
  · exact List.pairwise_map.2 (Clique.pairwise_nodes hg hcs hnodup)

/-- **Cliques that complete the root, once each, are the maximal cliques.** -/
theorem Access.enumerates_of_listOnce (hg : g.Orderly w) (ho : o.Tabulates g w) {cs : List Clique}
    (hcs : ∀ c ∈ cs, ∀ u ∈ c, g.Stands w u)
    (h : ListOnce (cs.map (List.map (·.index))) (Completes o.linked (g.indices w) [])) :
    g.Enumerates w (cs.map Clique.nodes) := by
  obtain ⟨hsound, hcomplete, honce⟩ := sets_of_listOnce hg hcs
    (fun S hS => ⟨hS.subset, isMaximalClique_named hg ho hS⟩)
    (fun K hK => ⟨hK.listed, completes_positions hg ho hK⟩) h
  exact ⟨hsound, hcomplete, honce⟩

namespace Subject

/-! ### The search on positions -/

/-- The plan that the settings ask for, for positions in place of vertices. -/
def onPositions (settings : Settings) : Plan Nat := ⟨settings.usesPivot, fun i j => i ≤ j⟩

theorem plan_agrees (hg : g.Orderly w) (settings : Settings) :
    (plan settings).Agrees Vertex.index (g.Stands w) (onPositions settings) where
  pivot := rfl
  le := by
    intro u v hu hv
    show (u.index < v.index || (u.index == v.index && u.place ≤ v.place)) = decide (u.index ≤ v.index)
    by_cases heq : u.index = v.index
    · have hplace : u.place = v.place := by
        rw [hu.place_eq_iff hv, ← hu.index_eq_iff hg hv]
        exact heq
      simp [heq, hplace]
    · simp [heq, Nat.lt_iff_le_and_ne]

/-- **The search below a node mirrors a search on positions.** -/
theorem searchBelow_mirrors (hg : g.Orderly w) (ho : o.Tabulates g w) (settings : Settings)
    {n : SearchNode Vertex} (hn : n.Within (g.Stands w)) :
    (searchBelow settings n).Mirrors Vertex.index (g.Stands w) (g.hoodAt w o)
      (fun i => .ofTest (o.linked i)) (fun _ _ => True)
      ((onPositions settings).expand (n.map Vertex.index) (.done ())) := by
  rw [searchBelow_eq]
  exact Plan.expand_mirrors (plan_agrees hg settings)
    (fun v hv => Access.hoodAt_mirrors hg ho hv) hn (.done trivial)

def root (s : Subject) : SearchNode Vertex := ⟨[], s.roster.vertices, []⟩

theorem root_within (g : Access σ) (w : σ) (o : Oracle) :
    (root ⟨o, g.roster w⟩).Within (g.Stands w) where
  committed _ hu := absurd hu List.not_mem_nil
  candidates _ hu := Access.stands_of_mem_vertices hu
  excluded _ hu := absurd hu List.not_mem_nil

def historyBelow (g : Access σ) (w : σ) (o : Oracle) (settings : Settings)
    (n : SearchNode Vertex) : List (Event Vertex) := (searchBelow settings n).events (g.hoodAt w o)

theorem historyBelow_eq (settings : Settings) (n : SearchNode Vertex) :
    historyBelow g w o settings n = (plan settings).below (g.hoodAt w o) n := by
  rw [historyBelow, searchBelow_eq]
  rfl

/-- The cliques that are delivered below a node when nobody stops the search, in order. -/
def discoveriesBelow (g : Access σ) (w : σ) (o : Oracle) (settings : Settings)
    (n : SearchNode Vertex) : List Clique := Event.delivered (historyBelow g w o settings n)

/-- The cliques that the search from the root delivers when nobody stops it, in order. -/
def discoveries (g : Access σ) (w : σ) (o : Oracle) (settings : Settings) : List Clique :=
  discoveriesBelow g w o settings (root ⟨o, g.roster w⟩)

variable (hg : g.Orderly w) (ho : o.Tabulates g w)
include hg ho

theorem stands_of_mem_discoveriesBelow {settings : Settings} {n : SearchNode Vertex}
    (hn : n.Within (g.Stands w)) :
    ∀ c ∈ discoveriesBelow g w o settings n, ∀ u ∈ c, g.Stands w u :=
  (searchBelow_mirrors hg ho settings hn).delivered

/-- What is discovered has the positions that the search on positions delivers. -/
theorem map_discoveriesBelow (settings : Settings) {n : SearchNode Vertex}
    (hn : n.Within (g.Stands w)) :
    (discoveriesBelow g w o settings n).map (List.map (·.index))
      = Event.delivered ((onPositions settings).below (fun i => .ofTest (o.linked i))
        (n.map Vertex.index)) := by
  rw [discoveriesBelow, historyBelow, Plan.below, (searchBelow_mirrors hg ho settings hn).events,
    Event.delivered_map]

/-- **The discoveries are the completions of the root**, once each. -/
theorem discoveries_listOnce (settings : Settings) :
    ListOnce ((discoveries g w o settings).map (List.map (·.index)))
      (Completes o.linked (g.indices w) []) := by
  rw [discoveries, map_discoveriesBelow hg ho settings (root_within g w o)]
  refine (Plan.delivered_below o.isLinkage_linked (onPositions settings) ?_ ?_).congr ?_
  · exact Access.nodup_indices hg
  · intro i _
    exact List.not_mem_nil
  · intro S
    show (∃ K, Completes o.linked (g.indices w) [] K ∧ S = K ∪ ∅) ↔ _
    simp only [Finset.union_empty, exists_eq_right']

/-- **The discoveries are the maximal cliques**, once each. -/
theorem discoveries_enumerates (settings : Settings) :
    g.Enumerates w ((discoveries g w o settings).map Clique.nodes) :=
  Access.enumerates_of_listOnce hg ho
    (stands_of_mem_discoveriesBelow hg ho (root_within g w o))
    (discoveries_listOnce hg ho settings)

end Subject

end MaximalCliques
