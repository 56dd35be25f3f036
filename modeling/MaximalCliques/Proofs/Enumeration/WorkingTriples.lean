import MaximalCliques.Proofs.Enumeration.Interruption
import MaximalCliques.Proofs.Enumeration.PoolOutcomes
import MaximalCliques.Proofs.Search.WorkingTriples

/-!
# Working triples of a graph

At every node of a search on an orderly graph the committed nodes form a clique, and the candidates and the
excluded nodes part the nodes that are mutually adjacent to all of them.  This holds wherever the search
stands: in a search from the root, for the branches that the root is split into, and in each branch of a
pool.  In a search from the root, besides, every maximal clique that holds the committed nodes and an
excluded one has been delivered when a node is visited.

* **`Access.IsTriple`**, **`Access.Exhausted`** — what is known of a node of the search.
* **`Access.Tracks.isTriple`** — it is known if it is known of the positions.
* **`Access.isInvariant_tracks`** — the search on a graph keeps it.
* **`Subject.exhausted_of_history`** — what has been delivered when a node is visited.
* **`Subject.KeepsTriples`**, **`search_keeps_triples`** — searches, branches and pools keep it.
-/

namespace MaximalCliques

variable {σ : Type} {g : Access σ} {w : σ} {o : Oracle} {settings : Settings}

/-! ### What is known of a node -/

namespace Access

/-- Nodes are mutually adjacent, however they are spelled. -/
def Adjoin (g : Access σ) (w : σ) (x y : Identifier) : Prop :=
  ∃ u v, g.Mutual w u v ∧ (u == x) = true ∧ (v == y) = true

/-- **A working triple of a graph.**  The committed nodes are mutually adjacent.  They, the candidates and the
excluded nodes are different nodes.  The candidates and the excluded nodes together are the nodes that are
mutually adjacent to all committed ones, whatever the spelling. -/
structure IsTriple (g : Access σ) (w : σ) (n : SearchNode Vertex) : Prop where
  listed : ∀ r ∈ n.committed, r.node.isIn (g.listed w) = true
  pairwise : n.committed.Pairwise fun r s => g.Adjoin w r.node s.node
  disjoint : (n.committed ++ (n.candidates ++ n.excluded)).Pairwise fun u v => (u.node == v.node) = false
  common : ∀ x : Identifier, x.isIn ((n.candidates ++ n.excluded).map (·.node)) = true ↔
    x.isIn (g.listed w) = true ∧ ∀ r ∈ n.committed, g.Adjoin w r.node x

/-- **All that holds an excluded node has been delivered**: every maximal clique that holds the committed
nodes and an excluded one. -/
def Exhausted (g : Access σ) (w : σ) (n : SearchNode Vertex) (delivered : List (List Identifier)) : Prop :=
  ∀ x ∈ n.excluded, ∀ K, g.IsMaximalClique w K → (∀ r ∈ n.committed, r.node.isIn K = true) →
    x.node.isIn K = true → ∃ c ∈ delivered, Identifier.sameSet c K = true

/-- The vertices of a node stand for nodes of the graph, and their indices form a working triple. -/
def Tracks (g : Access σ) (w : σ) (o : Oracle) (n : SearchNode Vertex) : Prop :=
  n.Within (g.Stands w) ∧ (n.map Vertex.index).IsTriple o.linked (g.indices w)

/-- Another spelling of a node is mutually adjacent to the same nodes. -/
theorem adjoin_congr {r x y : Identifier} (h : (x == y) = true) : g.Adjoin w r x ↔ g.Adjoin w r y := by
  refine exists₂_congr fun u v => and_congr_right fun _ => and_congr_right fun _ => ?_
  rw [BEq.congr_right h]

section Orderly

variable (hg : g.Orderly w)
include hg

theorem isIn_nodes_iff {u : Vertex} {vs : List Vertex} (hu : g.Stands w u) (hvs : ∀ v ∈ vs, g.Stands w v) :
    u.node.isIn (vs.map (·.node)) = true ↔ u.index ∈ vs.map (·.index) := by
  have hpositions : (vs.map (·.node)).map g.position = vs.map (·.index) := by
    rw [List.map_map]
    exact List.map_congr_left fun v hv => (hvs v hv).index.symm
  rw [isIn_iff_position hg hu.named (List.forall_mem_map.2 fun v hv => (hvs v hv).named), hpositions,
    hu.index]

variable (ho : o.Tabulates g w)
include ho

/-- **Vertices are linked by their indices** if their nodes are mutually adjacent. -/
theorem linked_index_iff {u v : Vertex} (hu : g.Stands w u) (hv : g.Stands w v) :
    o.linked u.index v.index = true ↔ g.Adjoin w u.node v.node := by
  rw [Oracle.linked_iff_mutual hg ho]
  refine exists₂_congr fun a b => and_congr_right fun hab => ?_
  rw [hu.index, hv.index, hg.position_eq_iff (.inl hab.left_listed) hu.named,
    hg.position_eq_iff (.inl hab.right_listed) hv.named]

/-- **A node whose indices form a working triple** is a working triple of the graph. -/
theorem Tracks.isTriple {n : SearchNode Vertex} (h : g.Tracks w o n) : g.IsTriple w n := by
  obtain ⟨hwithin, hpositions⟩ := h
  have hothers : ∀ u ∈ n.candidates ++ n.excluded, g.Stands w u :=
    List.forall_mem_append.2 ⟨hwithin.candidates, hwithin.excluded⟩
  refine ⟨fun r hr => (hwithin.committed r hr).isIn_listed, ?_, ?_, fun x => ?_⟩
  · refine (List.pairwise_map.1 hpositions.pairwise).imp_of_mem fun hr hs hrs => ?_
    exact (linked_index_iff hg ho (hwithin.committed _ hr) (hwithin.committed _ hs)).1 hrs
  · have hall : ∀ u ∈ n.committed ++ (n.candidates ++ n.excluded), g.Stands w u :=
      List.forall_mem_append.2 ⟨hwithin.committed, hothers⟩
    have hnodup := hpositions.nodup
    simp only [SearchNode.map, ← List.map_append] at hnodup
    exact (nodup_indices_iff hg hall).1 hnodup
  · by_cases hx : x.isIn (g.listed w) = true
    · obtain ⟨u, hu, hux⟩ := exists_vertex hx
      have hustands := stands_of_mem_vertices hu
      have hindex : u.index ∈ g.indices w := List.mem_map_of_mem hu
      have hcommon := hpositions.common u.index
      simp only [SearchNode.map, ← List.map_append] at hcommon
      rw [← Identifier.isIn_congr hux, isIn_nodes_iff hg hustands hothers, hcommon,
        and_iff_right hindex, and_iff_right hx, List.forall_mem_map]
      refine forall₂_congr fun r hr => ?_
      rw [linked_index_iff hg ho (hwithin.committed r hr) hustands, adjoin_congr hux]
    · -- only listed nodes are among the candidates and the excluded ones
      refine ⟨fun hin => absurd ?_ hx, fun hlisted => absurd hlisted.1 hx⟩
      obtain ⟨y, hy, hyx⟩ := Identifier.isIn_iff.1 hin
      obtain ⟨u, hu, rfl⟩ := List.mem_map.1 hy
      rw [← Identifier.isIn_congr hyx]
      exact (hothers u hu).isIn_listed

/-- **The search on a graph keeps its working triples.** -/
theorem isInvariant_tracks : SearchNode.IsInvariant (g.hoodAt w o) (g.Tracks w o) :=
  (SearchNode.isInvariant_isTriple o.isLinkage_linked (g.indices w)).comap fun _ hv =>
    hoodAt_mirrors hg ho hv

end Orderly

end Access

/-! ### Searches -/

namespace Subject

variable (hg : g.Orderly w) (ho : o.Tabulates g w)
include hg ho

omit ho in
theorem root_tracks : g.Tracks w o (root ⟨o, g.roster w⟩) :=
  ⟨root_within g w o, SearchNode.isTriple_root (Access.nodup_indices hg)⟩

/-- **Below a working triple** every event shows one. -/
theorem historyBelow_upholds (settings : Settings) {n : SearchNode Vertex} (hn : g.Tracks w o n) :
    ∀ e ∈ historyBelow g w o settings n, e.Upholds (g.Tracks w o) := by
  rw [historyBelow_eq]
  exact (Plan.search_upholds (Access.isInvariant_tracks hg ho) (plan settings)).1 n hn

/-- **The branches of the root** are working triples. -/
theorem topRoots_track (settings : Settings) : ∀ n ∈ topRoots g w o settings, g.Tracks w o n :=
  Plan.topNodes_uphold (Access.isInvariant_tracks hg ho) (plan settings) (root_tracks hg)

/-- What is left of a search below a working triple shows one where it stands. -/
theorem upholds_of_history {n : SearchNode Vertex} (hn : g.Tracks w o n) {es : List (Event Vertex)}
    {rest : Run Vertex Unit}
    (h : historyBelow g w o settings n = es ++ rest.events (g.hoodAt w o)) :
    rest.Upholds (g.IsTriple w) := by
  have hrest : rest.Upholds (g.Tracks w o) := Run.upholds_of_events fun e he =>
    historyBelow_upholds hg ho settings hn e (by rw [h]; exact List.mem_append_right es he)
  exact hrest.imp fun _ hm => hm.isTriple hg ho

/-- **When a node is visited in the search from the root**, every maximal clique that holds its committed
nodes and an excluded one has been delivered. -/
theorem exhausted_of_history {es fs : List (Event Vertex)} {n : SearchNode Vertex}
    (h : historyBelow g w o settings (root ⟨o, g.roster w⟩) = es ++ .visit n :: fs) :
    g.Exhausted w n ((Event.delivered es).map Clique.nodes) := by
  have hpositions := (searchBelow_mirrors hg ho settings (root_within g w o)).events
  rw [← historyBelow, h, List.map_append, List.map_cons] at hpositions
  have hexhausted := (onPositions settings).exhaust_root o.isLinkage_linked (Access.nodup_indices hg)
    hpositions
  have hn : n.Within (g.Stands w) :=
    (historyBelow_upholds hg ho settings (root_tracks hg) (.visit n)
      (by rw [h]; exact List.mem_append_right es List.mem_cons_self)).1
  intro x hx K hK hcommitted hxK
  have hin : ∀ u, g.Stands w u → u.node.isIn K = true → u.index ∈ (K.map g.position).toFinset := by
    intro u hu huK
    rw [List.mem_toFinset, hu.index]
    exact (Access.isIn_iff_position hg hu.named fun y hy => .inl (hK.listed y hy)).1 huK
  have hseen := hexhausted x.index (List.mem_map_of_mem hx) _ (Access.completes_positions hg ho hK)
    (List.forall_mem_map.2 fun r hr => hin r (hn.committed r hr) (hcommitted r hr))
    (hin x (hn.excluded x hx) hxK)
  rw [Event.delivered_map, List.map_map] at hseen
  obtain ⟨c, hc, hcK⟩ := List.mem_map.1 hseen
  have hdiscovered : c ∈ discoveriesBelow g w o settings (root ⟨o, g.roster w⟩) := by
    rw [discoveriesBelow, h, Event.delivered_append]
    exact List.mem_append_left _ hc
  have hcstands := stands_of_mem_discoveriesBelow hg ho (root_within g w o) c hdiscovered
  refine ⟨Clique.nodes c, List.mem_map_of_mem hc, ?_⟩
  rw [Access.sameSet_iff_positions hg (fun y => Clique.names_of_mem_nodes hcstands)
    (fun y hy => .inl (hK.listed y hy)), Clique.toFinset_positions hcstands]
  exact hcK

end Subject

/-- **A tabulated graph keeps its working triples**, wherever its search stands.

* In the search from the root every number of requests is answered, and then the node that is about to be
  visited is a working triple, and of the maximal cliques that hold its committed nodes all that hold an
  excluded one have been found.  A node whose candidate is about to be expanded is a working triple as it
  stands, and when this candidate has been excluded; so the candidates and the excluded nodes together stay
  the same while the candidates are gone through.
* The nodes that the root is split into are working triples.
* In a pool the same is true of the root of each branch and of the node that a running branch is about to
  visit or to expand, whatever the schedule and the answers to the polls. -/
structure Subject.KeepsTriples (s : Subject) (g : Access σ) (settings : Settings)
    (stop : Nat → Query σ Bool) (counters : Counters) (w : σ) : Prop where
  searched : ∀ n, ∃ left p v, ((s.search settings).afterRequests (s.conductor g stop) n).run
      ({ counters }, w) = (.ok left, (p, v)) ∧
    ∀ rest, left = some rest → rest.Upholds (g.IsTriple w) ∧
      ∀ node rest', rest = .visit node rest' → g.Exhausted w node (p.found.reverse.map Clique.nodes)
  split : ∃ roots p, (((plan settings).topBranches s.roster.vertices).finish (s.conductor g stop)).run
      ({ counters }, w) = (.ok (some roots), (p, w)) ∧ ∀ n ∈ roots, g.IsTriple w n
  pooled : ∀ (answers : Nat → Bool) moves pool,
    enumerateOnPool g settings (fun k => pure (answers k)) counters moves w = .underWay pool →
    ∀ t ∈ pool.tasks, g.IsTriple w t.root ∧
      ∀ rest, t.stage = .running rest → rest.Upholds (g.IsTriple w)

/-- **Search invariant.**  Take an orderly graph, any settings and any stop check that leaves the graph as it
is.  If the graph fits, its search keeps its working triples: from the root, where all that holds an excluded
node has been delivered when a node is visited, and on a pool.  A graph that does not fit is refused before
any search begins. -/
theorem search_keeps_triples {stop : Nat → Query σ Bool} {states : Nat → σ} {answers : Nat → Bool}
    (hg : g.Orderly (states 0)) (hpolled : ∀ n, g.PolledBy stop states answers n)
    (counters : Counters) :
    (g.FitsIn settings → ∃ s, (Subject.tabulate g settings).Answers (states 0) s ∧
      s.KeepsTriples g settings stop counters (states 0)) ∧
    (¬g.FitsIn settings → ∃ e,
      (Subject.tabulate g settings).run (states 0) = (.error e, states 0)) := by
  refine ⟨fun hfits => ?_, fun hfits => ?_⟩
  · obtain ⟨o, ho, htabulate⟩ := Subject.tabulate_answers hg hfits
    refine ⟨_, htabulate, fun n => ?_, ?_, fun answers moves pool h t ht => ?_⟩
    · obtain ⟨left, p, es, hleft, hfollows, hes⟩ := Subject.afterRequests_polled hpolled hg ho n
        (Subject.search_within hg ho settings) (p := { counters })
        (Progress.sound_of_empty g (states 0) o rfl)
      refine ⟨left, p, _, hleft, fun rest hrest => ⟨?_, fun node rest' hvisit => ?_⟩⟩
      · exact Subject.upholds_of_history hg ho (Subject.root_tracks hg) (hes rest hrest)
      · rw [hfollows.found, List.append_nil, List.reverse_reverse]
        exact Subject.exhausted_of_history hg ho (hvisit ▸ hes rest hrest)
    · obtain ⟨p, hfinish⟩ := Subject.finish_topBranches hg ho settings stop counters
      exact ⟨_, p, hfinish, fun n hn => (Subject.topRoots_track hg ho settings n hn).isTriple hg ho⟩
    · have hperform := perform_of_underWay hg ho htabulate answers counters h
      obtain ⟨hpool, -⟩ := perform_sound hg ho answers counters hperform
      have hroot : t.root ∈ Subject.topRoots g (states 0) o settings :=
        hpool.roots ▸ List.mem_map_of_mem ht
      have htracks := Subject.topRoots_track hg ho settings t.root hroot
      obtain ⟨es, hsound⟩ := hpool.tasks t ht
      refine ⟨htracks.isTriple hg ho, fun rest hstage => ?_⟩
      exact Subject.upholds_of_history hg ho htracks (hsound.events_of_running hstage).2
  · obtain ⟨e, hrefused⟩ := Subject.tabulate_refused hfits
    exact ⟨e, hrefused g rfl rfl (states 0) hg⟩

/-- The search of an asymmetric graph with a pivot and a stack that is stopped at its third poll, by a stop
check that changes the world at each poll. -/
theorem search_keeps_triples_lopsided :
    (Thing.lopsided.access {}).Orderly (World.polled 0) ∧
      (∀ n, (Thing.lopsided.access {}).PolledBy World.stopThird World.polled (fun k => k == 2) n) ∧
      (Thing.lopsided.access {}).FitsIn { iterative := .truth true } ∧
      ∃ s, (Subject.tabulate (Thing.lopsided.access {}) { iterative := .truth true }).Answers
          (World.polled 0) s ∧
        s.KeepsTriples (Thing.lopsided.access {}) { iterative := .truth true } World.stopThird {}
          (World.polled 0) :=
  have horderly : (Thing.lopsided.access {}).Orderly (World.polled 0) :=
    Thing.lopsided_orderly (World.polled 0)
  have hfits : (Thing.lopsided.access {}).FitsIn { iterative := .truth true } :=
    Thing.lopsided_fitsIn rfl
  ⟨horderly, Thing.lopsided_polledBy, hfits,
    (search_keeps_triples horderly Thing.lopsided_polledBy {}).1 hfits⟩

end MaximalCliques
