import MaximalCliques.Proofs.Enumeration.Refinement
import MaximalCliques.Proofs.Search.Visits

/-!
# The cliques that a search commits to

* **`Access.ListsCliques`** — a list holds every clique of a graph once, maximal or not, and nothing else.
* **`Access.ListsCliques.countP_nonempty`** — all but one of them are not empty.
* **`Subject.Passes`** — the events that the search below a node passes through when nobody stops it.
* **`Subject.visited_listAtMostOnce`** — no two nodes of the search commit to the same nodes of the graph.
* **`Subject.visited_listCliques`** — a search that leaves nothing out commits to each clique once.
* **`Access.RunsThrough`** — an enumeration that nobody stops, with the events that it passes through.
* **`exists_histories_of_settled`** — on a pool the root and the branches visit the same nodes.
* **`iterate_visits_cliques`** — without a pivot there is one call for each clique, one branch for each that
  is not empty.
-/

namespace MaximalCliques

variable {σ : Type} {g : Access σ} {w : σ} {o : Oracle} {settings : Settings}

/-! ### All cliques -/

/-- Of sets that are pairwise distinct, exactly one is equal to a set if one is. -/
theorem Identifier.countP_sameSet {cs : List (List Identifier)} {K : List Identifier}
    (honce : cs.Pairwise fun c d => sameSet c d = false) (h : ∃ c ∈ cs, sameSet c K = true) :
    cs.countP (fun c => sameSet c K) = 1 := by
  induction cs with
  | nil =>
    obtain ⟨c, hc, -⟩ := h
    exact absurd hc List.not_mem_nil
  | cons d cs ih =>
    obtain ⟨hd, honce⟩ := List.pairwise_cons.1 honce
    by_cases hdK : sameSet d K = true
    · have hnone : cs.countP (fun c => sameSet c K) = 0 := by
        refine List.countP_eq_zero.2 fun c hc hcK => ?_
        rw [sameSet_comm] at hcK
        have hdc := sameSet_trans hdK hcK
        rw [hd c hc] at hdc
        exact Bool.false_ne_true hdc
      rw [List.countP_cons, hnone, if_pos hdK]
    · obtain ⟨c, hc, hcK⟩ := h
      rw [List.countP_cons, if_neg hdK, Nat.add_zero]
      rcases List.mem_cons.1 hc with rfl | hc
      · exact absurd hcK hdK
      · exact ih honce ⟨c, hc, hcK⟩

/-- **A list of sets holds each clique exactly once and nothing else**, maximal or not, the empty one
included.  Cliques are compared as sets of nodes, whatever the spelling. -/
structure Access.ListsCliques (g : Access σ) (w : σ) (cs : List (List Identifier)) : Prop where
  sound : ∀ c ∈ cs, ∃ K, g.IsClique w K ∧ Identifier.sameSet c K = true
  complete : ∀ K, g.IsClique w K → ∃ c ∈ cs, Identifier.sameSet c K = true
  once : cs.Pairwise fun c d => Identifier.sameSet c d = false

namespace Access.ListsCliques

variable {cs ds : List (List Identifier)}

theorem countP_nonempty (h : g.ListsCliques w cs) :
    cs.countP (fun c => !c.isEmpty) + 1 = cs.length := by
  have hempty : cs.countP List.isEmpty = 1 := by
    rw [← Identifier.countP_sameSet h.once (h.complete [] .nil)]
    refine List.countP_congr fun c _ => ?_
    cases c <;> simp [Identifier.sameSet, Identifier.isIn]
  have hall : cs.length = cs.countP List.isEmpty + cs.countP fun c => !c.isEmpty := by
    rw [List.length_eq_countP_add_countP List.isEmpty]
    simp only [Bool.not_eq_true, Bool.decide_eq_false]
  omega

end Access.ListsCliques

theorem Access.listsCliques_of_listOnce (hg : g.Orderly w) (ho : o.Tabulates g w) {cs : List Clique}
    (hcs : ∀ c ∈ cs, ∀ u ∈ c, g.Stands w u)
    (h : ListOnce (cs.map (List.map (·.index))) (Extends o.linked (g.indices w))) :
    g.ListsCliques w (cs.map Clique.nodes) := by
  obtain ⟨hsound, hcomplete, honce⟩ := sets_of_listOnce hg hcs
    (fun S hS => ⟨hS.subset, isClique_named hg ho hS⟩)
    (fun K hK => ⟨hK.listed, extends_positions hg ho hK⟩) h
  exact ⟨hsound, hcomplete, honce⟩

/-- The positions of the listed nodes that are in a set, whatever their spelling. -/
def Access.positionsIn (g : Access σ) (w : σ) (c : List Identifier) : List Nat :=
  ((g.places w).filter fun x => x.isIn c).map g.position

theorem Access.toFinset_positionsIn (hg : g.Orderly w) {c K : List Identifier}
    (hK : ∀ x ∈ K, x ∈ g.listed w) (h : Identifier.sameSet c K = true) :
    (g.positionsIn w c).toFinset = (K.map g.position).toFinset := by
  obtain ⟨hcK, hKc⟩ := Identifier.sameSet_iff_partOf.1 h
  ext i
  simp only [positionsIn, List.mem_toFinset, List.mem_map, List.mem_filter]
  constructor
  · rintro ⟨x, ⟨hx, hxc⟩, rfl⟩
    obtain ⟨y, hy, hyx⟩ := Identifier.isIn_iff.1 (hcK.isIn hxc)
    exact ⟨y, hy, (hg.position_eq_iff (.inl (hK y hy)) (names_of_mem_places hx)).2 hyx⟩
  · rintro ⟨y, hy, rfl⟩
    have hplace : y.isIn (g.places w) = true := by
      rw [isIn_places]
      exact Identifier.isIn_of_mem (hK y hy)
    obtain ⟨x, hx, hxy⟩ := Identifier.isIn_iff.1 hplace
    refine ⟨x, ⟨hx, ?_⟩, (hg.position_eq_iff (names_of_mem_places hx) (.inl (hK y hy))).2 hxy⟩
    rw [Identifier.isIn_congr hxy]
    exact hKc y hy

/-- The positions of cliques that are listed once extend the root, each once. -/
theorem Access.ListsCliques.listOnce {cs : List (List Identifier)} (h : g.ListsCliques w cs)
    (hg : g.Orderly w) (ho : o.Tabulates g w) :
    ListOnce (cs.map (g.positionsIn w)) (Extends o.linked (g.indices w)) := by
  rw [ListOnce, List.map_map]
  refine ⟨List.pairwise_map.2 (h.once.imp_of_mem ?_), fun S => ⟨fun hS => ?_, fun hS => ?_⟩⟩
  · intro c d hc hd hcd heq
    obtain ⟨K, hK, hcK⟩ := h.sound c hc
    obtain ⟨L, hL, hdL⟩ := h.sound d hd
    have hpositions : (K.map g.position).toFinset = (L.map g.position).toFinset := by
      rw [← toFinset_positionsIn hg hK.listed hcK, ← toFinset_positionsIn hg hL.listed hdL]
      exact heq
    have hKL := (sameSet_iff_positions hg (fun x hx => .inl (hK.listed x hx))
      (fun x hx => .inl (hL.listed x hx))).2 hpositions
    rw [Identifier.sameSet_comm] at hdL
    rw [Identifier.sameSet_trans hcK (Identifier.sameSet_trans hKL hdL)] at hcd
    exact absurd hcd (by decide)
  · obtain ⟨c, hc, rfl⟩ := List.mem_map.1 hS
    obtain ⟨K, hK, hcK⟩ := h.sound c hc
    show Extends o.linked (g.indices w) (g.positionsIn w c).toFinset
    rw [toFinset_positionsIn hg hK.listed hcK]
    exact extends_positions hg ho hK
  · have hclique := isClique_named hg ho hS
    obtain ⟨c, hc, hcK⟩ := h.complete _ hclique
    refine List.mem_map.2 ⟨c, hc, ?_⟩
    show (g.positionsIn w c).toFinset = S
    rw [toFinset_positionsIn hg hclique.listed hcK, toFinset_named hS.subset]

/-! ### What the search commits to -/

namespace Subject

/-- **The events that the search below a node passes through** when nobody stops it and the graph answers
for each neighbourhood that is asked for. -/
def Passes (s : Subject) (g : Access σ) (w : σ) (settings : Settings) (n : SearchNode Vertex)
    (events : List (Event Vertex)) : Prop :=
  ∃ hoods, (∀ v, g.Stands w v → (neighbourhood g s.oracle s.roster v).Answers w (hoods v)) ∧
    (searchBelow settings n).trail hoods (fun _ => false) 0 = (events, some ())

theorem passes_historyBelow (hg : g.Orderly w) (ho : o.Tabulates g w) (settings : Settings)
    (n : SearchNode Vertex) :
    Passes ⟨o, g.roster w⟩ g w settings n (historyBelow g w o settings n) :=
  ⟨g.hoodAt w o, fun _ hv => Access.neighbourhood_answers hg ho hv, Run.trail_never _ _ 0⟩

variable (hg : g.Orderly w) (ho : o.Tabulates g w)
include hg ho

theorem stands_of_mem_visited (settings : Settings) :
    ∀ c ∈ Event.visited (history g w o settings), ∀ u ∈ c, g.Stands w u :=
  (searchBelow_mirrors hg ho settings (root_within g w o)).visited

/-- The search commits to the positions that the search on positions commits to. -/
theorem map_visited (settings : Settings) :
    (Event.visited (history g w o settings)).map (List.map (·.index))
      = Event.visited ((onPositions settings).below (fun i => .ofTest (o.linked i))
        ⟨[], g.indices w, []⟩) := by
  show _ = Event.visited (((onPositions settings).expand ((root ⟨o, g.roster w⟩).map Vertex.index)
    (.done ())).events fun i => .ofTest (o.linked i))
  rw [(searchBelow_mirrors hg ho settings (root_within g w o)).events, Event.visited_map]
  rfl

/-- **No two nodes of the search commit to the same nodes of the graph**, and each commits to a set of
positions that extends the root. -/
theorem visited_listAtMostOnce (settings : Settings) :
    ListAtMostOnce ((Event.visited (history g w o settings)).map (List.map (·.index)))
      (Extends o.linked (g.indices w)) := by
  rw [map_visited hg ho]
  exact Plan.visited_root o.isLinkage_linked (Access.nodup_indices hg)

/-- **A search that leaves nothing out** commits to every set of positions that extends the root, once. -/
theorem visited_listOnce (hspreads : (onPositions settings).Spreads o.linked) :
    ListOnce ((Event.visited (history g w o settings)).map (List.map (·.index)))
      (Extends o.linked (g.indices w)) := by
  rw [map_visited hg ho]
  exact Plan.visited_root_of_spreads o.isLinkage_linked (Access.nodup_indices hg) hspreads

/-- **A search that leaves nothing out commits to each clique once.** -/
theorem visited_listCliques (hspreads : (onPositions settings).Spreads o.linked) :
    g.ListsCliques w ((Event.visited (history g w o settings)).map Clique.nodes) :=
  Access.listsCliques_of_listOnce hg ho (stands_of_mem_visited hg ho settings)
    (visited_listOnce hg ho hspreads)

omit hg ho in
/-- **A search counts a call for each node** that it visits and a branch for each but the root. -/
theorem tally_history_visited (g : Access σ) (w : σ) (o : Oracle) (settings : Settings) :
    (Event.tally (history g w o settings)).calls
        = (Event.visited (history g w o settings)).length ∧
      (Event.tally (history g w o settings)).branches + 1
        = (Event.visited (history g w o settings)).length := by
  have hcalls := Event.calls_tally (history g w o settings)
  refine ⟨hcalls, ?_⟩
  obtain ⟨es, hes, halternate⟩ :=
    ((plan settings).alternate_search (g.hoodAt w o)).1 (root ⟨o, g.roster w⟩)
  rw [← hcalls, history, historyBelow_eq, hes, halternate.calls_visit]

omit hg ho in
/-- The root and then the nodes below each of its branches are the nodes of the search. -/
theorem visited_eq_flatMap (hne : g.listed w ≠ []) :
    Event.visited (history g w o settings) = [] :: (topRoots g w o settings).flatMap fun n =>
      Event.visited (historyBelow g w o settings n) := by
  have hvertices : (g.roster w).vertices ≠ [] := fun h => hne (Access.vertices_eq_nil_iff.1 h)
  unfold history topRoots
  simp only [historyBelow_eq]
  exact Plan.visited_root_eq hvertices

end Subject

/-- **An enumeration that nobody stops**: what it tabulates, the events that it passes through, and what it
comes to. -/
structure Access.RunsThrough (g : Access σ) (settings : Settings) (counters : Counters) (w : σ)
    (s : Subject) (events : List (Event Vertex)) (outcome : Outcome) : Prop where
  tabulated : (Subject.tabulate g settings).Answers w s
  passes : s.Passes g w settings s.root events
  run : (iterate g settings (fun _ => pure false) counters).run w = (outcome, w)
  outcome_eq : outcome = .ofTrail s counters (events, some ())

/-- An enumeration of an orderly graph passes through the history of its search. -/
theorem Access.runsThrough_history (hg : g.Orderly w) (ho : o.Tabulates g w)
    (htabulate : (Subject.tabulate g settings).Answers w ⟨o, g.roster w⟩) (counters : Counters) :
    g.RunsThrough settings counters w ⟨o, g.roster w⟩ (Subject.history g w o settings)
      (.ofTrail ⟨o, g.roster w⟩ counters (Subject.history g w o settings, some ())) where
  tabulated := htabulate
  passes := Subject.passes_historyBelow hg ho settings _
  run := iterate_unstopped hg ho htabulate counters
  outcome_eq := rfl

/-! ### Without a pivot -/

/-- The increase of the calls and of the branches of a search that leaves nothing out. -/
theorem Subject.tally_of_listsCliques (hg : g.Orderly w) (ho : o.Tabulates g w)
    (hspreads : (onPositions settings).Spreads o.linked) {cs : List (List Identifier)}
    (hcs : g.ListsCliques w cs) :
    (Event.tally (history g w o settings)).calls = cs.length ∧
      (Event.tally (history g w o settings)).branches = cs.countP (fun c => !c.isEmpty) := by
  have hlength := (hcs.listOnce hg ho).length_eq (visited_listOnce hg ho hspreads)
  rw [List.length_map, List.length_map] at hlength
  have hnonempty := hcs.countP_nonempty
  obtain ⟨hcalls, hbranches⟩ := tally_history_visited g w o settings
  omega

/-- The branches of an enumeration on a pool that nobody stops pass through the events below their roots:
together with the root, the nodes that they visit are those of the search from the root. -/
theorem exists_histories_of_settled (hg : g.Orderly w) (ho : o.Tabulates g w)
    (htabulate : (Subject.tabulate g settings).Answers w ⟨o, g.roster w⟩) (hwork : settings.AllowsWork)
    {counters : Counters} {moves : List Move} {branches : List Branch} {outcome : Outcome} {world : σ}
    (h : enumerateOnPool g settings (fun _ => pure false) counters moves w
      = .settled branches outcome world) :
    outcome.counters = counters + Event.tally (Subject.history g w o settings) ∧
      ∃ histories, List.Forall₂ (fun b es =>
          Subject.Passes ⟨o, g.roster w⟩ g w settings b.root es ∧ b.counters = Event.tally es ∧
            b.found = Event.delivered es) branches histories ∧
        [] :: histories.flatMap Event.visited = Event.visited (Subject.history g w o settings) := by
  by_cases hempty : g.listed w = []
  · obtain ⟨rfl, -, -, hcounters⟩ := enumerateOnPool_unstopped_of_empty htabulate h hempty
    refine ⟨hcounters, [], .nil, ?_⟩
    rw [Subject.history_of_listed_eq_nil o settings hempty]
    rfl
  · obtain ⟨rfl, -, -, hcounters⟩ := enumerateOnPool_unstopped hg ho htabulate h hempty hwork
    refine ⟨hcounters, (Subject.topRoots g w o settings).map (Subject.historyBelow g w o settings),
      ?_, ?_⟩
    · rw [List.forall₂_map_left_iff, List.forall₂_map_right_iff, List.forall₂_same]
      exact fun n _ => ⟨Subject.passes_historyBelow hg ho settings n, rfl, rfl⟩
    · rw [List.flatMap_map, Subject.visited_eq_flatMap hempty]

/-- **Without a pivot the search visits each clique once.**  Take an orderly graph that fits, settings
without a pivot and either engine, and no stop.  The nodes that the search visits commit to the cliques of
the graph, maximal or not and the empty one included, each once.  So there is a call for each clique and a
branch for each that is not empty, however the cliques are listed.  With workers that can work the same
holds on a pool, whatever the schedule: the root and the nodes that the branches visit are the nodes of the
search. -/
theorem iterate_visits_cliques (hg : g.Orderly w) (hfits : g.FitsIn settings)
    (hpivot : settings.usesPivot = false) (counters : Counters) :
    ∃ s events outcome, g.RunsThrough settings counters w s events outcome ∧
      g.ListsCliques w ((Event.visited events).map Clique.nodes) ∧
      (∀ cs, g.ListsCliques w cs →
        outcome.counters.calls - counters.calls = cs.length ∧
        outcome.counters.branches - counters.branches = cs.countP (fun c => !c.isEmpty)) ∧
      (settings.AllowsWork →
        (Standing.Ends fun moves =>
          enumerateOnPool g settings (fun _ => pure false) counters moves w) ∧
        ∀ moves branches pooled world,
          enumerateOnPool g settings (fun _ => pure false) counters moves w
            = .settled branches pooled world →
          pooled.counters = outcome.counters ∧
          ∃ histories, List.Forall₂ (fun b es => s.Passes g w settings b.root es ∧
              b.counters = Event.tally es ∧ b.found = Event.delivered es) branches histories ∧
            [] :: histories.flatMap Event.visited = Event.visited events) := by
  obtain ⟨o, ho, htabulate⟩ := Subject.tabulate_answers hg hfits
  have hspreads : (Subject.onPositions settings).Spreads o.linked :=
    Plan.spreads_of_not_pivot o.linked hpivot
  refine ⟨_, _, _, Access.runsThrough_history hg ho htabulate counters,
    Subject.visited_listCliques hg ho hspreads, fun cs hcs => ?_, fun hwork =>
      ⟨enumerateOnPool_ends hg ho htabulate (fun _ => false) counters hwork,
        fun moves branches pooled world h => ?_⟩⟩
  · obtain ⟨hcalls, hbranches⟩ := Subject.tally_of_listsCliques hg ho hspreads hcs
    constructor
    · show counters.calls + (Event.tally (Subject.history g w o settings)).calls - counters.calls = _
      omega
    · show counters.branches + (Event.tally (Subject.history g w o settings)).branches
        - counters.branches = _
      omega
  · exact exists_histories_of_settled hg ho htabulate hwork h

def Settings.unpivoted : Settings where
  pivot := .truth false
  iterative := .truth true
  parallelWorkers := .integer 2

/-- A search without a pivot on an asymmetric graph, and two workers on the same graph. -/
theorem iterate_visits_cliques_lopsided :
    (Thing.lopsided.access {}).Orderly {} ∧ (Thing.lopsided.access {}).FitsIn .unpivoted ∧
      Settings.unpivoted.usesPivot = false ∧ Settings.unpivoted.AllowsWork ∧
      ∃ s events outcome,
        (Thing.lopsided.access {}).RunsThrough .unpivoted {} {} s events outcome ∧
        (Thing.lopsided.access {}).ListsCliques {} ((Event.visited events).map Clique.nodes) ∧
        (∀ cs, (Thing.lopsided.access {}).ListsCliques {} cs →
          outcome.counters.calls - 0 = cs.length ∧
          outcome.counters.branches - 0 = cs.countP (fun c => !c.isEmpty)) ∧
        (Standing.Ends fun moves => enumerateOnPool (Thing.lopsided.access {}) .unpivoted
          (fun _ => pure false) {} moves {}) ∧
        ∀ moves branches pooled world,
          enumerateOnPool (Thing.lopsided.access {}) .unpivoted (fun _ => pure false) {} moves {}
            = .settled branches pooled world →
          pooled.counters = outcome.counters ∧
          ∃ histories, List.Forall₂ (fun b es =>
              s.Passes (Thing.lopsided.access {}) {} .unpivoted b.root es ∧
              b.counters = Event.tally es ∧ b.found = Event.delivered es) branches histories ∧
            [] :: histories.flatMap Event.visited = Event.visited events := by
  have hfits : (Thing.lopsided.access {}).FitsIn .unpivoted := Thing.lopsided_fitsIn rfl
  have hwork : Settings.unpivoted.AllowsWork := Settings.allowsWork_of_pos rfl (by decide)
  obtain ⟨s, events, outcome, hruns, hlists, hcounts, hpool⟩ :=
    iterate_visits_cliques (Thing.lopsided_orderly {}) hfits rfl {}
  exact ⟨Thing.lopsided_orderly {}, hfits, rfl, hwork, s, events, outcome, hruns, hlists, hcounts,
    hpool hwork⟩

end MaximalCliques
