import MaximalCliques.Proofs.Graph.Bases
import MaximalCliques.Proofs.Graph.Networks
import MaximalCliques.Proofs.Graph.OracleEntries

/-!
# Two ways to tabulate a network

The edges of a numbered network can be entered one by one, both ways round if there are no directions, or
its oracle can be built from the nodes and the neighbours of each.  Both come to the same table, also
after further links have been drawn between the nodes.

* **`AdjacencyTable.Same`** — two tables with the same entries.
* **`IndexedNetwork.tableOf_eq`** — the table of listed edges.
* **`IndexedNetwork.addLinks`** — links drawn one after the other; **`IndexedNetwork.addLinks_keeps`** says
  what they leave as it is.
* **`IndexedNetwork.adjacency_same_oracle`** — both ways come to the same.
-/

namespace MaximalCliques

/-! ### Tables -/

namespace AdjacencyTable

/-- Two tables of one size with the same entries. -/
structure Same (s t : AdjacencyTable) : Prop where
  bound : s.bound = t.bound
  holds : ∀ i j, s.holds i j = t.holds i j

end AdjacencyTable

/-! ### Edges that are entered -/

namespace IndexedNetwork

/-- The places of the ends of an edge, both ways round if there are no directions. -/
def Joins (directed : Bool) (place : Identifier → Nat) (e : Identifier × Identifier) (i j : Nat) :
    Prop :=
  (place e.1 = i ∧ place e.2 = j) ∨ (directed = false ∧ place e.2 = i ∧ place e.1 = j)

variable {net : IndexedNetwork} {place : Identifier → Nat}

/-- Entering an edge between numbered nodes enters the places of its ends. -/
theorem enterEdge_eq {u v : Identifier} (hu : net.index u = .ok (place u))
    (hv : net.index v = .ok (place v)) (t : AdjacencyTable) :
    ∃ t', net.enterEdge t u v = .ok t' ∧ t'.bound = t.bound ∧ ∀ i j,
      t'.holds i j = true ↔ Joins net.network.directed place (u, v) i j ∨ t.holds i j = true := by
  unfold enterEdge Joins
  simp only [hu, hv, bind, Except.bind, pure, Except.pure, Int.toNat_natCast]
  refine ⟨_, rfl, ?_, fun i j => ?_⟩
  · cases net.network.directed <;> rfl
  · cases net.network.directed with
    | true => simp [AdjacencyTable.holds_insert]
    | false =>
      simp only [Bool.false_eq_true, if_false, AdjacencyTable.holds_insert, Bool.or_eq_true,
        beq_iff_eq, Prod.mk.injEq, true_and]
      tauto

/-- **The table of edges** between numbered nodes holds the places of their ends. -/
theorem tableOf_eq {edges : List (Identifier × Identifier)}
    (hends : ∀ e ∈ edges, net.index e.1 = .ok (place e.1) ∧ net.index e.2 = .ok (place e.2)) :
    ∃ t, net.tableOf edges = .ok t ∧ t.bound = net.numbering.size ∧ ∀ i j,
      t.holds i j = true ↔ ∃ e ∈ edges, Joins net.network.directed place e i j := by
  -- the edges are entered into any table
  have hentered : ∀ s : AdjacencyTable, ∃ t,
      edges.foldlM (fun t e => net.enterEdge t e.1 e.2) s = .ok t ∧ t.bound = s.bound ∧ ∀ i j,
        t.holds i j = true ↔
          (∃ e ∈ edges, Joins net.network.directed place e i j) ∨ s.holds i j = true := by
    induction edges with
    | nil => exact fun s => ⟨s, rfl, rfl, fun i j => by simp⟩
    | cons e edges ih =>
      intro s
      obtain ⟨hu, hv⟩ := hends e List.mem_cons_self
      obtain ⟨t, ht, htbound, htholds⟩ := enterEdge_eq hu hv s
      obtain ⟨t', ht', hbound, hholds⟩ := ih (fun e he => hends e (List.mem_cons_of_mem _ he)) t
      refine ⟨t', ?_, hbound.trans htbound, fun i j => ?_⟩
      · rw [List.foldlM_cons, ht]
        exact ht'
      · rw [hholds, htholds, List.exists_mem_cons_iff, or_assoc, or_left_comm]
  obtain ⟨t, ht, hbound, hholds⟩ := hentered (.empty net.numbering.size)
  refine ⟨t, ht, hbound, fun i j => ?_⟩
  rw [hholds, AdjacencyTable.holds_empty]
  simp only [Bool.false_eq_true, or_false]

/-! ### Links that are drawn -/

def addLinks (g : IndexedNetwork) (links : List (Identifier × Identifier)) : IndexedNetwork :=
  links.foldl (fun g l => (g.addLink l.1 l.2).1) g

theorem addLinks_append (g : IndexedNetwork) (links : List (Identifier × Identifier))
    (l : Identifier × Identifier) :
    g.addLinks (links ++ [l]) = ((g.addLinks links).addLink l.1 l.2).1 := by
  rw [addLinks, List.foldl_append]
  rfl

theorem addLink_of_contains {u v : Identifier} (hu : net.network.contains u = true)
    (hv : net.network.contains v = true) (hkeys : u.keyless? = none ∧ v.keyless? = none) :
    net.addLink u v = ({ net with
      network := { net.network with links := net.network.links.push (u, v) } }, .ok ()) := by
  have hnode : ∀ {x : Identifier}, net.network.contains x = true → x.keyless? = none →
      net.network.addNode x = .ok net.network := by
    intro x hx hkey
    simp [Network.addNode, Identifier.requireKey, hkey, hx, bind, Except.bind, pure, Except.pure]
  unfold addLink Network.addLink
  rw [hnode hu hkeys.1]
  simp only [hnode hv hkeys.2]

/-- **Links drawn later**, between whatever values, leave the numbering and the directions of a network and
keep it together. -/
theorem addLinks_keeps {G : Network} (hG : G.WellFormed) (links : List (Identifier × Identifier)) :
    ((ofNetwork G).addLinks links).numbering = .ofNames G.nodes.toList ∧
      ((ofNetwork G).addLinks links).network.directed = G.directed ∧
      ((ofNetwork G).addLinks links).network.WellFormed := by
  induction links using List.reverseRecOn with
  | nil => exact ⟨rfl, rfl, hG⟩
  | append_singleton links l ih =>
    obtain ⟨hnumbering, hdirected, hformed⟩ := ih
    rw [addLinks_append]
    exact ⟨hnumbering, (Network.directed_addLink _ _ _).trans hdirected, hformed.addLink _ _⟩

/-- **Links drawn between nodes** add no node either. -/
theorem addLinks_of_contains {G : Network} (hG : G.WellFormed)
    {links : List (Identifier × Identifier)}
    (hlinks : ∀ l ∈ links, G.contains l.1 = true ∧ G.contains l.2 = true) :
    ((ofNetwork G).addLinks links).numbering = .ofNames G.nodes.toList ∧
      ((ofNetwork G).addLinks links).network.nodes = G.nodes ∧
      ((ofNetwork G).addLinks links).network.directed = G.directed ∧
      ((ofNetwork G).addLinks links).network.WellFormed := by
  obtain ⟨hnumbering, hdirected, hformed⟩ := addLinks_keeps hG links
  refine ⟨hnumbering, ?_, hdirected, hformed⟩
  clear hnumbering hdirected hformed
  induction links using List.reverseRecOn with
  | nil => rfl
  | append_singleton links l ih =>
    have hnodes := ih fun l hl => hlinks l (List.mem_append_left _ hl)
    obtain ⟨hu, hv⟩ := hlinks l (List.mem_append_right _ List.mem_cons_self)
    have hkey : ∀ {x : Identifier}, G.contains x = true → x.keyless? = none := by
      intro x hx
      rw [Network.contains_eq] at hx
      exact Identifier.keyless?_of_isIn hG.keys hx
    have hcontains : ∀ {x : Identifier}, G.contains x = true →
        ((ofNetwork G).addLinks links).network.contains x = true := by
      intro x hx
      rw [Network.contains, hnodes]
      exact hx
    rw [addLinks_append, addLink_of_contains (hcontains hu) (hcontains hv) ⟨hkey hu, hkey hv⟩]
    exact hnodes

end IndexedNetwork

/-! ### Both ways -/

section Numbered

variable {w : World} {place : Nat} {net : IndexedNetwork} (hnet : w.networks[place]? = some net)
variable (hnumbering : net.numbering = .ofNames net.network.nodes.toList)
include hnet hnumbering

/-- The index of a node, given by the network or asked of the graph, is its position. -/
theorem Base.network_position {x : Identifier} (hx : x.isIn net.network.nodes.toList = true) :
    net.index x = .ok (((Base.network place).access w).position x) ∧
      (Numbering.ofNames net.network.nodes.toList).place? x
        = some (((Base.network place).access w).position x) := by
  obtain ⟨k, hk⟩ := Numbering.exists_place hx
  have hposition : ((Base.network place).access w).position x = k := by
    rw [Access.position, network_index hnet hnumbering hk]
    rfl
  rw [hposition, IndexedNetwork.index, hnumbering, hk]
  exact ⟨rfl, rfl⟩

theorem Base.network_position_congr {x y : Identifier}
    (hx : x.isIn net.network.nodes.toList = true) (h : (x == y) = true) :
    ((Base.network place).access w).position x = ((Base.network place).access w).position y := by
  obtain ⟨-, hplace⟩ := network_position hnet hnumbering hx
  rw [Identifier.isIn_congr h] at hx
  obtain ⟨-, hplace'⟩ := network_position hnet hnumbering hx
  rw [Numbering.place?_congr _ h, hplace'] at hplace
  exact (Option.some.inj hplace).symm

/-- A network that holds together shows its nodes and their neighbours. -/
theorem Base.network_shows (hformed : net.network.WellFormed) :
    ((Base.network place).access w).Orderly w ∧
      ((Base.network place).access w).listed w = net.network.nodes.toList ∧
      ∀ u ∈ net.network.nodes.toList,
        ((Base.network place).access w).reported w u = net.network.successors u := by
  refine ⟨network_orderly hnet hnumbering hformed.keys fun x _ y hy => ?_,
    network_names hnet hnumbering hformed.keys⟩
  have hnode := hformed.isIn_nodes (Identifier.isIn_of_mem hy)
  exact ⟨hnode, Identifier.keyless?_of_isIn hformed.keys hnode⟩

/-- **Listed edges join the positions that the graph reports** to one another. -/
theorem IndexedNetwork.joins_iff_reports (hformed : net.network.WellFormed)
    {edges : List (Identifier × Identifier)} (hlists : net.network.Lists edges) {i j : Nat} :
    (∃ e ∈ edges, Joins net.network.directed ((Base.network place).access w).position e i j) ↔
      ((Base.network place).access w).Reports w i j := by
  obtain ⟨-, hlisted, hreported⟩ := Base.network_shows hnet hnumbering hformed
  have hcongr := @Base.network_position_congr w place net hnet hnumbering
  -- an edge given by any spellings of a node and of one of its neighbours
  have hreports : ∀ x y : Identifier, x.isIn net.network.nodes.toList = true →
      y.isIn (net.network.successors x) = true → ((Base.network place).access w).Reports w
        (((Base.network place).access w).position x) (((Base.network place).access w).position y) := by
    intro x y hx hy
    obtain ⟨u, hu, hux⟩ := Identifier.isIn_iff.1 hx
    rw [← net.network.successors_congr hux] at hy
    obtain ⟨v, hv, hvy⟩ := Identifier.isIn_iff.1 hy
    refine ⟨u, by rw [hlisted]; exact hu, v, by rw [hreported u hu]; exact hv, ?_, ?_⟩
    · exact hcongr (Identifier.isIn_of_mem hu) hux
    · exact hcongr (hformed.isIn_nodes (Identifier.isIn_of_mem hv)) hvy
  constructor
  · rintro ⟨e, he, hjoins⟩
    obtain ⟨hfirst, hsecond⟩ := hlists.sound e he
    rcases hjoins with ⟨rfl, rfl⟩ | ⟨hdirected, rfl, rfl⟩
    · exact hreports e.1 e.2 hfirst hsecond
    · exact hreports e.2 e.1 (hformed.isIn_nodes hsecond)
        ((Network.isIn_successors_comm hdirected).1 hsecond)
  · rintro ⟨u, hu, v, hv, rfl, rfl⟩
    rw [hlisted] at hu
    rw [hreported u hu] at hv
    have hnode := Identifier.isIn_of_mem hu
    have hend := Identifier.isIn_of_mem hv
    obtain ⟨e, he, ⟨heu, hev⟩ | ⟨hdirected, hev, heu⟩⟩ := hlists.complete u v hnode hend
    · refine ⟨e, he, .inl ⟨?_, ?_⟩⟩
      · exact (hcongr hnode (BEq.symm heu)).symm
      · exact (hcongr (hformed.isIn_nodes hend) (BEq.symm hev)).symm
    · refine ⟨e, he, .inr ⟨hdirected, ?_, ?_⟩⟩
      · exact (hcongr hnode (BEq.symm heu)).symm
      · exact (hcongr (hformed.isIn_nodes hend) (BEq.symm hev)).symm

/-- **Any listing of the edges comes to the table of the oracle.** -/
theorem IndexedNetwork.tableOf_same_shown (hformed : net.network.WellFormed)
    {edges : List (Identifier × Identifier)} (hlists : net.network.Lists edges) :
    ∃ t, net.tableOf edges = .ok t ∧
      (Oracle.shown ((Base.network place).access w) w).table.Same t ∧
      (net.network.directed = false → ∀ i j, t.holds i j = t.holds j i) := by
  have hbound : ((Base.network place).access w).bound = net.numbering.size := by
    simp [Base.access, hnet]
  have htabulates := Oracle.shown_tabulates ((Base.network place).access w) w (by omega)
  have hends : ∀ e ∈ edges, net.index e.1 = .ok (((Base.network place).access w).position e.1) ∧
      net.index e.2 = .ok (((Base.network place).access w).position e.2) := by
    intro e he
    obtain ⟨hfirst, hsecond⟩ := hlists.sound e he
    exact ⟨(Base.network_position hnet hnumbering hfirst).1,
      (Base.network_position hnet hnumbering (hformed.isIn_nodes hsecond)).1⟩
  obtain ⟨t, ht, htbound, htholds⟩ := tableOf_eq hends
  refine ⟨t, ht, ⟨?_, fun i j => ?_⟩, fun hdirected i j => ?_⟩
  · have hsize := htabulates.bound
    rw [hbound] at hsize
    rw [htbound]
    exact Int.ofNat.inj hsize
  · rw [Bool.eq_iff_iff, htabulates.holds, htholds, joins_iff_reports hnet hnumbering hformed hlists]
  · rw [Bool.eq_iff_iff, htholds, htholds]
    refine exists_congr fun e => and_congr_right fun _ => ?_
    unfold Joins
    simp only [hdirected, true_and]
    tauto

end Numbered

/-- **Both ways to tabulate a network come to the same.**  Take a network that holds together, directed or
not, with parallel links or not, and with any links drawn later between its nodes.  Its edges, listed in
any way, come to a table with the entries of its oracle, which it has for every limit that it fits; without
directions both are symmetric. -/
theorem IndexedNetwork.adjacency_same_oracle {G : Network} (hG : G.WellFormed)
    {links : List (Identifier × Identifier)}
    (hlinks : ∀ l ∈ links, G.contains l.1 = true ∧ G.contains l.2 = true) {w : World} {place : Nat}
    (hw : w.networks[place]? = some ((ofNetwork G).addLinks links)) :
    ∃ t o, ((ofNetwork G).addLinks links).adjacency = .ok t ∧ t.bound = G.nodes.size ∧
      (∀ limit, ((Base.network place).access w).Fits limit →
        (Oracle.build ((Base.network place).access w) limit).Answers w o) ∧
      o.table.Same t ∧
      (G.directed = false → ∀ i j, t.holds i j = t.holds j i ∧ o.table.holds i j = o.table.holds j i) ∧
      ∀ edges, ((ofNetwork G).addLinks links).network.Lists edges →
        ∃ t', ((ofNetwork G).addLinks links).tableOf edges = .ok t' ∧ o.table.Same t' := by
  obtain ⟨hnumbering, hnodes, hdirected, hformed⟩ := addLinks_of_contains hG hlinks
  rw [← hnodes] at hnumbering
  obtain ⟨horderly, -⟩ := Base.network_shows hw hnumbering hformed
  obtain ⟨t, ht, hsame, hsymmetric⟩ :=
    tableOf_same_shown hw hnumbering hformed (Network.lists_edges hformed)
  refine ⟨t, .shown ((Base.network place).access w) w, ht, ?_, fun limit hfits => ?_, hsame,
    fun h i j => ?_, fun edges hlists => ?_⟩
  · rw [← hsame.bound, Oracle.shown, AdjacencyTable.bound_enterRows]
    show ((Base.network place).access w).bound.toNat = G.nodes.size
    simp [Base.access, hw, hnumbering, Numbering.size, Numbering.ofNames, hnodes]
  · exact (Oracle.build_shown horderly hfits).1
  · rw [← hdirected] at h
    rw [hsame.holds, hsame.holds]
    exact ⟨hsymmetric h i j, hsymmetric h i j⟩
  · obtain ⟨t', ht', hsame', -⟩ := tableOf_same_shown hw hnumbering hformed hlists
    exact ⟨t', ht', hsame'⟩

/-- Three nodes and no directions, with a loop and with parallel links of which one is written the other way
round. -/
def Network.looped : Network where
  directed := false
  parallel := true
  nodes := #[.integer 0, .integer 1, .integer 2]
  links := #[(.integer 0, .integer 0), (.integer 1, .integer 0), (.integer 0, .integer 1)]

/-- The same with later links, one for another spelling of a node and one from a node to itself. -/
def IndexedNetwork.looped : IndexedNetwork :=
  (ofNetwork .looped).addLinks [(.integer 2, .truth true), (.integer 2, .integer 2)]

/-- A network with a loop, parallel links and later links, tabulated in both ways. -/
theorem IndexedNetwork.adjacency_same_oracle_looped :
    Network.looped.WellFormed ∧
      (∀ l ∈ [(Identifier.integer 2, Identifier.truth true), (.integer 2, .integer 2)],
        Network.looped.contains l.1 = true ∧ Network.looped.contains l.2 = true) ∧
      ∃ t o, looped.adjacency = .ok t ∧ t.bound = 3 ∧
        (Oracle.build ((Base.network 0).access { networks := #[looped] }) (.integer 16384)).Answers
          { networks := #[looped] } o ∧
        o.table.Same t ∧ ∀ i j, t.holds i j = t.holds j i := by
  have hformed : Network.looped.WellFormed := ⟨by decide, by decide, by decide⟩
  have hlinks : ∀ l ∈ [(Identifier.integer 2, Identifier.truth true), (.integer 2, .integer 2)],
      Network.looped.contains l.1 = true ∧ Network.looped.contains l.2 = true := by decide +kernel
  have hplaced : ({ networks := #[looped] } : World).networks[0]? = some looped := rfl
  have hfits : ((Base.network 0).access { networks := #[looped] }).Fits (.integer 16384) :=
    ⟨Comparison.above_holds_integer _ _, ⟨3, rfl⟩, rfl⟩
  obtain ⟨t, o, ht, hbound, hbuild, hsame, hsymmetric, -⟩ :=
    adjacency_same_oracle hformed hlinks hplaced
  exact ⟨hformed, hlinks, t, o, ht, hbound, hbuild _ hfits, hsame, fun i j => (hsymmetric rfl i j).1⟩

end MaximalCliques
