import MaximalCliques.Proofs.Graph.Indices
import MaximalCliques.Proofs.Graph.OracleEntries
import MaximalCliques.Proofs.Identifier.FirstOccurrences

/-!
# Networks of listed nodes and edges

A network can be made of a list of nodes, which may repeat and be spelled in several ways, and a list of
edges, which may repeat, be reversed and join a node with itself.  An end that is no listed node stops the
making.

* **`Network.FirstStray`** — the end that stops the making.
* **`Network.joinAll_ok`**, **`Network.joinAll_stray`** — edges between nodes are all drawn, and the first
  stray end is reported.
* **`IndexedNetwork.Shows`** — a network shows nodes and edges: its indices, its neighbours and its
  oracle are read off the lists.
* **`Network.ofEdges_shows`** — a network is made of lists iff no end is stray, and shows them then.
-/

namespace MaximalCliques

namespace Network

variable {directed : Bool} {nodes : List Identifier} {edges : List (Identifier × Identifier)}
variable {g : Network} {x y : Identifier}

/-! ### Listed nodes -/

theorem addNode_of_key (hkey : x.keyless? = none) (hx : x ≠ .absent) :
    g.addNode x = .ok (if g.contains x then g else { g with nodes := g.nodes.push x }) := by
  unfold addNode
  simp only [Identifier.requireKey, hkey, bind, Except.bind]
  cases g.contains x with
  | true => rfl
  | false =>
    cases x with
    | absent => exact absurd rfl hx
    | _ => rfl

/-- **The nodes of a list** are added each once, where and how they come first. -/
theorem ofNodes_of_keys {parallel : Bool} (hnodes : ∀ x ∈ nodes, x.keyless? = none ∧ x ≠ .absent) :
    ofNodes directed parallel nodes
      = .ok { directed, parallel, nodes := (Identifier.distinct nodes).toArray } := by
  induction nodes using List.reverseRecOn with
  | nil => rfl
  | append_singleton nodes x ih =>
    obtain ⟨hkey, hx⟩ := hnodes x (List.mem_append_right _ List.mem_cons_self)
    have hbefore := ih fun x hx => hnodes x (List.mem_append_left _ hx)
    unfold ofNodes at hbefore ⊢
    rw [List.foldlM_append, hbefore]
    simp only [List.foldlM_cons, List.foldlM_nil, NodeEntry.node_of_key hkey, addNode_of_key hkey hx,
      bind, Except.bind, pure, Except.pure]
    rw [Identifier.distinct_concat, contains_eq]
    cases x.isIn (Identifier.distinct nodes) <;> simp

/-! ### Listed edges -/

/-- A link leads from one node to another, and back if there are no directions. -/
def Leads (directed : Bool) (l : Identifier × Identifier) (x y : Identifier) : Prop :=
  ((l.1 == x) = true ∧ (l.2 == y) = true) ∨
    (directed = false ∧ (l.2 == x) = true ∧ (l.1 == y) = true)

theorem isIn_successors_iff_leads : y.isIn (g.successors x) = true ↔
    ∃ l ∈ g.links.toList, Leads g.directed l x y := isIn_successors

def otherEnd? (directed : Bool) (x : Identifier) (e : Identifier × Identifier) : Option Identifier :=
  if e.1 == x then some e.2 else if !directed && e.2 == x then some e.1 else none

/-- **The first end of edges that is no node**, in the order of the edges and the first end of an edge
before the second one. -/
def FirstStray (nodes : List Identifier) (edges : List (Identifier × Identifier)) (x : Identifier) :
    Prop :=
  ∃ before e after, edges = before ++ e :: after ∧
    (∀ l ∈ before, l.1.isIn nodes = true ∧ l.2.isIn nodes = true) ∧
      ((x = e.1 ∧ e.1.isIn nodes = false) ∨
        (x = e.2 ∧ e.1.isIn nodes = true ∧ e.2.isIn nodes = false))

theorem exists_firstStray_iff : (∃ x, FirstStray nodes edges x) ↔
    ∃ e ∈ edges, e.1.isIn nodes = false ∨ e.2.isIn nodes = false := by
  constructor
  · rintro ⟨x, before, e, after, rfl, -, hstray⟩
    refine ⟨e, List.mem_append_right _ List.mem_cons_self, ?_⟩
    exact hstray.imp And.right fun h => h.2.2
  · intro h
    induction edges with
    | nil =>
      obtain ⟨e, he, -⟩ := h
      cases he
    | cons e edges ih =>
      cases hfirst : e.1.isIn nodes with
      | false => exact ⟨e.1, [], e, edges, rfl, by simp, .inl ⟨rfl, hfirst⟩⟩
      | true =>
        cases hsecond : e.2.isIn nodes with
        | false => exact ⟨e.2, [], e, edges, rfl, by simp, .inr ⟨rfl, hfirst, hsecond⟩⟩
        | true =>
          obtain ⟨l, hl, hstray⟩ := h
          rcases List.mem_cons.1 hl with rfl | hl
          · rw [hfirst, hsecond] at hstray
            simp at hstray
          · obtain ⟨x, before, l, after, hedges, hbefore, hx⟩ := ih ⟨l, hl, hstray⟩
            refine ⟨x, e :: before, l, after, by rw [hedges, List.cons_append], ?_, hx⟩
            exact List.forall_mem_cons.2 ⟨⟨hfirst, hsecond⟩, hbefore⟩

/-- **Edges between nodes are drawn** one after the other. -/
theorem joinAll_ok (g : Network) (edges : List (Identifier × Identifier))
    (hends : ∀ e ∈ edges, e.1.isIn g.nodes.toList = true ∧ e.2.isIn g.nodes.toList = true) :
    edges.foldlM (fun g e => g.joinNodes e.1 e.2) g
      = .ok { g with links := g.links ++ edges.toArray } := by
  induction edges generalizing g with
  | nil => simp [pure, Except.pure]
  | cons e edges ih =>
    obtain ⟨⟨hfirst, hsecond⟩, hrest⟩ := List.forall_mem_cons.1 hends
    rw [List.foldlM_cons, joinNodes, contains_eq, contains_eq, hfirst, hsecond]
    show edges.foldlM (fun g e => g.joinNodes e.1 e.2) { g with links := g.links.push e } = _
    rw [ih { g with links := g.links.push e } hrest]
    simp

/-- **The first stray end is reported.** -/
theorem joinAll_stray (h : FirstStray g.nodes.toList edges x) :
    edges.foldlM (fun g e => g.joinNodes e.1 e.2) g = .error (Fault.unknownNode x).raised := by
  obtain ⟨before, e, after, rfl, hbefore, hx⟩ := h
  rw [List.foldlM_append, joinAll_ok g before hbefore]
  show (e :: after).foldlM (fun g e => g.joinNodes e.1 e.2)
    { g with links := g.links ++ before.toArray } = _
  rw [List.foldlM_cons, joinNodes, contains_eq, contains_eq]
  rcases hx with ⟨rfl, hfirst⟩ | ⟨rfl, hfirst, hsecond⟩
  · rw [hfirst]
    rfl
  · rw [hfirst, hsecond]
    rfl

theorem firstStray_distinct :
    FirstStray (Identifier.distinct nodes) edges x ↔ FirstStray nodes edges x := by
  simp only [FirstStray, Identifier.isIn_distinct]

/-- A network of listed nodes is made first, then the edges are drawn. -/
theorem ofEdges_of_keys (hnodes : ∀ x ∈ nodes, x.keyless? = none ∧ x ≠ .absent) :
    ofEdges directed nodes edges = edges.foldlM (fun g e => g.joinNodes e.1 e.2)
      { directed, nodes := (Identifier.distinct nodes).toArray } := by
  unfold ofEdges
  rw [ofNodes_of_keys hnodes]
  rfl

/-- The neighbours of listed edges are their other ends, each once, where and how they come first. -/
theorem firstOccurrences_successors (g : Network) (x : Identifier) :
    Identifier.FirstOccurrences (g.successors x)
      (g.links.toList.filterMap (otherEnd? g.directed x)) :=
  Identifier.firstOccurrences_distinct _

end Network

/-! ### What is shown -/

/-- **A network shows nodes and edges.**  The nodes are numbered in their order.  Every spelling of a node
is answered for by the other ends of its edges, each once, in the order and the spelling in which the edges
first come to it.  The oracle holds a pair of indices iff an edge leads from the node with the one to that
with the other. -/
structure IndexedNetwork.Shows (net : IndexedNetwork) (directed : Bool) (names : List Identifier)
    (edges : List (Identifier × Identifier)) : Prop where
  directions : net.network.directed = directed
  indexes : net.Indexes names
  neighbours : ∀ x : Identifier, x.isIn names = true → ∃ ys, net.neighbours x = .ok ys ∧
    Identifier.FirstOccurrences ys (edges.filterMap (Network.otherEnd? directed x))
  oracle : ∀ (w : World) (place : Nat) (limit : Identifier), w.networks[place]? = some net →
    ((Base.network place).access w).Fits limit →
      ∃ o, (Oracle.build ((Base.network place).access w) limit).Answers w o ∧
        o.table.bound = names.length ∧ ∀ i j, o.table.holds i j = true ↔
          ∃ x y, names[i]? = some x ∧ names[j]? = some y ∧ ∃ e ∈ edges, Network.Leads directed e x y

theorem IndexedNetwork.shows_ofNetwork {G : Network} (hG : G.WellFormed) :
    (ofNetwork G).Shows G.directed G.nodes.toList G.links.toList := by
  have hclosed : ∀ x ∈ G.nodes.toList, ∀ y ∈ G.successors x, y.isIn G.nodes.toList = true :=
    fun x _ y hy => hG.isIn_nodes (Identifier.isIn_of_mem hy)
  have hkey : ∀ {x : Identifier}, x.isIn G.nodes.toList = true → x.keyless? = none :=
    Identifier.keyless?_of_isIn hG.keys
  refine ⟨rfl, indexes_of_different rfl hG.nodup, fun x hx => ?_, fun w place limit hw hfits => ?_⟩
  · refine ⟨G.successors x, ?_, G.firstOccurrences_successors x⟩
    rw [neighbours, requireNode_numbered rfl hx (hkey hx)]
    rfl
  · have horderly := Base.network_orderly hw rfl hG.keys fun x hx y hy =>
      ⟨hclosed x hx y hy, hkey (hclosed x hx y hy)⟩
    obtain ⟨hanswers, htabulates⟩ := Oracle.build_shown horderly hfits
    refine ⟨_, hanswers, ?_, fun i j => ?_⟩
    · have hbound := htabulates.bound
      rw [Base.network_bound hw rfl] at hbound
      exact Int.ofNat.inj hbound
    · rw [htabulates.holds, Base.network_reports_iff hw rfl hG.nodup hG.keys hclosed]
      simp only [Network.isIn_successors_iff_leads]
      rfl

theorem Network.ofEdges_of_ends {directed : Bool} {nodes : List Identifier}
    {edges : List (Identifier × Identifier)} (hnodes : ∀ x ∈ nodes, x.keyless? = none ∧ x ≠ .absent)
    (hends : ∀ e ∈ edges, e.1.isIn nodes = true ∧ e.2.isIn nodes = true) :
    ofEdges directed nodes edges =
      .ok ⟨directed, false, (Identifier.distinct nodes).toArray, edges.toArray⟩ := by
  rw [ofEdges_of_keys hnodes, joinAll_ok _ edges]
  · simp
  · intro e he
    rw [Identifier.isIn_distinct, Identifier.isIn_distinct]
    exact hends e he

/-- The first end of an edge that is none of the listed nodes is reported. -/
theorem Network.ofEdges_stray {directed : Bool} {nodes : List Identifier}
    {edges : List (Identifier × Identifier)} (hnodes : ∀ x ∈ nodes, x.keyless? = none ∧ x ≠ .absent)
    {x : Identifier} (hx : FirstStray nodes edges x) :
    ofEdges directed nodes edges = .error (Fault.unknownNode x).raised := by
  rw [ofEdges_of_keys hnodes]
  exact joinAll_stray (firstStray_distinct.2 hx)

/-- **A network of listed nodes and edges** is exactly what is listed.  Let the listed nodes be keys other
than the absent value; they may repeat in any spelling.  The making is refused iff an end of an edge is none
of the nodes, and then for the first such end, which is named if it has a text.  Otherwise the different nodes
are numbered where they come first, and the network shows the listed edges between them. -/
theorem Network.ofEdges_shows (directed : Bool) {nodes : List Identifier}
    (hnodes : ∀ x ∈ nodes, x.keyless? = none ∧ x ≠ .absent) (edges : List (Identifier × Identifier)) :
    ((∃ e, ofEdges directed nodes edges = .error e) ↔
      ∃ e ∈ edges, e.1.isIn nodes = false ∨ e.2.isIn nodes = false) ∧
    (∀ e, ofEdges directed nodes edges = .error e →
      ∃ x, FirstStray nodes edges x ∧ (x.isWritable = true → e = .unknownNode x)) ∧
    (∀ x, FirstStray nodes edges x → x.isWritable = true →
      ofEdges directed nodes edges = .error (.unknownNode x)) ∧
    ((∀ e ∈ edges, e.1.isIn nodes = true ∧ e.2.isIn nodes = true) →
      ∃ G names, ofEdges directed nodes edges = .ok G ∧ Identifier.FirstOccurrences names nodes ∧
        (IndexedNetwork.ofNetwork G).Shows directed names edges) := by
  have hstray : ∀ x, FirstStray nodes edges x →
      ofEdges directed nodes edges = .error (Fault.unknownNode x).raised := fun x => ofEdges_stray hnodes
  have hnamed : ∀ x, x.isWritable = true → (Fault.unknownNode x).raised = .unknownNode x :=
    fun x hwritable => Fault.raised_eq_of_shown (e := .unknownNode x) rfl hwritable
  have herror : ∀ e, ofEdges directed nodes edges = .error e →
      ∃ x, FirstStray nodes edges x ∧ (x.isWritable = true → e = .unknownNode x) := by
    intro e he
    by_cases hends : ∃ l ∈ edges, l.1.isIn nodes = false ∨ l.2.isIn nodes = false
    · obtain ⟨x, hx⟩ := exists_firstStray_iff.2 hends
      rw [hstray x hx] at he
      exact ⟨x, hx, fun hwritable => (Except.error.inj he).symm.trans (hnamed x hwritable)⟩
    · rw [ofEdges_of_ends hnodes fun l hl => by simpa using fun h => hends ⟨l, hl, h⟩] at he
      cases he
  refine ⟨?_, herror, fun x hx hwritable => by rw [hstray x hx, hnamed x hwritable], fun hends => ?_⟩
  · rw [← exists_firstStray_iff]
    constructor
    · rintro ⟨e, he⟩
      obtain ⟨x, hx, -⟩ := herror e he
      exact ⟨x, hx⟩
    · rintro ⟨x, hx⟩
      exact ⟨_, hstray x hx⟩
  · have hG : ofEdges directed nodes edges = .ok _ := ofEdges_of_ends hnodes hends
    have hshows := IndexedNetwork.shows_ofNetwork (wellFormed_ofEdges hG)
    exact ⟨_, Identifier.distinct nodes, hG, Identifier.firstOccurrences_distinct nodes, hshows⟩

/-- Three nodes, the first of them in three spellings. -/
def Network.mixedNodes : List Identifier :=
  [.integer 1, .text "a", .truth true, .real (.finite false 1 0), .integer 2]

/-- Edges between them: one that is repeated the other way round, and a node joined with itself. -/
def Network.mixedEdges : List (Identifier × Identifier) :=
  [(.text "a", .integer 1), (.integer 2, .integer 2), (.truth true, .text "a"),
    (.real (.finite false 1 0), .integer 2)]

/-- A network of nodes in several spellings, and one that is refused for an end that is no key. -/
theorem Network.ofEdges_shows_mixed :
    (∀ x ∈ mixedNodes, x.keyless? = none ∧ x ≠ .absent) ∧
    (∃ G names, ofEdges false mixedNodes mixedEdges = .ok G ∧
      Identifier.FirstOccurrences names mixedNodes ∧
        (IndexedNetwork.ofNetwork G).Shows false names mixedEdges) ∧
    ofEdges false mixedNodes
      (mixedEdges ++ [(.integer 2, .sequence [.integer 1]), (.integer 9, .integer 2)])
      = .error (.unknownNode (.sequence [.integer 1])) := by
  have hnodes : ∀ x ∈ mixedNodes, x.keyless? = none ∧ x ≠ .absent := by
    simp [mixedNodes, Identifier.keyless?]
  have hends : ∀ e ∈ mixedEdges, e.1.isIn mixedNodes = true ∧ e.2.isIn mixedNodes = true := by
    decide +kernel
  have hstray : FirstStray mixedNodes
      (mixedEdges ++ [(.integer 2, .sequence [.integer 1]), (.integer 9, .integer 2)])
      (.sequence [.integer 1]) :=
    ⟨mixedEdges, (.integer 2, .sequence [.integer 1]), [(.integer 9, .integer 2)], rfl, hends,
      .inr ⟨rfl, by decide +kernel, by decide +kernel⟩⟩
  obtain ⟨-, -, -, hshown⟩ := ofEdges_shows false hnodes mixedEdges
  obtain ⟨-, -, hrefused, -⟩ := ofEdges_shows false hnodes
    (mixedEdges ++ [(.integer 2, .sequence [.integer 1]), (.integer 9, .integer 2)])
  exact ⟨hnodes, hshown hends, hrefused _ hstray rfl⟩

/-- **What is listed is not shown in every case**: the settings may have no room for an oracle of two nodes,
and a stray end without a text is not named. -/
theorem Network.ofEdges_unshown : ∃ G,
    ofEdges false [.integer 0, .integer 1] [(.integer 0, .integer 1)] = .ok G ∧
    Settings.capacity { maxOracleNodes := .integer 1 } = .ok (.integer 1) ∧
    (Oracle.build ((Base.network 0).access { networks := #[.ofNetwork G] }) (.integer 1)).run
        { networks := #[.ofNetwork G] }
      = (.error (.capacityExceeded (.integer 2) (.integer 1)), { networks := #[.ofNetwork G] }) ∧
    ofEdges false [.integer 0] [(.integer 0, .giant)] = .error .unwritable := by
  have hends : ∀ e ∈ [(Identifier.integer 0, Identifier.integer 1)],
      e.1.isIn [.integer 0, .integer 1] = true ∧ e.2.isIn [.integer 0, .integer 1] = true := by decide
  have hgiant : Identifier.giant.isIn [.integer 0] = false := by decide +kernel
  have hfirst : FirstStray [.integer 0] [(.integer 0, .giant)] .giant :=
    ⟨[], _, [], rfl, fun e h => absurd h List.not_mem_nil, .inr ⟨rfl, by decide, hgiant⟩⟩
  have hrefused : ofEdges false [.integer 0] [(.integer 0, .giant)] = _ :=
    ofEdges_stray (by simp [Identifier.keyless?]) hfirst
  rw [Fault.raised_eq_unwritable List.mem_cons_self Identifier.isWritable_giant] at hrefused
  refine ⟨_, ofEdges_of_ends (by simp [Identifier.keyless?]) hends, Settings.capacity_of_le rfl (by decide), ?_,
    hrefused⟩
  exact Oracle.refusesAtOnce_of_exceeds (Comparison.above_holds_integer 2 1) _ rfl rfl _

end MaximalCliques
