import MaximalCliques.Proofs.Graph.Adjacency
import MaximalCliques.Proofs.Graph.EdgeLists
import MaximalCliques.Proofs.Graph.OracleBuilding

/-!
# Links that are drawn later

A numbered network may get links after its nodes have been numbered, and the links may lead to new nodes.
The numbering stays; a new node that a numbered one leads to has no index, and a graph with such a node has
no oracle.

* **`Appearance.ofNetwork_of`** — what a numbered network shows all the time.
* **`Base.network_build_refused`** — the oracle is refused for a neighbour without an index.
* **`Base.network_mutual_iff`** — mutual adjacency of numbered nodes, by the links.
-/

namespace MaximalCliques

/-! ### Neighbours without an index -/

section Numbered

variable {w : World} {place : Nat} {net : IndexedNetwork} (hnet : w.networks[place]? = some net)
variable {names : List Identifier} (hnumbering : net.numbering = .ofNames names)
include hnet hnumbering

theorem Base.network_indexes {x : Identifier} (hx : x.isIn names = true) :
    ((Base.network place).access w).Indexes names.length x := by
  obtain ⟨k, hk⟩ := Numbering.exists_place hx
  refine ⟨k, network_index hnet hnumbering hk, ?_⟩
  rw [← Numbering.size_ofNames]
  exact (Numbering.place?_ofNames hk).1

theorem Base.network_index_unknown {x : Identifier} (hx : x.isIn names = false) :
    ((Base.network place).access w).index x = .error (Fault.unknownNode x).raised := by
  simp [Base.access, hnet, hnumbering, Indexing.index, Numbering.place?_eq_none hx]

theorem Base.network_refusal?_eq (x : Identifier) :
    ((Base.network place).access w).refusal? names.length x
      = if x.isIn names then none else some (Fault.unknownNode x).raised := by
  cases hx : x.isIn names with
  | true => exact Access.refusal?_eq_none.2 (network_indexes hnet hnumbering hx)
  | false => simp [Access.refusal?, network_index_unknown hnet hnumbering hx]

/-- What a network shows: nothing is tested, and the neighbours are those that the links lead to. -/
def Appearance.ofNetwork (net : IndexedNetwork) : Appearance where
  passes _ := true
  sequence := net.network.successors

theorem Appearance.ofNetwork_of (hkeys : ∀ x ∈ names, x.keyless? = none) (n : Nat) :
    (ofNetwork net).Of ((Base.network place).access w) (· = w) n := by
  have hadmits : ∀ x, (((Base.network place).access w).admits x).Settles (· = w) none true :=
    fun x => Query.settles_pure _ true
  refine ⟨fun u _ => hadmits u, fun u hu _ => ⟨?_, fun v _ => hadmits v⟩⟩
  have hnodes : ((Base.network place).access w).nodes = names := Base.network_nodes hnet hnumbering
  have hmem : u ∈ names := by
    rw [← hnodes]
    exact List.mem_of_mem_filter hu
  exact (Base.network_neighbours hnet hnumbering (Identifier.isIn_of_mem hmem) (hkeys u hmem)).settles

/-- **The oracle is refused for a neighbour without an index**, if a numbered node has one. -/
theorem Base.network_build_refused (hkeys : ∀ x ∈ names, x.keyless? = none) {limit : Identifier}
    (hfits : ((Base.network place).access w).Fits limit)
    (hstray : ∃ x ∈ names, ∃ y ∈ net.network.successors x, y.isIn names = false) :
    ∃ x ∈ names, ∃ y ∈ net.network.successors x, y.isIn names = false ∧
      (Oracle.build ((Base.network place).access w) limit).run w
        = (.error (Fault.unknownNode y).raised, w) := by
  have hnodes : ((Base.network place).access w).nodes = names := Base.network_nodes hnet hnumbering
  have hwalk : (Appearance.ofNetwork net).walk ((Base.network place).access w)
      = names.flatMap fun u => u :: net.network.successors u := by
    simp [Appearance.walk, Appearance.listed, Appearance.reported, Appearance.ofNetwork, hnodes]
  obtain ⟨n, hn⟩ := hfits.tabulated
  have hsize : n = names.length := by
    have hbound := IndexSpace.forPairs_eq_ok hn
    rw [Base.network_bound hnet hnumbering] at hbound
    omega
  obtain ⟨v, rfl, hrun⟩ := Oracle.build_settles hfits.within hn
    (Appearance.ofNetwork_of hnet hnumbering hkeys n) w rfl
  rw [hwalk, hsize] at hrun
  cases hrefusal : (names.flatMap fun u => u :: net.network.successors u).findSome?
      (((Base.network place).access v).refusal? names.length) with
  | none =>
    obtain ⟨x, hx, y, hy, hstray⟩ := hstray
    have haccepted := List.findSome?_eq_none_iff.1 hrefusal y
      (List.mem_flatMap.2 ⟨x, hx, List.mem_cons_of_mem x hy⟩)
    rw [network_refusal?_eq hnet hnumbering, hstray] at haccepted
    cases haccepted
  | some e =>
    rw [hrefusal] at hrun
    obtain ⟨y, hy, he⟩ := List.exists_of_findSome?_eq_some hrefusal
    rw [network_refusal?_eq hnet hnumbering] at he
    split at he
    case isTrue => cases he
    case isFalse hunknown =>
      rw [Bool.not_eq_true] at hunknown
      rw [← Option.some.inj he] at hrun
      -- a node that is walked through is numbered, so it is a neighbour that is refused
      obtain ⟨x, hx, hyx⟩ := List.mem_flatMap.1 hy
      rcases List.mem_cons.1 hyx with rfl | hyx
      · rw [Identifier.isIn_of_mem hx] at hunknown
        cases hunknown
      · exact ⟨x, hx, y, hyx, hunknown, hrun⟩

/-! ### Mutual adjacency -/

/-- **Numbered nodes are mutually adjacent** if they are different and links lead from each to the other. -/
theorem Base.network_mutual_iff (hkeys : ∀ x ∈ names, x.keyless? = none) {x y : Identifier} :
    ((Base.network place).access w).Mutual w x y ↔ x ∈ names ∧ y ∈ names ∧ (x == y) = false ∧
      (∃ l ∈ net.network.links.toList, Network.Leads net.network.directed l x y) ∧
      ∃ l ∈ net.network.links.toList, Network.Leads net.network.directed l y x := by
  obtain ⟨hlisted, hreported⟩ := network_names hnet hnumbering hkeys
  constructor
  · rintro ⟨hx, hy, hdiffer, hout, hback⟩
    rw [hlisted] at hx hy
    rw [hreported x hx, Network.isIn_successors_iff_leads] at hout
    rw [hreported y hy, Network.isIn_successors_iff_leads] at hback
    exact ⟨hx, hy, hdiffer, hout, hback⟩
  · rintro ⟨hx, hy, hdiffer, hout, hback⟩
    rw [← Network.isIn_successors_iff_leads, ← hreported x hx] at hout
    rw [← Network.isIn_successors_iff_leads, ← hreported y hy] at hback
    rw [← hlisted] at hx hy
    exact ⟨hx, hy, hdiffer, hout, hback⟩

end Numbered

end MaximalCliques
