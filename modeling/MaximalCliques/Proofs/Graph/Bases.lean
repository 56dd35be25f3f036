import MaximalCliques.Proofs.Graph.Networks
import MaximalCliques.Proofs.Graph.Orderly
import MaximalCliques.Proofs.Identifier.Listing
import MaximalCliques.Proofs.Identifier.Table
import MaximalCliques.View.Filter

/-!
# Orderly networks and tables

* **`Base.network_follow_eq`**, **`Base.network_names`** — what a numbered network answers and lists.
* **`Base.network_orderly`** — a numbered network is orderly if its links lead to numbered nodes.
* **`Base.tableGraph_orderly`** — tables are orderly if every node that they name is a key with an index
  below the bound, and different nodes have different indices.
-/

namespace MaximalCliques

variable {σ : Type} {g : Access σ} {w : σ}

/-! ### Graphs that test nothing -/

namespace Access

theorem listed_of_admits (h : ∀ x, (g.admits x).Answers w true) : g.listed w = g.nodes := by
  have hanswers : ∀ x ∈ g.nodes, ∃ b, (g.admits x).Answers w b := fun x _ => ⟨true, h x⟩
  rw [listed, (admitted_answers hanswers).answer?, Option.getD_some]
  refine List.filter_eq_self.2 fun x _ => ?_
  rw [passes, (h x).answer?, Option.getD_some]

theorem reported_of_admits (h : ∀ x, (g.admits x).Answers w true) {x : Identifier}
    {items : List Identifier} (hx : (g.neighbours x).Answers w items) : g.reported w x = items := by
  have hanswers : ∀ y ∈ items, ∃ b, (g.admits y).Answers w b := fun y _ => ⟨true, h y⟩
  rw [reported, (hx.bind (admitted_answers hanswers)).answer?, Option.getD_some]
  refine List.filter_eq_self.2 fun y _ => ?_
  rw [passes, (h y).answer?, Option.getD_some]

/-- **A graph that tests nothing is orderly** if it answers for its nodes and indices tell them apart. -/
theorem orderly_of_admits (named : Identifier → Prop) (follow : Identifier → List Identifier)
    (h : ∀ x, (g.admits x).Answers w true) (hnodes : ∀ x ∈ g.nodes, named x)
    (hfollow : ∀ x, named x → (g.neighbours x).Answers w (follow x))
    (hnamed : ∀ x ∈ g.nodes, ∀ y ∈ follow x, named y)
    (hcongr : ∀ x y, named x → named y → (x == y) = true → follow x = follow y)
    (hindex : ∀ x, named x → ∃ i : Nat, g.index x = .ok i ∧ (i : Int) < g.bound)
    (hinj : ∀ x y, named x → named y → (g.index x = g.index y ↔ (x == y) = true)) :
    g.Orderly w := by
  have hnames : ∀ x, g.Names w x → named x := by
    intro x hx
    rw [Names, listed_of_admits h] at hx
    rcases hx with hx | ⟨u, hu, hx⟩
    · exact hnodes x hx
    · rw [reported_of_admits h (hfollow u (hnodes u hu))] at hx
      exact hnamed u hu x hx
  refine ⟨fun x _ => ⟨true, h x⟩, fun x hx _ => ⟨follow x, hfollow x (hnames x hx), ?_⟩,
    fun x hx => hindex x (hnames x hx), fun x y hx hy => (hinj x y (hnames x hx) (hnames y hy)).1,
    fun x y hx hy => (hinj x y (hnames x hx) (hnames y hy)).2, fun x y hx hy hxy _ => ?_⟩
  · exact fun y _ => ⟨true, h y⟩
  · have hx' := hfollow x (hnames x hx)
    have hy' := hfollow y (hnames y hy)
    rw [hcongr x y (hnames x hx) (hnames y hy) hxy] at hx'
    exact hx'.trans hy'.symm

end Access

/-! ### Networks -/

theorem Numbering.size_ofNames (names : List Identifier) : (ofNames names).size = names.length := by
  simp [size, ofNames]

theorem Numbering.place?_ofNames {names : List Identifier} {x : Identifier} {k : Nat}
    (h : (ofNames names).place? x = some k) :
    k < (ofNames names).size ∧ ∃ y, names[k]? = some y ∧ (y == x) = true := by
  obtain ⟨y, hy, hyx⟩ := exists_of_placesOf h
  obtain ⟨hk, -⟩ := List.getElem?_eq_some_iff.1 hy
  exact ⟨by simpa [size, ofNames] using hk, y, hy, hyx⟩

theorem Numbering.exists_place {names : List Identifier} {x : Identifier}
    (h : x.isIn names = true) : ∃ k, (ofNames names).place? x = some k := by
  obtain ⟨y, hy, hyx⟩ := Identifier.isIn_iff.1 h
  exact Option.isSome_iff_exists.1 (isSome_placesOf hy hyx)

theorem Numbering.place?_eq_none {names : List Identifier} {x : Identifier}
    (h : x.isIn names = false) : (ofNames names).place? x = none := by
  cases hplace : (ofNames names).place? x with
  | none => rfl
  | some k =>
    obtain ⟨-, y, hy, hyx⟩ := place?_ofNames hplace
    rw [Identifier.isIn_iff.2 ⟨y, List.mem_of_getElem? hy, hyx⟩] at h
    cases h

theorem Numbering.place?_congr (n : Numbering) {x y : Identifier} (h : (x == y) = true) :
    n.place? x = n.place? y := Std.HashMap.getElem?_congr h

theorem IndexedNetwork.requireNode_numbered {net : IndexedNetwork} {names : List Identifier}
    (hnumbering : net.numbering = .ofNames names) {x : Identifier} (hx : x.isIn names = true)
    (hkey : x.keyless? = none) : net.requireNode x = .ok () := by
  obtain ⟨k, hk⟩ := Numbering.exists_place hx
  simp [requireNode, Identifier.requireKey, hkey, hnumbering, hk, bind, Except.bind, pure, Except.pure]

section Numbered

variable {w : World} {place : Nat} {net : IndexedNetwork} (hnet : w.networks[place]? = some net)
variable {names : List Identifier} (hnumbering : net.numbering = .ofNames names)
include hnet hnumbering

theorem Base.network_index {x : Identifier} {k : Nat}
    (hx : (Numbering.ofNames names).place? x = some k) :
    ((Base.network place).access w).index x = .ok (k : Int) := by
  have hindex : ((Base.network place).access w).index
      = (Indexing.byNumbering (.ofNames names)).index := by
    simp [Base.access, hnet, hnumbering]
  rw [hindex]
  simp only [Indexing.index, hx]

theorem Base.network_nodes : ((Base.network place).access w).nodes = names := by
  simp [Base.access, hnet, hnumbering, Numbering.ofNames]

/-- The index space of a numbered network has an index for each numbered node. -/
theorem Base.network_bound : ((Base.network place).access w).bound = names.length := by
  simp [Base.access, hnet, hnumbering, Numbering.size_ofNames]

omit hnumbering in
/-- **A network is followed** from the numbered nodes, to their neighbours in the direction. -/
theorem Base.network_follow_eq (v : World) (d : Option Direction) (x : Identifier) :
    (((Base.network place).access v).follow d x).run w
      = ((net.requireNode x).map fun _ => net.network.next d x, w) := by
  refine (Query.run_bind_of_ok (rfl : (get : Query World World).run w = (.ok w, w))).trans ?_
  rw [hnet]
  cases d with
  | none =>
    show (net.neighbours x, w) = _
    unfold IndexedNetwork.neighbours
    cases net.requireNode x <;> simp [Network.next, Except.map, bind, Except.bind, pure, Except.pure]
  | some d =>
    show (net.neighboursToward d x, w) = _
    unfold IndexedNetwork.neighboursToward
    cases net.requireNode x <;> simp [Network.next, Except.map, bind, Except.bind, pure, Except.pure]

/-- A numbered node is answered for by the nodes that its links lead to. -/
theorem Base.network_neighbours {x : Identifier} (hx : x.isIn names = true)
    (hkey : x.keyless? = none) :
    (((Base.network place).access w).neighbours x).Answers w (net.network.successors x) := by
  rw [Query.Answers, Access.neighbours, network_follow_eq hnet,
    IndexedNetwork.requireNode_numbered hnumbering hx hkey]
  simp [Except.map, Network.next]

/-- A numbered network that tests nothing lists its nodes, and reports of each the nodes that its links
lead to. -/
theorem Base.network_names (hkeys : ∀ x ∈ names, x.keyless? = none) :
    ((Base.network place).access w).listed w = names ∧
      ∀ x ∈ names, ((Base.network place).access w).reported w x = net.network.successors x := by
  have hadmits : ∀ x, (((Base.network place).access w).admits x).Answers w true := fun x => rfl
  constructor
  · rw [Access.listed_of_admits hadmits, network_nodes hnet hnumbering]
  · intro x hx
    exact Access.reported_of_admits hadmits
      (network_neighbours hnet hnumbering (Identifier.isIn_of_mem hx) (hkeys x hx))

/-- **A numbered network is orderly** if its nodes are keys and its links lead to keys that are numbered.
It may be directed or not, and links may be parallel. -/
theorem Base.network_orderly (hkeys : ∀ x ∈ names, x.keyless? = none)
    (hclosed : ∀ x ∈ names, ∀ y ∈ net.network.successors x,
      y.isIn names = true ∧ y.keyless? = none) :
    ((Base.network place).access w).Orderly w := by
  have hnodes : ((Base.network place).access w).nodes = names := network_nodes hnet hnumbering
  apply Access.orderly_of_admits (fun x => x.isIn names = true ∧ x.keyless? = none)
    net.network.successors
  · exact fun x => rfl
  · rw [hnodes]
    exact fun x hx => ⟨Identifier.isIn_of_mem hx, hkeys x hx⟩
  · intro x hx
    exact network_neighbours hnet hnumbering hx.1 hx.2
  · rw [hnodes]
    exact hclosed
  · intro x y _ _ hxy
    exact net.network.successors_congr hxy
  · intro x hx
    obtain ⟨k, hk⟩ := Numbering.exists_place hx.1
    refine ⟨k, network_index hnet hnumbering hk, ?_⟩
    rw [network_bound hnet hnumbering, ← Numbering.size_ofNames]
    exact_mod_cast (Numbering.place?_ofNames hk).1
  · intro x y hx hy
    obtain ⟨k, hk⟩ := Numbering.exists_place hx.1
    obtain ⟨l, hl⟩ := Numbering.exists_place hy.1
    rw [network_index hnet hnumbering hk, network_index hnet hnumbering hl, Except.ok.injEq,
      Int.natCast_inj]
    constructor
    · intro hkl
      obtain ⟨-, a, ha, hax⟩ := Numbering.place?_ofNames hk
      obtain ⟨-, b, hb, hby⟩ := Numbering.place?_ofNames hl
      rw [hkl, hb] at ha
      rw [← Option.some.inj ha] at hax
      exact BEq.trans (BEq.symm hax) hby
    · intro hxy
      rw [Numbering.place?_congr _ hxy, hl] at hk
      exact (Option.some.inj hk).symm

end Numbered

/-! ### Tables -/

theorem Association.find?_congr {α : Type} (t : Association α) {x y : Identifier}
    (h : (x == y) = true) : t.entries.find? (·.1 == x) = t.entries.find? (·.1 == y) := by
  congr 1
  funext e
  exact BEq.congr_right h

/-- The neighbours that tables list for a node. -/
def TableGraph.lists (t : TableGraph) (x : Identifier) : List Identifier :=
  ((t.outgoing.entries.find? (·.1 == x)).map (·.2)).getD []

/-- The neighbours that tables answer with for a key are those that they list. -/
theorem TableGraph.neighbours_of_key (t : TableGraph) {x : Identifier} (hx : x.keyless? = none) :
    t.neighbours x = .ok (t.lists x) := by
  simp [neighbours, Association.get?, Identifier.requireKey, hx, lists, bind, Except.bind, pure,
    Except.pure, Except.map]

/-- Is the value a node of the tables, or a neighbour that they list for a node? -/
def TableGraph.Holds (t : TableGraph) (x : Identifier) : Prop :=
  x ∈ t.nodes ∨ ∃ u ∈ t.nodes, x ∈ t.lists u

/-- **Tables are orderly** if the nodes that they hold are keys whose indices lie below the bound and
tell them apart.  The tables may list a node once or more, on one side only, for itself, or not at all. -/
theorem Base.tableGraph_orderly {serial : Nat} {t : TableGraph} {n : Int} (hn : t.bound = .integer n)
    (hkeys : ∀ x, t.Holds x → x.keyless? = none)
    (hindex : ∀ x, t.Holds x → ∃ i : Nat, t.index x = .ok i ∧ (i : Int) < n)
    (hinj : ∀ x y, t.Holds x → t.Holds y → (t.index x = t.index y ↔ (x == y) = true)) (w : World) :
    ((Base.tableGraph serial t).access w).Orderly w := by
  refine Access.orderly_of_admits t.Holds t.lists (fun x => rfl)
    (fun x hx => .inl hx) ?_ (fun x hx y hy => .inr ⟨x, hx, hy⟩) ?_ ?_ hinj
  · intro x hx
    show (Query.ofExcept (t.neighbours x) : Query World (List Identifier)).Answers w _
    rw [t.neighbours_of_key (hkeys x hx)]
    exact Query.answers_ofExcept w _
  · intro x y _ _ hxy
    rw [TableGraph.lists, TableGraph.lists, t.outgoing.find?_congr hxy]
  · intro x hx
    obtain ⟨i, hi, hlt⟩ := hindex x hx
    refine ⟨i, hi, ?_⟩
    show (i : Int) < t.bound.toInt?.getD 0
    rw [hn]
    exact hlt

end MaximalCliques
