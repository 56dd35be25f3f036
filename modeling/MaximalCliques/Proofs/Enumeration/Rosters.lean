import Mathlib.Data.List.Enum
import MaximalCliques.Enumeration.Vertex
import MaximalCliques.Proofs.Graph.Orderly
import MaximalCliques.Proofs.Identifier.Listing
import MaximalCliques.Proofs.Identifier.Table

/-!
# The roster of an orderly graph

* **`Access.places`** — the listed nodes, each once, in the order of their places.
* **`Access.roster`** — the roster that they give; **`Roster.gather_answers`** says that it is the one
  gathered.
* **`Access.Stands`** — a vertex that stands for a named node.
* **`Access.getElem?_placeOf`** — which place a node is looked up at.
-/

namespace MaximalCliques

variable {σ α β : Type}

theorem Query.mapM_answers {f : α → Query σ β} {f' : α → β} {w : σ} {xs : List α}
    (h : ∀ x ∈ xs, (f x).Answers w (f' x)) : (xs.mapM f).Answers w (xs.map f') := by
  induction xs with
  | nil => exact Query.answers_pure w _
  | cons x xs ih =>
    rw [List.mapM_cons]
    have hxs := ih fun y hy => h y (List.mem_cons_of_mem x hy)
    exact (h x List.mem_cons_self).bind (hxs.bind (Query.answers_pure w _))

namespace Access

variable (g : Access σ) (w : σ)

/-! ### Places -/

/-- The listed nodes, each in its first spelling, in the order of their places. -/
def places : List Identifier := (Identifier.distinct (g.listed w)).mergeSort g.machine.precedes

def roster : Roster := .ofNodes ((g.places w).map fun x => (x, g.position x))

variable {g w}

theorem mem_listed_of_mem_places {x : Identifier} (h : x ∈ g.places w) : x ∈ g.listed w :=
  Identifier.mem_of_mem_distinct (List.mem_mergeSort.1 h)

theorem isIn_places (x : Identifier) : x.isIn (g.places w) = x.isIn (g.listed w) := by
  have hdistinct : x.isIn (Identifier.distinct (g.listed w)) = x.isIn (g.listed w) :=
    Identifier.isIn_distinct
  rw [← hdistinct, Bool.eq_iff_iff, Identifier.isIn_iff, Identifier.isIn_iff]
  simp only [places, List.mem_mergeSort]

theorem pairwise_places : (g.places w).Pairwise fun x y => (x == y) = false :=
  Identifier.pairwise_mergeSort_distinct _ _

theorem places_inj {k l : Nat} {x y : Identifier} (hx : (g.places w)[k]? = some x)
    (hy : (g.places w)[l]? = some y) (hxy : (x == y) = true) : k = l :=
  Identifier.place_inj pairwise_places hx hy hxy

theorem gather_answers (hg : g.Orderly w) : (Roster.gather g).Answers w (g.roster w) := by
  unfold Roster.gather
  refine hg.admitted_nodes.bind (Query.Answers.bind (a := (g.places w).map fun x => (x, g.position x))
    (Query.mapM_answers fun x hx => ?_) (Query.answers_pure w _))
  rw [(hg.index_eq (.inl (mem_listed_of_mem_places hx))).1]
  exact (Query.answers_ofExcept w _).bind (Query.answers_pure w _)

/-! ### Vertices -/

/-- A vertex that stands for a named node: its place is that of the node, however it is spelled. -/
structure Stands (g : Access σ) (w : σ) (u : Vertex) : Prop where
  named : g.Names w u.node
  place : ∃ x, (g.places w)[u.place]? = some x ∧ (x == u.node) = true
  index : u.index = g.position u.node

theorem vertices_roster : (g.roster w).vertices
    = (g.places w).zipIdx.map fun (x, k) => ⟨g.position x, k, x⟩ := by
  rw [roster, Roster.ofNodes, List.zipIdx_map, List.map_map]
  rfl

/-- The vertices of the roster stand for the nodes at their places. -/
theorem mem_vertices_roster {u : Vertex} : u ∈ (g.roster w).vertices ↔
    (g.places w)[u.place]? = some u.node ∧ u.index = g.position u.node := by
  rw [vertices_roster, List.mem_map]
  constructor
  · intro h
    obtain ⟨⟨x, k⟩, hx, rfl⟩ := h
    exact ⟨List.mem_zipIdx_iff_getElem?.1 hx, rfl⟩
  · intro h
    obtain ⟨hplace, hindex⟩ := h
    refine ⟨(u.node, u.place), List.mem_zipIdx_iff_getElem?.2 hplace, ?_⟩
    show (⟨g.position u.node, u.place, u.node⟩ : Vertex) = u
    rw [← hindex]

theorem stands_of_mem_vertices {u : Vertex} (h : u ∈ (g.roster w).vertices) : g.Stands w u := by
  obtain ⟨hplace, hindex⟩ := mem_vertices_roster.1 h
  exact ⟨.inl (mem_listed_of_mem_places (List.mem_of_getElem? hplace)), ⟨u.node, hplace, BEq.rfl⟩,
    hindex⟩

theorem exists_vertex {x : Identifier} (h : x.isIn (g.listed w) = true) :
    ∃ u ∈ (g.roster w).vertices, (u.node == x) = true := by
  rw [← isIn_places] at h
  obtain ⟨y, hy, hyx⟩ := Identifier.isIn_iff.1 h
  obtain ⟨k, hk⟩ := List.getElem?_of_mem hy
  exact ⟨⟨g.position y, k, y⟩, mem_vertices_roster.2 ⟨hk, rfl⟩, hyx⟩

namespace Stands

variable {u v : Vertex}

theorem isIn_listed (h : g.Stands w u) : u.node.isIn (g.listed w) = true := by
  obtain ⟨x, hx, hxu⟩ := h.place
  exact Identifier.isIn_iff.2 ⟨x, mem_listed_of_mem_places (List.mem_of_getElem? hx), hxu⟩

theorem place_eq_iff (hu : g.Stands w u) (hv : g.Stands w v) :
    u.place = v.place ↔ (u.node == v.node) = true := by
  obtain ⟨x, hx, hxu⟩ := hu.place
  obtain ⟨y, hy, hyv⟩ := hv.place
  constructor
  · intro h
    rw [h, hy] at hx
    rw [Option.some.inj hx] at hyv
    exact BEq.trans (BEq.symm hxu) hyv
  · intro h
    exact places_inj hx hy (BEq.trans hxu (BEq.trans h (BEq.symm hyv)))

theorem index_eq_iff (hg : g.Orderly w) (hu : g.Stands w u) (hv : g.Stands w v) :
    u.index = v.index ↔ (u.node == v.node) = true := by
  rw [hu.index, hv.index, hg.position_eq_iff hu.named hv.named]

end Stands

/-- Vertices have different indices if they stand for different nodes. -/
theorem nodup_indices_iff (hg : g.Orderly w) {us : List Vertex} (hus : ∀ u ∈ us, g.Stands w u) :
    (us.map (·.index)).Nodup ↔ us.Pairwise fun u v => (u.node == v.node) = false := by
  rw [List.Nodup, List.pairwise_map]
  refine List.Pairwise.iff_of_mem fun {u v} hu hv => ?_
  rw [Ne, (hus u hu).index_eq_iff hg (hus v hv), Bool.not_eq_true]

theorem nodup_indices (hg : g.Orderly w) : ((g.roster w).vertices.map (·.index)).Nodup := by
  have hindices : (g.roster w).vertices.map (·.index) = (g.places w).map g.position := by
    rw [vertices_roster, List.map_map]
    show (g.places w).zipIdx.map (g.position ∘ Prod.fst) = _
    rw [← List.map_map, List.zipIdx_map_fst]
  rw [hindices, hg.nodup_positions_iff fun x hx => .inl (mem_listed_of_mem_places hx)]
  exact pairwise_places

/-! ### Looking up a place -/

theorem placeOf_roster : (g.roster w).placeOf = placesOf (g.places w) := by
  show (((g.places w).map fun x => (x, g.position x)).zipIdx).foldl _ _ = _
  rw [List.zipIdx_map, List.foldl_map]
  rfl

/-- **A node is looked up at the place of its first spelling.** -/
theorem getElem?_placeOf {x : Identifier} {k : Nat} : (g.roster w).placeOf[x]? = some k ↔
    ∃ y, (g.places w)[k]? = some y ∧ (y == x) = true := by
  rw [placeOf_roster]
  constructor
  · exact exists_of_placesOf
  · intro h
    obtain ⟨y, hy, hyx⟩ := h
    obtain ⟨l, hl⟩ := Option.isSome_iff_exists.1 (isSome_placesOf (List.mem_of_getElem? hy) hyx)
    obtain ⟨z, hz, hzx⟩ := exists_of_placesOf hl
    rw [hl, places_inj hz hy (BEq.trans hzx (BEq.symm hyx))]

end Access

end MaximalCliques
