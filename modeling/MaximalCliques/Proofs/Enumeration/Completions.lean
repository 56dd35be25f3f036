import Mathlib.Data.Finset.Card
import MaximalCliques.Proofs.Enumeration.Hoods

/-!
# Maximal cliques and completions

The maximal cliques of an orderly graph are the sets of positions that complete the root of the search:
no position is committed or excluded there, and all are candidates.

* **`Identifier.sameSet_iff_positions`** — sets of named nodes are equal if their positions are.
* **`Access.Enumerates`** — a list of cliques holds every maximal clique once, and nothing else.
* **`Access.IsClique.exists_maximal`** — every clique is part of a maximal one.
* **`Access.extends_positions`**, **`Access.isClique_named`** — the cliques are the sets that extend the
  root.
* **`Access.completes_positions`**, **`Access.isMaximalClique_named`** — the maximal cliques are those that
  complete it.
-/

namespace MaximalCliques.Access

variable {σ : Type} {g : Access σ} {w : σ}

/-- **A list of cliques holds each maximal clique exactly once and nothing else.**  Cliques are compared
as sets of nodes, whatever the spelling. -/
structure Enumerates (g : Access σ) (w : σ) (cs : List (List Identifier)) : Prop where
  sound : ∀ c ∈ cs, ∃ K, g.IsMaximalClique w K ∧ Identifier.sameSet c K = true
  complete : ∀ K, g.IsMaximalClique w K → ∃ c ∈ cs, Identifier.sameSet c K = true
  once : cs.Pairwise fun c d => Identifier.sameSet c d = false

theorem Enumerates.perm {cs ds : List (List Identifier)} (h : g.Enumerates w cs)
    (hperm : ds.Perm cs) : g.Enumerates w ds where
  sound D hD := h.sound D (hperm.subset hD)
  complete K hK := by
    obtain ⟨C, hC, hCK⟩ := h.complete K hK
    exact ⟨C, hperm.symm.subset hC, hCK⟩
  once := (hperm.pairwise_iff fun hCD => (Identifier.sameSet_comm _ _).trans hCD).2 h.once

theorem Enumerates.exists_iff {cs : List (List Identifier)} (h : g.Enumerates w cs)
    (K : List Identifier) : (∃ C ∈ cs, Identifier.sameSet C K = true) ↔
      ∃ L, g.IsMaximalClique w L ∧ Identifier.sameSet L K = true := by
  constructor
  · intro hK
    obtain ⟨C, hC, hCK⟩ := hK
    obtain ⟨L, hL, hCL⟩ := h.sound C hC
    rw [Identifier.sameSet_comm] at hCL
    exact ⟨L, hL, Identifier.sameSet_trans hCL hCK⟩
  · intro hK
    obtain ⟨L, hL, hLK⟩ := hK
    obtain ⟨C, hC, hCL⟩ := h.complete L hL
    exact ⟨C, hC, Identifier.sameSet_trans hCL hLK⟩

/-- The positions of the roster. -/
def indices (g : Access σ) (w : σ) : List Nat := (g.roster w).vertices.map (·.index)

def named (g : Access σ) (w : σ) (S : Finset Nat) : List Identifier :=
  (g.places w).filter fun x => g.position x ∈ S

theorem mem_named {S : Finset Nat} {x : Identifier} :
    x ∈ g.named w S ↔ x ∈ g.places w ∧ g.position x ∈ S := by
  rw [named, List.mem_filter, decide_eq_true_iff]

theorem names_of_mem_places {x : Identifier} (h : x ∈ g.places w) : g.Names w x :=
  .inl (mem_listed_of_mem_places h)

theorem mem_indices {i : Nat} : i ∈ g.indices w ↔ ∃ x ∈ g.places w, g.position x = i := by
  rw [indices, List.mem_map]
  constructor
  · intro h
    obtain ⟨u, hu, rfl⟩ := h
    obtain ⟨hplace, hindex⟩ := mem_vertices_roster.1 hu
    exact ⟨u.node, List.mem_of_getElem? hplace, hindex.symm⟩
  · intro h
    obtain ⟨x, hx, rfl⟩ := h
    obtain ⟨k, hk⟩ := List.getElem?_of_mem hx
    exact ⟨⟨g.position x, k, x⟩, mem_vertices_roster.2 ⟨hk, rfl⟩, rfl⟩

theorem toFinset_named {S : Finset Nat} (hS : ∀ i ∈ S, i ∈ g.indices w) :
    ((g.named w S).map g.position).toFinset = S := by
  ext i
  rw [List.mem_toFinset, List.mem_map]
  constructor
  · intro h
    obtain ⟨x, hx, rfl⟩ := h
    exact (mem_named.1 hx).2
  · intro hi
    obtain ⟨x, hx, rfl⟩ := mem_indices.1 (hS i hi)
    exact ⟨x, mem_named.2 ⟨hx, hi⟩, rfl⟩

/-! ### Cliques -/

theorem Mutual.symm {x y : Identifier} (h : g.Mutual w x y) : g.Mutual w y x where
  left_listed := h.right_listed
  right_listed := h.left_listed
  differ := BEq.symm_false h.differ
  out := h.back
  back := h.out

theorem IsClique.nil : g.IsClique w [] where
  listed _ hx := absurd hx List.not_mem_nil
  pairwise _ hx := absurd hx List.not_mem_nil

/-- A clique and a node that is mutually adjacent to its members form a clique. -/
theorem IsClique.cons {K : List Identifier} (hK : g.IsClique w K) {z : Identifier}
    (hz : z ∈ g.listed w) (h : ∀ x ∈ K, g.Mutual w x z) : g.IsClique w (z :: K) where
  listed := by
    intro x hx
    rcases List.mem_cons.1 hx with rfl | hx
    · exact hz
    · exact hK.listed x hx
  pairwise := by
    intro x hx y hy hxy
    rcases List.mem_cons.1 hx with hxz | hxK
    · rcases List.mem_cons.1 hy with hyz | hyK
      · rw [hxz, hyz, BEq.rfl] at hxy
        exact absurd hxy (by decide)
      · rw [hxz]
        exact (h y hyK).symm
    · rcases List.mem_cons.1 hy with hyz | hyK
      · rw [hyz]
        exact h x hxK
      · exact hK.pairwise x hxK y hyK hxy

section Orderly

variable (hg : g.Orderly w)
include hg

/-! ### Positions of nodes -/

/-- A node is in a list of named nodes if its position is that of one of them. -/
theorem isIn_iff_position {x : Identifier} {ys : List Identifier} (hx : g.Names w x)
    (hys : ∀ y ∈ ys, g.Names w y) : x.isIn ys = true ↔ g.position x ∈ ys.map g.position := by
  rw [Identifier.isIn_iff, List.mem_map]
  refine exists_congr fun y => and_congr_right fun hy => ?_
  rw [hg.position_eq_iff (hys y hy) hx]

/-- **Lists of named nodes hold the same nodes** if they have the same positions. -/
theorem sameSet_iff_positions {xs ys : List Identifier} (hxs : ∀ x ∈ xs, g.Names w x)
    (hys : ∀ y ∈ ys, g.Names w y) : Identifier.sameSet xs ys = true ↔
      (xs.map g.position).toFinset = (ys.map g.position).toFinset := by
  have hleft : (∀ x ∈ xs, x.isIn ys = true) ↔
      ∀ x ∈ xs, g.position x ∈ ys.map g.position :=
    forall₂_congr fun x hx => isIn_iff_position hg (hxs x hx) hys
  have hright : (∀ y ∈ ys, y.isIn xs = true) ↔
      ∀ y ∈ ys, g.position y ∈ xs.map g.position :=
    forall₂_congr fun y hy => isIn_iff_position hg (hys y hy) hxs
  rw [Identifier.sameSet_iff, hleft, hright, Finset.Subset.antisymm_iff]
  simp only [Finset.subset_iff, List.mem_toFinset, List.forall_mem_map]

theorem position_mem_indices {x : Identifier} (hx : x ∈ g.listed w) :
    g.position x ∈ g.indices w := by
  have hin : x.isIn (g.places w) = true := by
    rw [isIn_places]
    exact Identifier.isIn_of_mem hx
  obtain ⟨y, hy, hyx⟩ := Identifier.isIn_iff.1 hin
  exact mem_indices.2 ⟨y, hy, (hg.position_eq_iff (names_of_mem_places hy) (.inl hx)).2 hyx⟩

/-! ### Mutual adjacency of positions -/

theorem Mutual.congr {u v x y : Identifier} (h : g.Mutual w u v) (hx : x ∈ g.listed w)
    (hy : y ∈ g.listed w) (hux : (u == x) = true) (hvy : (v == y) = true) : g.Mutual w x y where
  left_listed := hx
  right_listed := hy
  differ := by
    rw [← BEq.congr_left hux, ← BEq.congr_right hvy]
    exact h.differ
  out := by
    rw [← Identifier.isIn_congr hvy, ← hg.reported_congr (.inl h.left_listed) (.inl hx) hux
      (Identifier.isIn_of_mem h.left_listed), h.out]
  back := by
    rw [← Identifier.isIn_congr hux, ← hg.reported_congr (.inl h.right_listed) (.inl hy) hvy
      (Identifier.isIn_of_mem h.right_listed), h.back]

/-! ### Extending a clique -/

theorem IsClique.exists_cons {K : List Identifier} (hK : g.IsClique w K)
    (hmaximal : ¬g.IsMaximalClique w K) :
    ∃ x, g.IsClique w (x :: K) ∧ x ∈ g.listed w ∧ x.isIn K = false := by
  obtain ⟨L, hL, hKL, x, hxL, hxK⟩ : ∃ L, g.IsClique w L ∧ (∀ y ∈ K, y.isIn L = true) ∧
      ∃ x ∈ L, x.isIn K = false := by
    by_contra hnone
    refine hmaximal ⟨hK, fun L hL hKL x hxL => ?_⟩
    by_contra hxK
    exact hnone ⟨L, hL, hKL, x, hxL, Bool.not_eq_true _ ▸ hxK⟩
  have hxl := hL.listed x hxL
  refine ⟨x, hK.cons hxl fun y hy => ?_, hxl, hxK⟩
  -- the clique `L` holds a spelling of `y`, which is another node than `x`
  obtain ⟨z, hz, hzy⟩ := Identifier.isIn_iff.1 (hKL y hy)
  have hzx : (z == x) = false := by
    rw [← Bool.not_eq_true]
    intro hzx
    have hin : x.isIn K = true :=
      Identifier.isIn_iff.2 ⟨y, hy, BEq.trans (BEq.symm hzy) hzx⟩
    rw [hxK] at hin
    exact Bool.false_ne_true hin
  exact (hL.pairwise z hz x hxL hzx).congr hg (hK.listed y hy) hxl hzy BEq.rfl

/-- **Every clique is part of a maximal one.** -/
theorem IsClique.exists_maximal {K : List Identifier} (hK : g.IsClique w K) :
    ∃ L, g.IsMaximalClique w L ∧ Identifier.PartOf K L := by
  -- by induction on how many positions are left
  induction hn : ((g.indices w).toFinset \ (K.map g.position).toFinset).card
    using Nat.strong_induction_on generalizing K with
  | _ n ih =>
    by_cases hmaximal : g.IsMaximalClique w K
    · exact ⟨K, hmaximal, .refl K⟩
    · obtain ⟨x, hcons, hxl, hxK⟩ := hK.exists_cons hg hmaximal
      have hleft : ((g.indices w).toFinset \ ((x :: K).map g.position).toFinset).card < n := by
        rw [← hn]
        refine Finset.card_lt_card ((Finset.ssubset_iff_of_subset ?_).2 ⟨g.position x, ?_, ?_⟩)
        · refine Finset.sdiff_subset_sdiff (Finset.Subset.refl _) fun i hi => ?_
          rw [List.mem_toFinset] at hi ⊢
          exact List.mem_cons_of_mem _ hi
        · have hnotin : ¬ g.position x ∈ K.map g.position := by
            rw [← isIn_iff_position hg (.inl hxl) fun y hy => .inl (hK.listed y hy), hxK]
            exact Bool.false_ne_true
          rw [Finset.mem_sdiff, List.mem_toFinset, List.mem_toFinset]
          exact ⟨position_mem_indices hg hxl, hnotin⟩
        · rw [Finset.mem_sdiff, List.mem_toFinset, List.mem_toFinset]
          exact fun h => h.2 List.mem_cons_self
      obtain ⟨L, hL, hpart⟩ := ih _ hleft hcons rfl
      exact ⟨L, hL, fun y hy => hpart y (List.mem_cons_of_mem x hy)⟩

/-- A node that forms a maximal clique of its own is mutually adjacent to no node. -/
theorem IsMaximalClique.not_mutual {K : List Identifier} (hK : g.IsMaximalClique w K) {x : Identifier}
    (h : Identifier.sameSet K [x] = true) (y : Identifier) : ¬g.Mutual w x y := by
  intro hxy
  obtain ⟨hKx, -⟩ := Identifier.sameSet_iff_partOf.1 h
  have hspelling : ∀ {z : Identifier}, z.isIn [x] = true → (x == z) = true := by
    intro z hz
    obtain ⟨u, hu, huz⟩ := Identifier.isIn_iff.1 hz
    rw [List.mem_singleton.1 hu] at huz
    exact huz
  -- otherwise `y` would extend the clique
  have hcons : g.IsClique w (y :: K) := hK.toIsClique.cons hxy.right_listed fun z hz =>
    hxy.congr hg (hK.listed z hz) hxy.right_listed (hspelling (hKx z hz)) BEq.rfl
  have hin := hK.maximal (y :: K) hcons
    (fun z hz => Identifier.isIn_of_mem (List.mem_cons_of_mem y hz)) y List.mem_cons_self
  have hsame := hspelling (hKx.isIn hin)
  rw [hxy.differ] at hsame
  exact Bool.false_ne_true hsame

/-- **Listed nodes are mutually adjacent if their positions are linked.** -/
theorem linked_position_iff {o : Oracle} (ho : o.Tabulates g w) {x y : Identifier}
    (hx : x ∈ g.listed w) (hy : y ∈ g.listed w) :
    o.linked (g.position x) (g.position y) = true ↔ g.Mutual w x y := by
  rw [Oracle.linked_iff_mutual hg ho]
  constructor
  · intro h
    obtain ⟨u, v, huv, hux, hvy⟩ := h
    exact huv.congr hg hx hy ((hg.position_eq_iff (.inl huv.left_listed) (.inl hx)).1 hux)
      ((hg.position_eq_iff (.inl huv.right_listed) (.inl hy)).1 hvy)
  · intro hxy
    exact ⟨x, y, hxy, rfl, rfl⟩

/-- The positions of mutually adjacent nodes are linked, those of other listed nodes are not. -/
theorem linked_position_eq_false {o : Oracle} (ho : o.Tabulates g w) {x y : Identifier}
    (hx : x ∈ g.listed w) (hy : y ∈ g.listed w) :
    o.linked (g.position x) (g.position y) = false ↔ ¬g.Mutual w x y := by
  rw [← linked_position_iff hg ho hx hy, Bool.not_eq_true]

/-! ### Cliques as sets of positions -/

variable {o : Oracle} (ho : o.Tabulates g w)
include ho

/-- **The positions of a clique extend the root.** -/
theorem extends_positions {K : List Identifier} (hK : g.IsClique w K) :
    Extends o.linked (g.indices w) (K.map g.position).toFinset where
  subset := by
    intro i hi
    obtain ⟨x, hx, rfl⟩ := List.mem_map.1 (List.mem_toFinset.1 hi)
    exact position_mem_indices hg (hK.listed x hx)
  pairwise := by
    intro i hi j hj hij
    obtain ⟨x, hx, rfl⟩ := List.mem_map.1 (List.mem_toFinset.1 hi)
    obtain ⟨y, hy, rfl⟩ := List.mem_map.1 (List.mem_toFinset.1 hj)
    have hxl := hK.listed x hx
    have hyl := hK.listed y hy
    refine (linked_position_iff hg ho hxl hyl).2 (hK.pairwise x hx y hy ?_)
    rw [Ne, hg.position_eq_iff (.inl hxl) (.inl hyl), Bool.not_eq_true] at hij
    exact hij

/-- **The nodes at the positions of a set that extends the root form a clique.** -/
theorem isClique_named {S : Finset Nat} (hS : Extends o.linked (g.indices w) S) :
    g.IsClique w (g.named w S) where
  listed x hx := mem_listed_of_mem_places (mem_named.1 hx).1
  pairwise := by
    intro x hx y hy hxy
    obtain ⟨hxp, hxS⟩ := mem_named.1 hx
    obtain ⟨hyp, hyS⟩ := mem_named.1 hy
    refine (linked_position_iff hg ho (mem_listed_of_mem_places hxp)
      (mem_listed_of_mem_places hyp)).1 (hS.pairwise _ hxS _ hyS ?_)
    rw [Ne, hg.position_eq_iff (names_of_mem_places hxp) (names_of_mem_places hyp), hxy]
    decide

/-- **The positions of a maximal clique complete the root.** -/
theorem completes_positions {K : List Identifier} (hK : g.IsMaximalClique w K) :
    Completes o.linked (g.indices w) [] (K.map g.position).toFinset where
  subset := (extends_positions hg ho hK.toIsClique).subset
  pairwise := (extends_positions hg ho hK.toIsClique).pairwise
  closed := by
    intro i hi hiK
    obtain ⟨z, hz, rfl⟩ := mem_indices.1 (hi.resolve_right List.not_mem_nil)
    have hzl := mem_listed_of_mem_places hz
    by_contra hall
    -- otherwise `z` would extend the clique
    have hmutual : ∀ x ∈ K, g.Mutual w x z := by
      intro x hx
      by_contra hxz
      refine hall ⟨g.position x, List.mem_toFinset.2 (List.mem_map_of_mem hx), ?_⟩
      exact (linked_position_eq_false hg ho (hK.listed x hx) hzl).2 hxz
    have hin := hK.maximal (z :: K) (hK.toIsClique.cons hzl hmutual)
      (fun x hx => Identifier.isIn_of_mem (List.mem_cons_of_mem z hx)) z List.mem_cons_self
    refine hiK (List.mem_toFinset.2 ?_)
    exact (isIn_iff_position hg (.inl hzl) fun y hy => .inl (hK.listed y hy)).1 hin

/-- **The nodes at the positions of a completion form a maximal clique.** -/
theorem isMaximalClique_named {S : Finset Nat} (hS : Completes o.linked (g.indices w) [] S) :
    g.IsMaximalClique w (g.named w S) where
  toIsClique := isClique_named hg ho hS.toExtends
  maximal := by
    intro L hL hsub x hx
    have hxl := hL.listed x hx
    have hxS : g.position x ∈ S := by
      by_contra hxS
      obtain ⟨k, hk, hkx⟩ := hS.closed _ (.inl (position_mem_indices hg hxl)) hxS
      obtain ⟨y, hy, rfl⟩ := mem_indices.1 (hS.subset k hk)
      have hyl := mem_listed_of_mem_places hy
      -- the clique `L` holds a spelling of `y`, which is another node than `x`
      obtain ⟨z, hz, hzy⟩ := Identifier.isIn_iff.1 (hsub y (mem_named.2 ⟨hy, hk⟩))
      have hzl := hL.listed z hz
      rw [← hg.position_eq_iff (.inl hzl) (.inl hyl)] at hzy
      rw [← hzy] at hk hkx
      refine (linked_position_eq_false hg ho hzl hxl).1 hkx (hL.pairwise z hz x hx ?_)
      rw [← Bool.not_eq_true, ← hg.position_eq_iff (.inl hzl) (.inl hxl)]
      exact fun h => hxS (h ▸ hk)
    refine (isIn_iff_position hg (.inl hxl) fun y hy => names_of_mem_places (mem_named.1 hy).1).2 ?_
    rw [← List.mem_toFinset, toFinset_named hS.subset]
    exact hxS

end Orderly

end MaximalCliques.Access
