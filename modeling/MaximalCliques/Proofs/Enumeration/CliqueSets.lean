import MaximalCliques.Proofs.Enumeration.Discovery

/-!
# Sets of cliques

* **`Clique.collect_perm`** — cliques of which no two are equal are handed over each once.
* **`Clique.places_ne`** — cliques of different nodes are different.
* **`Subject.pairwise_discoveries`** — no clique is discovered twice.
-/

namespace MaximalCliques

namespace Clique

/-- Cliques that are taken up one after the other, none of which has been seen. -/
theorem foldl_distinct (cs : List Clique) (hcs : cs.Pairwise fun c d => c.places ≠ d.places)
    (seen : Std.HashMap (List Nat) Unit) (kept : List Clique)
    (hseen : ∀ c ∈ cs, seen.contains c.places = false) :
    (cs.foldl (fun (seen : Std.HashMap (List Nat) Unit × List Clique) c =>
      if seen.1.contains c.places then seen else (seen.1.insert c.places (), c :: seen.2))
      (seen, kept)).2 = cs.reverse ++ kept := by
  induction cs generalizing seen kept with
  | nil => rfl
  | cons c cs ih =>
    obtain ⟨hc, hcs⟩ := List.pairwise_cons.1 hcs
    have hnew : seen.contains c.places = false := hseen c List.mem_cons_self
    simp only [List.foldl_cons, hnew, Bool.false_eq_true, if_false]
    rw [ih hcs, List.reverse_cons, List.append_assoc, List.singleton_append]
    intro d hd
    rw [Std.HashMap.contains_insert, hseen d (List.mem_cons_of_mem c hd), Bool.or_false,
      beq_eq_false_iff_ne]
    exact hc d hd

theorem distinct_eq_self {cs : List Clique} (hcs : cs.Pairwise fun c d => c.places ≠ d.places) :
    distinct cs = cs := by
  unfold distinct
  rw [foldl_distinct cs hcs ∅ [] (by simp), List.append_nil, List.reverse_reverse]

/-- **Cliques of which no two are equal** are handed over each once. -/
theorem collect_perm {cs : List Clique} (hcs : cs.Pairwise fun c d => c.places ≠ d.places) :
    (collect cs).Perm cs := by
  unfold collect
  rw [distinct_eq_self hcs]
  refine (List.Perm.map Prod.snd (List.mergeSort_perm _ _)).trans ?_
  rw [List.map_map]
  exact List.Perm.of_eq (List.map_id cs)

variable {σ : Type} {g : Access σ} {w : σ}

/-- **Cliques of different nodes are different.** -/
theorem places_ne (hg : g.Orderly w) {c d : Clique} (hc : ∀ u ∈ c, g.Stands w u)
    (hd : ∀ u ∈ d, g.Stands w u) (h : Identifier.sameSet c.nodes d.nodes = false) :
    c.places ≠ d.places := by
  intro hplaces
  have hindices : ∀ {a b : Clique}, (∀ u ∈ a, g.Stands w u) → (∀ u ∈ b, g.Stands w u) →
      a.places = b.places → ∀ i ∈ a.map (·.index), i ∈ b.map (·.index) := by
    intro a b ha hb hab i hi
    obtain ⟨u, hu, rfl⟩ := List.mem_map.1 hi
    have hplace : u.place ∈ b.places := by
      rw [← hab]
      exact List.mem_map_of_mem (List.mem_mergeSort.2 hu)
    obtain ⟨v, hv, hvu⟩ := List.mem_map.1 hplace
    have hvb := List.mem_mergeSort.1 hv
    refine List.mem_map.2 ⟨v, hvb, ?_⟩
    rw [(hb v hvb).index_eq_iff hg (ha u hu), ← (hb v hvb).place_eq_iff (ha u hu)]
    exact hvu
  have hsame : Identifier.sameSet c.nodes d.nodes = true := by
    rw [sameSet_nodes_iff hg hc hd, Finset.Subset.antisymm_iff]
    constructor
    · intro i hi
      exact List.mem_toFinset.2 (hindices hc hd hplaces i (List.mem_toFinset.1 hi))
    · intro i hi
      exact List.mem_toFinset.2 (hindices hd hc hplaces.symm i (List.mem_toFinset.1 hi))
  rw [h] at hsame
  exact Bool.false_ne_true hsame

end Clique

/-- **No clique is discovered twice.** -/
theorem Subject.pairwise_discoveries {σ : Type} {g : Access σ} {w : σ} {o : Oracle}
    (hg : g.Orderly w) (ho : o.Tabulates g w) (settings : Settings) :
    (discoveries g w o settings).Pairwise fun c d => c.places ≠ d.places := by
  have hstands : ∀ c ∈ discoveries g w o settings, ∀ u ∈ c, g.Stands w u :=
    stands_of_mem_discoveriesBelow hg ho (root_within g w o)
  have honce := List.pairwise_map.1 (discoveries_enumerates hg ho settings).once
  exact honce.imp_of_mem fun hc hd h => Clique.places_ne hg (hstands _ hc) (hstands _ hd) h

end MaximalCliques
