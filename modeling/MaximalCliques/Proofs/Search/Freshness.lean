import Mathlib.Data.Finset.Card
import MaximalCliques.Proofs.Search.History
import MaximalCliques.Proofs.Search.Mirror

/-!
# No clique is delivered twice

Neighbourhoods may be anything, and may differ each time one is asked for, as long as what is found of a
vertex is a spelling of it.  Even so a search delivers no set of vertices twice: the cliques below a
candidate hold it, and those that come later do not.

* **`Hood.Keeps`** — a neighbourhood that keeps what vertices stand for.
* **`Run.Fresh`** — a search that delivers no set of a given kind, and none twice, whatever neighbourhoods
  it is given.
* **`SearchNode.Holds`** — the sets of vertices that may be delivered below a node.
* **`Plan.search_fresh`** — searching below a node, and going through candidates.
-/

namespace MaximalCliques

variable {α β κ : Type} {f : α → κ}

/-! ### Neighbourhoods that keep what vertices stand for -/

/-- What is found of a vertex stands for the same thing, by `f`. -/
def Hood.Keeps (f : α → κ) (h : Hood α) : Prop := ∀ u w, h.find? u = some w → f w = f u

/-- What meets a neighbourhood stands for some of what was there, in the same order. -/
theorem Hood.Keeps.map_meet_sublist {h : Hood α} (hh : h.Keeps f) (among : Nat) (us : List α) :
    ((h.meet among us).map f).Sublist (us.map f) := by
  induction us with
  | nil => exact List.Sublist.slnil
  | cons u us ih =>
    cases hu : h.find? u with
    | none =>
      rw [meet, List.filterMap_cons_none (by rw [hu]; rfl)]
      exact ih.cons _
    | some w =>
      have hspelling : f (if among < h.size then u else w) = f u := by
        split
        · rfl
        · exact hh u w hu
      rw [meet, List.filterMap_cons_some (b := if among < h.size then u else w) (by rw [hu]; rfl),
        List.map_cons, List.map_cons, hspelling]
      exact ih.cons_cons _

/-- **A node whose vertices are distinct**: the candidates, each of them once, and the committed ones. -/
structure SearchNode.Distinct (f : α → κ) (R P : List α) : Prop where
  nodup : (P.map f).Nodup
  disjoint : ∀ u ∈ P, f u ∉ R.map f

namespace SearchNode

variable {R rest kept X : List α} {v : α} {h : Hood α}

theorem Distinct.child (hd : Distinct f R (v :: rest ++ kept)) (hh : h.Keeps f) :
    Distinct f (v :: R) (SearchNode.child R v (rest ++ kept) X h).candidates := by
  have hsub := hh.map_meet_sublist ((rest ++ kept).length + 1) (rest ++ kept)
  obtain ⟨hv, hnodup⟩ := List.nodup_cons.1 hd.nodup
  refine ⟨hnodup.sublist hsub, fun u hu hmem => ?_⟩
  have hu := hsub.subset (List.mem_map_of_mem hu)
  rcases List.mem_cons.1 hmem with heq | hR
  · exact hv (heq ▸ hu)
  · obtain ⟨u', hu', heq⟩ := List.mem_map.1 hu
    exact hd.disjoint u' (List.mem_cons_of_mem v hu') (heq ▸ hR)

theorem Distinct.tail (hd : Distinct f R (v :: rest ++ kept)) : Distinct f R (rest ++ kept) :=
  ⟨(List.nodup_cons.1 hd.nodup).2, fun u hu => hd.disjoint u (List.mem_cons_of_mem v hu)⟩

end SearchNode

/-! ### Searches that deliver nothing twice -/

variable [DecidableEq κ] {seen seen' : Finset κ → Prop}

/-- **A search that delivers nothing that has been seen**, and nothing twice, whatever neighbourhoods it is
given that keep what vertices stand for. -/
def Run.Fresh (f : α → κ) : Run α β → (Finset κ → Prop) → Prop
  | .done _, _ => True
  | .ask _ resume, seen => ∀ h : Hood α, h.Keeps f → (resume h).Fresh f seen
  | .visit _ rest, seen => rest.Fresh f seen
  | .branch _ _ rest, seen => rest.Fresh f seen
  | .emit clique rest, seen => ¬seen (clique.map f).toFinset ∧
    rest.Fresh f fun S => seen S ∨ S = (clique.map f).toFinset

namespace Run

theorem Fresh.mono {run : Run α β} (h : run.Fresh f seen) (hseen : ∀ S, seen' S → seen S) :
    run.Fresh f seen' := by
  induction run generalizing seen seen' with
  | done b => trivial
  | ask v resume ih => exact fun hood hhood => ih hood (h hood hhood) hseen
  | visit n rest ih => exact ih h hseen
  | branch n v rest ih => exact ih h hseen
  | emit clique rest ih =>
    exact ⟨fun hclique => h.1 (hseen _ hclique), ih h.2 fun S => Or.imp_left (hseen S)⟩

theorem askAll_fresh {us : List α} {k : List (Hood α) → Run α β} (hk : ∀ hs, (k hs).Fresh f seen) :
    (askAll us k).Fresh f seen := by
  induction us generalizing k with
  | nil => exact hk []
  | cons u us ih => exact fun h _ => ih fun hs => hk (h :: hs)

end Run

/-! ### What may be delivered -/

/-- **What may be delivered below a node**: the committed vertices and some of the candidates. -/
def SearchNode.Holds (f : α → κ) (n : SearchNode α) (S : Finset κ) : Prop :=
  ∃ K : Finset κ, (∀ k ∈ K, k ∈ n.candidates.map f) ∧ S = K ∪ (n.committed.map f).toFinset

/-- What may be delivered along the candidates `todo`: the committed vertices and some of the candidates,
one of them in `todo`. -/
def SearchNode.HoldsAlong (f : α → κ) (R todo kept : List α) (S : Finset κ) : Prop :=
  ∃ K : Finset κ, (∀ k ∈ K, k ∈ (todo ++ kept).map f) ∧ (∃ u ∈ todo, f u ∈ K) ∧
    S = K ∪ (R.map f).toFinset

namespace SearchNode

variable {R rest kept X : List α} {v : α} {h : Hood α}

theorem Holds.along (hh : h.Keeps f) {S : Finset κ}
    (hS : (SearchNode.child R v (rest ++ kept) X h).Holds f S) :
    HoldsAlong f R (v :: rest) kept S ∧ f v ∈ S := by
  obtain ⟨K, hK, rfl⟩ := hS
  have hv : f v ∈ ((v :: R).map f).toFinset := List.mem_toFinset.2 List.mem_cons_self
  refine ⟨⟨insert (f v) K, fun k hk => ?_, ⟨v, List.mem_cons_self, Finset.mem_insert_self _ K⟩, ?_⟩,
    Finset.mem_union_right K hv⟩
  · rcases Finset.mem_insert.1 hk with rfl | hk
    · exact List.mem_cons_self
    · exact List.mem_cons_of_mem _ ((hh.map_meet_sublist _ _).subset (hK k hk))
  · show K ∪ (f v :: R.map f).toFinset = _
    rw [List.toFinset_cons, Finset.union_insert, Finset.insert_union]

/-- What may be delivered along the others does not hold the candidate before them. -/
theorem HoldsAlong.not_mem (hd : Distinct f R (v :: rest ++ kept)) {S : Finset κ}
    (hS : HoldsAlong f R rest kept S) : f v ∉ S := by
  obtain ⟨K, hK, -, rfl⟩ := hS
  rw [Finset.mem_union, List.mem_toFinset]
  rintro (hv | hv)
  · exact (List.nodup_cons.1 hd.nodup).1 (hK _ hv)
  · exact hd.disjoint v List.mem_cons_self hv

theorem HoldsAlong.tail {S : Finset κ} (hS : HoldsAlong f R rest kept S) :
    HoldsAlong f R (v :: rest) kept S := by
  obtain ⟨K, hK, ⟨u, hu, huK⟩, rfl⟩ := hS
  exact ⟨K, fun k hk => List.mem_cons_of_mem _ (hK k hk), ⟨u, List.mem_cons_of_mem v hu, huK⟩, rfl⟩

end SearchNode

/-! ### The search -/

namespace Plan

open SearchNode

theorem choose_fresh {plan : Plan α} {P X : List α} {k : Split P → Run α β}
    (hk : ∀ s, (k s).Fresh f seen) : (plan.choose P X k).Fresh f seen := by
  unfold choose
  split
  · refine Run.askAll_fresh fun hoods => ?_
    split <;> exact hk _
  · exact hk _

/-- **Searching below a node** whose vertices are distinct delivers nothing twice, and nothing that has been
seen if nothing has been that may be delivered; and so does going through candidates. -/
theorem search_fresh (plan : Plan α) :
    (∀ n : SearchNode α, Distinct f n.committed n.candidates →
      ∀ {seen : Finset κ → Prop} {next : Run α β}, (∀ S, n.Holds f S → ¬seen S) →
      (next.Fresh f fun S => seen S ∨ n.Holds f S) → (plan.expand n next).Fresh f seen) ∧
    ∀ R todo kept X : List α, Distinct f R (todo ++ kept) →
      ∀ {seen : Finset κ → Prop} {next : Run α β}, (∀ S, HoldsAlong f R todo kept S → ¬seen S) →
      (next.Fresh f fun S => seen S ∨ HoldsAlong f R todo kept S) →
      (plan.explore R todo kept X next).Fresh f seen := by
  apply SearchNode.induction
  case node =>
    intro n hloop hn seen next hnew hnext
    show Run.Fresh f
      (if n.isMaximal then .emit n.committed next else plan.choose n.candidates n.excluded _) seen
    have hleaf : n.Holds f (n.committed.map f).toFinset :=
      ⟨∅, fun k hk => absurd hk (Finset.notMem_empty k), (Finset.empty_union _).symm⟩
    split
    · refine ⟨hnew _ hleaf, hnext.mono fun S hS => ?_⟩
      rcases hS with hS | rfl
      · exact .inl hS
      · exact .inr hleaf
    · refine choose_fresh fun s => ?_
      have halong : ∀ S, HoldsAlong f n.committed s.todo s.kept S → n.Holds f S := by
        rintro S ⟨K, hK, -, rfl⟩
        exact ⟨K, fun k hk => (s.perm.map f).mem_iff.1 (hK k hk), rfl⟩
      refine hloop s ⟨?_, fun u hu => hn.disjoint u (s.perm.mem_iff.1 hu)⟩
        (fun S hS => hnew S (halong S hS)) (hnext.mono fun S => Or.imp_right (halong S))
      exact (s.perm.map f).nodup_iff.2 hn.nodup
  case nil =>
    intro R kept X _ seen next _ hnext
    rw [explore_nil]
    exact hnext.mono fun S => .inl
  case cons =>
    intro R v rest kept X hchild hrest hd seen next hnew hnext
    rw [explore_cons]
    intro h hh
    refine hchild h (hd.child hh) (fun S hS => hnew S (hS.along hh).1) ?_
    -- what comes after the candidate does not hold it
    refine hrest hd.tail (fun S hS => ?_) (hnext.mono fun S hS => ?_)
    · rintro (hseen | hbelow)
      · exact hnew S hS.tail hseen
      · exact hS.not_mem hd (hbelow.along hh).2
    · rcases hS with (hS | hS) | hS
      · exact .inl hS
      · exact .inr (hS.along hh).1
      · exact .inr hS.tail

end Plan

end MaximalCliques
