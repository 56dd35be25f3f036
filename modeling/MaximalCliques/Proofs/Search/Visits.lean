import Mathlib.Data.Finset.Card
import MaximalCliques.Proofs.Search.Accounts
import MaximalCliques.Proofs.Search.Splitting
import MaximalCliques.Proofs.Search.Subproblem

/-!
# The nodes that a search visits

Let the neighbourhood of a vertex hold the vertices linked to it.  Every node below a given one commits to
the vertices of the given node and to a set that extends it, and no two nodes commit to the same vertices.
Without a pivot there is a node for every such set; a pivot leaves some out as soon as two candidates of
the root are linked.

* **`ListAtMostOnce`** — lists that hold sets with a property only, none of them twice.
* **`Plan.visited_search`** — the nodes below a node commit to sets that extend it, each at most once.
* **`Plan.Spreads`** — a plan that branches on some vertex of every non-empty set that extends a node; so
  does a plan without a pivot, and any plan where nothing is linked.
* **`Plan.visited_root_of_spreads`** — with such a plan every set that extends the root is visited once.
* **`Plan.exists_not_visited`** — with a pivot some set is left out where two candidates are linked.
-/

namespace MaximalCliques

variable {κ : Type}

/-! ### Lists without repetition -/

section Lists

variable [DecidableEq κ] {cs ds : List (List κ)} {p q : Finset κ → Prop}

/-- The lists hold sets with a property only, and none of them twice. -/
def ListAtMostOnce (cs : List (List κ)) (p : Finset κ → Prop) : Prop :=
  (cs.map List.toFinset).Nodup ∧ ∀ S ∈ cs.map List.toFinset, p S

namespace ListAtMostOnce

theorem imp (h : ListAtMostOnce cs p) (hpq : ∀ S, p S → q S) : ListAtMostOnce cs q :=
  ⟨h.1, fun S hS => hpq S (h.2 S hS)⟩

theorem append (hcs : ListAtMostOnce cs p) (hds : ListAtMostOnce ds q) (hpq : ∀ S, p S → ¬q S) :
    ListAtMostOnce (cs ++ ds) (fun S => p S ∨ q S) := by
  rw [ListAtMostOnce, List.map_append]
  refine ⟨List.nodup_append'.2 ⟨hcs.1, hds.1, fun S hS hS' => hpq S (hcs.2 S hS) (hds.2 S hS')⟩, ?_⟩
  intro S hS
  exact (List.mem_append.1 hS).imp (hcs.2 S) (hds.2 S)

/-- There are no more lists than there are sets with the property. -/
theorem length_le (hcs : ListAtMostOnce cs p) (hds : ListOnce ds p) : cs.length ≤ ds.length := by
  have hsub : cs.map List.toFinset ⊆ ds.map List.toFinset := fun S hS => (hds.2 S).2 (hcs.2 S hS)
  have hle := (hcs.1.subperm hsub).length_le
  rw [List.length_map, List.length_map] at hle
  exact hle

theorem length_lt (hcs : ListAtMostOnce cs p) (hds : ListOnce ds p) {S : Finset κ} (hS : p S)
    (hleft : S ∉ cs.map List.toFinset) : cs.length < ds.length := by
  have hsub : S :: cs.map List.toFinset ⊆ ds.map List.toFinset := by
    intro T hT
    rcases List.mem_cons.1 hT with rfl | hT
    · exact (hds.2 T).2 hS
    · exact (hds.2 T).2 (hcs.2 T hT)
  have hle := ((List.nodup_cons.2 ⟨hleft, hcs.1⟩).subperm hsub).length_le
  rw [List.length_cons, List.length_map, List.length_map] at hle
  omega

end ListAtMostOnce

theorem ListOnce.length_eq (hcs : ListOnce cs p) (hds : ListOnce ds p) : cs.length = ds.length :=
  Nat.le_antisymm (ListAtMostOnce.length_le ⟨hcs.1, fun S => (hcs.2 S).1⟩ hds)
    (ListAtMostOnce.length_le ⟨hds.1, fun S => (hds.2 S).1⟩ hcs)

end Lists

/-! ### Plans that leave nothing out -/

/-- **A plan that leaves nothing out**: it branches on some vertex of every non-empty set that extends a
node. -/
def Plan.Spreads (plan : Plan κ) (linked : κ → κ → Bool) : Prop :=
  ∀ P X K, Extends linked P K → K.Nonempty →
    ∃ u ∈ (plan.parted (fun v => .ofTest (linked v)) P X).todo, u ∈ K

theorem Plan.spreads_of_not_pivot {plan : Plan κ} (linked : κ → κ → Bool)
    (hpivot : plan.pivot = false) : plan.Spreads linked := by
  intro P X K hK hne
  obtain ⟨u, hu⟩ := hne
  refine ⟨u, ?_, hu⟩
  rw [parted_of_not_pivot hpivot]
  exact List.mem_mergeSort.2 (hK.subset u hu)

theorem Plan.spreads_of_unlinked (plan : Plan κ) {linked : κ → κ → Bool}
    (hlinked : ∀ u v, linked u v = false) : plan.Spreads linked := by
  intro P X K hK hne
  obtain ⟨u, hu⟩ := hne
  refine ⟨u, ?_, hu⟩
  have hordered : u ∈ plan.ordered P := List.mem_mergeSort.2 (hK.subset u hu)
  unfold parted
  split
  · cases hw : widest P ((plan.ordered (P ++ X)).map fun v => .ofTest (linked v)) with
    | none => exact hordered
    | some hood =>
      obtain ⟨v, -, rfl⟩ := List.mem_map.1 (widest_mem hw)
      refine List.mem_filter.2 ⟨hordered, ?_⟩
      rw [Hood.has_ofTest, hlinked]
      rfl
  · exact hordered

/-! ### A pivot leaves something out -/

/-- One more neighbourhood: the best one then has as many members as it and as the best one before. -/
theorem Plan.exists_wider {P : List κ} {best : Option (Nat × Hood κ)}
    (hbest : ∀ b, best = some b → b.1 = P.countP b.2.has) (h : Hood κ) :
    ∃ b, wider P best h = some b ∧ b.1 = P.countP b.2.has ∧ P.countP h.has ≤ b.1 ∧
      ∀ a, best = some a → a.1 ≤ b.1 := by
  cases best with
  | none => exact ⟨_, rfl, rfl, Nat.le_refl _, fun a ha => by cases ha⟩
  | some a =>
    obtain ⟨m, g⟩ := a
    have hm : m = P.countP g.has := hbest _ rfl
    by_cases hlt : m < P.countP h.has
    · refine ⟨(P.countP h.has, h), by simp [wider, hlt], rfl, Nat.le_refl _, fun a ha => ?_⟩
      cases ha
      exact Nat.le_of_lt hlt
    · refine ⟨(m, g), by simp [wider, hlt], hm, Nat.le_of_not_lt hlt, fun a ha => ?_⟩
      cases ha
      exact Nat.le_refl m

/-- The best of some neighbourhoods has as many members as any of them and as the best one before. -/
theorem Plan.foldl_wider {P : List κ} (hs : List (Hood κ)) {best : Option (Nat × Hood κ)}
    (hbest : ∀ b, best = some b → b.1 = P.countP b.2.has) {n : Nat}
    (hn : (∃ b, best = some b ∧ n ≤ b.1) ∨ ∃ h ∈ hs, n = P.countP h.has) :
    ∃ b, hs.foldl (wider P) best = some b ∧ b.1 = P.countP b.2.has ∧ n ≤ b.1 := by
  induction hs generalizing best with
  | nil =>
    rcases hn with ⟨b, hb, hn⟩ | ⟨h, hh, -⟩
    · exact ⟨b, hb, hbest b hb, hn⟩
    · exact absurd hh List.not_mem_nil
  | cons h hs ih =>
    obtain ⟨b, hb, hcount, hhere, hkept⟩ := exists_wider hbest h
    rw [List.foldl_cons, hb]
    refine ih (fun a ha => by cases ha; exact hcount) ?_
    rcases hn with ⟨a, ha, hn⟩ | ⟨h', hh', hn⟩
    · exact .inl ⟨b, rfl, Nat.le_trans hn (hkept a ha)⟩
    · rcases List.mem_cons.1 hh' with rfl | hh'
      · exact .inl ⟨b, rfl, hn ▸ hhere⟩
      · exact .inr ⟨h', hh', hn⟩

/-- **The widest neighbourhood** has as many members as any. -/
theorem Plan.exists_widest {P : List κ} {hs : List (Hood κ)} {g : Hood κ} (hg : g ∈ hs) :
    ∃ h, widest P hs = some h ∧ P.countP g.has ≤ P.countP h.has := by
  have hnone : ∀ b : Nat × Hood κ, none = some b → b.1 = P.countP b.2.has := fun b hb => by cases hb
  obtain ⟨b, hb, hcount, hle⟩ := foldl_wider hs hnone (.inr ⟨g, hg, rfl⟩)
  refine ⟨b.2, by rw [widest, hb]; rfl, ?_⟩
  rw [← hcount]
  exact hle

/-- **With a pivot some candidate is not branched on**, if two candidates are linked. -/
theorem Plan.exists_kept {plan : Plan κ} {linked : κ → κ → Bool} (hpivot : plan.pivot = true)
    {P X : List κ} {u v : κ} (hu : u ∈ P) (hv : v ∈ P) (huv : linked u v = true) :
    ∃ k, k ∈ (plan.parted (fun v => .ofTest (linked v)) P X).kept := by
  have hhood : Hood.ofTest (linked u) ∈ (plan.ordered (P ++ X)).map fun v => .ofTest (linked v) :=
    List.mem_map.2 ⟨u, List.mem_mergeSort.2 (List.mem_append_left X hu), rfl⟩
  obtain ⟨h, hwidest, hle⟩ := exists_widest (P := P) hhood
  have hpos : 0 < P.countP h.has := by
    refine Nat.lt_of_lt_of_le (List.countP_pos_iff.2 ⟨v, hv, ?_⟩) hle
    rw [Hood.has_ofTest]
    exact huv
  obtain ⟨k, hk, hhas⟩ := List.countP_pos_iff.1 hpos
  refine ⟨k, ?_⟩
  have hparted : plan.parted (fun v => .ofTest (linked v)) P X = plan.outside h P := by
    have hP : P.isEmpty = false := List.isEmpty_eq_false_iff.2 (List.ne_nil_of_mem hu)
    simp [parted, hpivot, hP, hwidest]
  rw [hparted]
  exact List.mem_filter.2 ⟨List.mem_mergeSort.2 hk, hhas⟩

/-! ### What is visited -/

/-- **Below the root are visited the root and the nodes below its branches**, in their order. -/
theorem Plan.visited_root_eq {plan : Plan κ} {hoods : κ → Hood κ} {P : List κ} (hP : P ≠ []) :
    Event.visited (plan.below hoods ⟨[], P, []⟩) = [] :: (plan.topNodes hoods P).flatMap fun n =>
      Event.visited (plan.below hoods n) := by
  rw [below_root hP, Event.visited_visit]
  exact congrArg ([] :: ·) (filterMap_along_nodes Event.visited? (fun _ _ _ => rfl) plan hoods _ _ [])

section Visits

variable [DecidableEq κ] {linked : κ → κ → Bool} (hl : IsLinkage linked) (plan : Plan κ)
include hl

/-- **What is visited below a node, and along candidates.**  Below a node, the committed vertices together
with sets that extend the node, each at most once; along candidates `todo`, only sets that hold one of them. -/
theorem Plan.visited_search :
    (∀ n : SearchNode κ, n.candidates.Nodup → (∀ u ∈ n.candidates, u ∉ n.committed) →
      ListAtMostOnce (Event.visited (plan.below (fun v => .ofTest (linked v)) n)) fun S =>
        ∃ K, Extends linked n.candidates K ∧ S = K ∪ n.committed.toFinset) ∧
    ∀ R todo kept X : List κ, (todo ++ kept).Nodup → (∀ u ∈ todo ++ kept, u ∉ R) →
      ListAtMostOnce (Event.visited (plan.along (fun v => .ofTest (linked v)) R todo kept X)) fun S =>
        ∃ K, Extends linked (todo ++ kept) K ∧ (∃ u ∈ todo, u ∈ K) ∧ S = K ∪ R.toFinset := by
  apply SearchNode.induction
  case node =>
    intro n hloop hnodup hdisjoint
    have hs := (plan.parted (fun v => .ofTest (linked v)) n.candidates n.excluded).perm
    have hcommitted : ListAtMostOnce [n.committed] (· = n.committed.toFinset) :=
      ⟨List.nodup_singleton _, fun S hS => List.mem_singleton.1 hS⟩
    rw [below_eq, Event.visited_visit]
    refine (ListAtMostOnce.append (q := fun S => ∃ K, Extends linked n.candidates K ∧
      (∃ u ∈ n.candidates, u ∈ K) ∧ S = K ∪ n.committed.toFinset) hcommitted ?_ ?_).imp ?_
    · split
      · exact ⟨List.nodup_nil, fun S hS => absurd hS List.not_mem_nil⟩
      · refine (hloop _ (hs.nodup_iff.2 hnodup) fun u hu => hdisjoint u (hs.mem_iff.1 hu)).imp ?_
        rintro S ⟨K, hK, ⟨u, hu, huK⟩, hS⟩
        exact ⟨K, hK.congr fun u => hs.mem_iff.1, ⟨u, hs.subset (List.mem_append_left _ hu), huK⟩, hS⟩
    · -- the nodes below commit to a candidate
      rintro S rfl ⟨K, -, ⟨u, hu, huK⟩, hS⟩
      have hmem : u ∈ n.committed.toFinset := hS ▸ Finset.mem_union_left _ huK
      exact hdisjoint u hu (List.mem_toFinset.1 hmem)
    · rintro S (rfl | ⟨K, hK, -, hS⟩)
      · exact ⟨∅, .empty linked _, (Finset.empty_union _).symm⟩
      · exact ⟨K, hK, hS⟩
  case nil =>
    intro R kept X _ _
    rw [along_nil]
    exact ⟨List.nodup_nil, fun S hS => absurd hS List.not_mem_nil⟩
  case cons =>
    intro R v rest kept X hchild hrest hnodup hdisjoint
    rw [List.cons_append, List.nodup_cons] at hnodup
    obtain ⟨hv, hnodup⟩ := hnodup
    have hvR : v ∉ R := hdisjoint v List.mem_cons_self
    have hdisjoint' : ∀ u ∈ rest ++ kept, u ∉ R := fun u hu =>
      hdisjoint u (List.mem_cons_of_mem v hu)
    rw [along_cons, Event.visited_poll, Event.visited_append]
    have hchild' := hchild (.ofTest (linked v))
    simp only [SearchNode.child, Hood.meet_ofTest] at hchild' ⊢
    -- below `v` the committed vertices hold `v`, along the others they do not
    have hbelow := (hchild' (hnodup.filter _) (by
      intro u hu
      have hu' := (List.mem_filter.1 hu).1
      rw [List.mem_cons, not_or]
      exact ⟨fun huv => hv (huv ▸ hu'), hdisjoint' u hu'⟩)).imp
        fun S => (exists_extends_insert_iff hl hv S).1
    refine (hbelow.append (hrest hnodup hdisjoint') ?_).imp ?_
    · rintro S ⟨K, -, hvK, hS⟩ ⟨K', hK', -, hS'⟩
      have hmem : v ∈ K' ∪ R.toFinset := by
        rw [← hS', hS]
        exact Finset.mem_union_left _ hvK
      rcases Finset.mem_union.1 hmem with h | h
      · exact hv (hK'.subset v h)
      · exact hvR (List.mem_toFinset.1 h)
    · rintro S (⟨K, hK, hvK, hS⟩ | ⟨K, hK, ⟨u, hu, huK⟩, hS⟩)
      · exact ⟨K, hK, ⟨v, List.mem_cons_self, hvK⟩, hS⟩
      · exact ⟨K, hK.congr fun x => List.mem_cons_of_mem v, ⟨u, List.mem_cons_of_mem v hu, huK⟩, hS⟩

/-- **A plan that leaves nothing out visits every set that extends a node**, together with the committed
vertices; along candidates, every set that holds one of them. -/
theorem Plan.visited_search_of_spreads (hspreads : plan.Spreads linked) :
    (∀ n : SearchNode κ, ∀ K, Extends linked n.candidates K → K ∪ n.committed.toFinset
      ∈ (Event.visited (plan.below (fun v => .ofTest (linked v)) n)).map List.toFinset) ∧
    ∀ R todo kept X : List κ, ∀ K, Extends linked (todo ++ kept) K → (∃ u ∈ todo, u ∈ K) →
      K ∪ R.toFinset
        ∈ (Event.visited (plan.along (fun v => .ofTest (linked v)) R todo kept X)).map
          List.toFinset := by
  apply SearchNode.induction
  case node =>
    intro n hloop K hK
    rw [below_eq, Event.visited_visit, List.map_cons, List.mem_cons]
    by_cases hne : K.Nonempty
    · obtain ⟨u, hu⟩ := hne
      have hmaximal : n.isMaximal = false := by
        have hcandidates : n.candidates ≠ [] := List.ne_nil_of_mem (hK.subset u hu)
        simp [SearchNode.isMaximal, hcandidates]
      rw [hmaximal]
      have hs := (plan.parted (fun v => .ofTest (linked v)) n.candidates n.excluded).perm
      exact .inr (hloop _ K (hK.congr fun u => hs.mem_iff.2)
        (hspreads n.candidates n.excluded K hK ⟨u, hu⟩))
    · rw [Finset.not_nonempty_iff_eq_empty.1 hne, Finset.empty_union]
      exact .inl rfl
  case nil =>
    intro R kept X K _ hmeets
    obtain ⟨u, hu, -⟩ := hmeets
    exact absurd hu List.not_mem_nil
  case cons =>
    intro R v rest kept X hchild hrest K hK hmeets
    rw [along_cons, Event.visited_poll, Event.visited_append, List.map_append, List.mem_append]
    by_cases hvK : v ∈ K
    · have hchild' := hchild (.ofTest (linked v)) (K.erase v)
      simp only [SearchNode.child, Hood.meet_ofTest] at hchild' ⊢
      refine .inl ?_
      have hunion : K ∪ R.toFinset = K.erase v ∪ (v :: R).toFinset := by
        rw [List.toFinset_cons, Finset.union_insert, ← Finset.insert_union, Finset.insert_erase hvK]
      rw [hunion]
      refine hchild' ((Extends.insert_iff hl (Finset.notMem_erase v K)).1 ?_)
      rw [Finset.insert_erase hvK]
      exact hK
    · obtain ⟨u, hu, huK⟩ := hmeets
      rcases List.mem_cons.1 hu with rfl | hu
      · exact absurd huK hvK
      · exact .inr (hrest K (hK.of_notMem hvK) ⟨u, hu, huK⟩)

variable {plan} {P : List κ}

/-- **Below the root are visited sets that extend it**, each at most once. -/
theorem Plan.visited_root (hP : P.Nodup) :
    ListAtMostOnce (Event.visited (plan.below (fun v => .ofTest (linked v)) ⟨[], P, []⟩))
      (Extends linked P) := by
  refine ((plan.visited_search hl).1 ⟨[], P, []⟩ hP fun u _ => List.not_mem_nil).imp ?_
  rintro S ⟨K, hK, hS⟩
  rw [hS]
  exact (Finset.union_empty K).symm ▸ hK

/-- **A plan that leaves nothing out** visits every set that extends the root. -/
theorem Plan.visited_root_of_spreads (hP : P.Nodup) (hspreads : plan.Spreads linked) :
    ListOnce (Event.visited (plan.below (fun v => .ofTest (linked v)) ⟨[], P, []⟩))
      (Extends linked P) := by
  obtain ⟨hnodup, hsound⟩ := plan.visited_root hl hP
  refine ⟨hnodup, fun S => ⟨hsound S, fun hS => ?_⟩⟩
  have hmem := (plan.visited_search_of_spreads hl hspreads).1 ⟨[], P, []⟩ S hS
  rw [show S ∪ ([] : List κ).toFinset = S from Finset.union_empty S] at hmem
  exact hmem

/-- **With a pivot some set that extends the root is not visited**, if two candidates are linked: a
candidate that is not branched on, by itself. -/
theorem Plan.exists_not_visited (hP : P.Nodup) (hpivot : plan.pivot = true) {u v : κ} (hu : u ∈ P)
    (hv : v ∈ P) (huv : linked u v = true) : ∃ S, Extends linked P S ∧
      S ∉ (Event.visited (plan.below (fun v => .ofTest (linked v)) ⟨[], P, []⟩)).map
        List.toFinset := by
  obtain ⟨k, hk⟩ := exists_kept (X := []) hpivot hu hv huv
  have hs := (plan.parted (fun v => .ofTest (linked v)) P []).perm
  have hnodup := hs.nodup_iff.2 hP
  refine ⟨{k}, .singleton linked (hs.subset (List.mem_append_right _ hk)), fun hmem => ?_⟩
  rw [below_root (List.ne_nil_of_mem hu), Event.visited_visit, List.map_cons, List.mem_cons] at hmem
  rcases hmem with hnil | halong
  · exact absurd hnil (Finset.singleton_ne_empty k)
  · obtain ⟨K, -, ⟨x, hx, hxK⟩, hS⟩ := ((plan.visited_search hl).2 [] _ _ [] hnodup
      fun u _ => List.not_mem_nil).2 _ halong
    rw [show K ∪ ([] : List κ).toFinset = K from Finset.union_empty K] at hS
    rw [← hS, Finset.mem_singleton] at hxK
    exact (List.nodup_append'.1 hnodup).2.2 hx (hxK ▸ hk)

end Visits

end MaximalCliques
