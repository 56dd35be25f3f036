import MaximalCliques.Proofs.Search.Invariant
import MaximalCliques.Proofs.Search.Subproblem

/-!
# Working triples

At every node of a search the committed vertices are linked to one another, and the candidates and the
excluded vertices part the vertices that are linked to all of them.  A candidate is excluded when the search
below it is over, so whatever is maximal and holds the committed vertices and an excluded one has been
delivered by then.

* **`SearchNode.IsTriple`** — the invariant of a node; **`SearchNode.isInvariant_isTriple`** says that the
  search keeps it.
* **`SearchNode.IsTriple.exists_completion`** — a maximal set that holds the committed vertices completes the
  node, unless it holds an excluded vertex.
* **`SearchNode.Exhausted`** — all that holds an excluded vertex has been delivered.
* **`Event.ExhaustFrom`** — it has been wherever a node is visited.
* **`Plan.exhaust_search`** — below a node, and along candidates, it has been.
-/

namespace MaximalCliques

variable {κ : Type} {linked : κ → κ → Bool} {V : List κ}

theorem IsLinkage.ne (hl : IsLinkage linked) {u v : κ} (h : linked u v = true) : u ≠ v := by
  rintro rfl
  rw [hl.irrefl] at h
  exact Bool.false_ne_true h

/-! ### The invariant of a node -/

/-- **A working triple** of a search among the vertices `V`: the committed vertices are linked to one
another; they, the candidates and the excluded vertices are different; and the candidates and the excluded
vertices are the vertices that are linked to all committed ones. -/
structure SearchNode.IsTriple (linked : κ → κ → Bool) (V : List κ) (n : SearchNode κ) : Prop where
  committed : ∀ r ∈ n.committed, r ∈ V
  pairwise : n.committed.Pairwise fun r s => linked r s = true
  nodup : (n.committed ++ (n.candidates ++ n.excluded)).Nodup
  common : ∀ u, u ∈ n.candidates ++ n.excluded ↔ u ∈ V ∧ ∀ r ∈ n.committed, linked r u = true

namespace SearchNode

theorem isTriple_root (hV : V.Nodup) : IsTriple linked V ⟨[], V, []⟩ where
  committed r hr := absurd hr List.not_mem_nil
  pairwise := .nil
  nodup := by rwa [List.nil_append, List.append_nil]
  common u := by
    rw [List.append_nil]
    exact ⟨fun hu => ⟨hu, fun r hr => absurd hr List.not_mem_nil⟩, fun h => h.1⟩

namespace IsTriple

variable {n : SearchNode κ} {R P Q X others : List κ} {v : κ}

/-- The order of the candidates and the excluded vertices does not matter, nor does it matter which of them
are candidates. -/
theorem of_perm {Y : List κ} (h : IsTriple linked V ⟨R, P, X⟩) (hperm : (Q ++ Y).Perm (P ++ X)) :
    IsTriple linked V ⟨R, Q, Y⟩ where
  committed := h.committed
  pairwise := h.pairwise
  nodup := (hperm.append_left R).nodup_iff.2 h.nodup
  common u := hperm.mem_iff.trans (h.common u)

/-- A candidate that is excluded stays linked to all committed vertices. -/
theorem exclude (h : IsTriple linked V ⟨R, v :: others, X⟩) : IsTriple linked V ⟨R, others, v :: X⟩ :=
  h.of_perm List.perm_middle

theorem linked_candidate (h : IsTriple linked V ⟨R, v :: others, X⟩) :
    v ∈ V ∧ ∀ r ∈ R, linked r v = true :=
  (h.common v).1 List.mem_cons_self

/-- **Below a candidate** there is a working triple. -/
theorem child (hl : IsLinkage linked) (h : IsTriple linked V ⟨R, v :: others, X⟩) :
    IsTriple linked V (.child R v others X (.ofTest (linked v))) where
  committed := List.forall_mem_cons.2 ⟨h.linked_candidate.1, h.committed⟩
  pairwise := by
    refine List.pairwise_cons.2 ⟨fun r hr => ?_, h.pairwise⟩
    rw [hl.symm]
    exact h.linked_candidate.2 r hr
  nodup := by
    have hnodup : (v :: R ++ (others ++ X)).Nodup := List.perm_middle.nodup_iff.1 h.nodup
    simp only [SearchNode.child, Hood.meet_ofTest, ← List.filter_append]
    exact hnodup.sublist ((List.Sublist.refl _).append List.filter_sublist)
  common u := by
    simp only [SearchNode.child, Hood.meet_ofTest, ← List.filter_append, List.mem_filter,
      List.forall_mem_cons]
    have hcommon := h.common u
    rw [List.cons_append, List.mem_cons] at hcommon
    constructor
    · rintro ⟨hu, hvu⟩
      obtain ⟨huV, hR⟩ := hcommon.1 (.inr hu)
      exact ⟨huV, hvu, hR⟩
    · rintro ⟨huV, hvu, hR⟩
      exact ⟨(hcommon.2 ⟨huV, hR⟩).resolve_left (hl.ne hvu).symm, hvu⟩

end IsTriple

/-- **A search keeps its working triples.** -/
theorem isInvariant_isTriple (hl : IsLinkage linked) (V : List κ) :
    IsInvariant (fun v => .ofTest (linked v)) (IsTriple linked V) where
  child _ _ _ _ h := h.child hl
  exclude _ _ _ _ h := h.exclude
  perm _ _ _ X hperm h := h.of_perm (hperm.append_right X)

/-! ### What has been delivered of the excluded vertices -/

variable [DecidableEq κ]

/-- **A maximal set that holds the committed vertices** of a working triple, and none of the excluded ones,
completes it. -/
theorem IsTriple.exists_completion {n : SearchNode κ} (hl : IsLinkage linked) (h : n.IsTriple linked V)
    {S : Finset κ} (hS : Completes linked V [] S) (hcommitted : ∀ r ∈ n.committed, r ∈ S)
    (hexcluded : ∀ x ∈ n.excluded, x ∉ S) :
    ∃ K, Completes linked n.candidates n.excluded K ∧ S = K ∪ n.committed.toFinset := by
  have hR : n.committed.toFinset ⊆ S := fun r hr => hcommitted r (List.mem_toFinset.1 hr)
  have hsplit : ∀ {u}, u ∈ S \ n.committed.toFinset ↔ u ∈ S ∧ u ∉ n.committed := by
    intro u
    rw [Finset.mem_sdiff, List.mem_toFinset]
  refine ⟨S \ n.committed.toFinset, ⟨fun u hu => ?_, fun u hu v hv => ?_, fun u hu huK => ?_⟩,
    (Finset.sdiff_union_of_subset hR).symm⟩
  · obtain ⟨huS, huR⟩ := hsplit.1 hu
    have hlinked : ∀ r ∈ n.committed, linked r u = true := fun r hr =>
      hS.pairwise r (hcommitted r hr) u huS fun hru => huR (hru ▸ hr)
    have hcommon := (h.common u).2 ⟨hS.subset u huS, hlinked⟩
    exact (List.mem_append.1 hcommon).resolve_right fun hx => hexcluded u hx huS
  · exact hS.pairwise u (hsplit.1 hu).1 v (hsplit.1 hv).1
  · obtain ⟨huV, hlinked⟩ := (h.common u).1 (List.mem_append.2 hu)
    have huR : u ∉ n.committed := fun huR => hl.ne (hlinked u huR) rfl
    obtain ⟨k, hk, hku⟩ := hS.closed u (.inl huV) fun huS => huK (hsplit.2 ⟨huS, huR⟩)
    refine ⟨k, hsplit.2 ⟨hk, fun hkR => ?_⟩, hku⟩
    rw [hlinked k hkR] at hku
    exact Bool.false_ne_true hku.symm

/-- **All that holds an excluded vertex has been seen**: every maximal set that holds the committed vertices
and an excluded one. -/
def Exhausted (linked : κ → κ → Bool) (V : List κ) (n : SearchNode κ) (seen : List (Finset κ)) : Prop :=
  ∀ x ∈ n.excluded, ∀ S, Completes linked V [] S → (∀ r ∈ n.committed, r ∈ S) → x ∈ S → S ∈ seen

namespace Exhausted

variable {seen : List (Finset κ)} {R P Q X others : List κ} {v : κ}

omit [DecidableEq κ] in
theorem of_candidates (h : Exhausted linked V ⟨R, P, X⟩ seen) (Q : List κ) :
    Exhausted linked V ⟨R, Q, X⟩ seen := h

omit [DecidableEq κ] in
/-- What holds the committed vertices of the node below a candidate holds those of the node. -/
theorem child (h : Exhausted linked V ⟨R, P, X⟩ seen) (v : κ) (others : List κ) :
    Exhausted linked V (.child R v others X (.ofTest (linked v))) seen := by
  intro x hx S hS hcommitted hxS
  simp only [SearchNode.child, Hood.meet_ofTest] at hx
  exact h x (List.mem_filter.1 hx).1 S hS (fun r hr => hcommitted r (List.mem_cons_of_mem v hr)) hxS

/-- **When a candidate is excluded** all that holds it has been seen: it has been delivered below the
candidate, or holds a vertex that had been excluded before. -/
theorem exclude (hl : IsLinkage linked) (plan : Plan κ) (h : Exhausted linked V ⟨R, v :: others, X⟩ seen)
    (hn : IsTriple linked V ⟨R, v :: others, X⟩) :
    Exhausted linked V ⟨R, others, v :: X⟩ (seen ++ (Event.delivered (plan.below
      (fun v => .ofTest (linked v)) (.child R v others X (.ofTest (linked v))))).map List.toFinset) := by
  intro x hx S hS hcommitted hxS
  by_cases hearlier : ∃ y ∈ X, y ∈ S
  · obtain ⟨y, hy, hyS⟩ := hearlier
    exact List.mem_append_left _ (h y hy S hS hcommitted hyS)
  · obtain rfl : x = v := (List.mem_cons.1 hx).resolve_right fun hx => hearlier ⟨x, hx, hxS⟩
    have hchild := hn.child hl
    obtain ⟨hcandidates, -, hdisjoint⟩ := List.nodup_append.1 (List.Nodup.of_append_right hchild.nodup)
    have hdelivered := plan.delivered_below hl (n := .child R x others X (.ofTest (linked x)))
      hcandidates fun u hu huR =>
        (List.nodup_append.1 hchild.nodup).2.2 u huR u (List.mem_append_left _ hu) rfl
    refine List.mem_append_right _ ((hdelivered.2 S).2 ?_)
    refine hchild.exists_completion hl hS (List.forall_mem_cons.2 ⟨hxS, hcommitted⟩) fun y hy hyS => ?_
    simp only [SearchNode.child, Hood.meet_ofTest] at hy
    exact hearlier ⟨y, (List.mem_filter.1 hy).1, hyS⟩

end Exhausted

end SearchNode

/-! ### Histories -/

variable [DecidableEq κ] {seen : List (Finset κ)} {es fs : List (Event κ)}

/-- **Wherever a node is visited**, all that holds an excluded vertex has been delivered by then, or had been
seen before. -/
def Event.ExhaustFrom (linked : κ → κ → Bool) (V : List κ) (seen : List (Finset κ))
    (es : List (Event κ)) : Prop :=
  ∀ before n after, es = before ++ .visit n :: after →
    n.Exhausted linked V (seen ++ (delivered before).map List.toFinset)

namespace Event

theorem exhaustFrom_nil : ExhaustFrom linked V seen [] := by
  intro before n after h
  exact absurd h.symm (by simp)

theorem ExhaustFrom.append (hes : ExhaustFrom linked V seen es)
    (hfs : ExhaustFrom linked V (seen ++ (delivered es).map List.toFinset) fs) :
    ExhaustFrom linked V seen (es ++ fs) := by
  intro before n after h
  rcases List.append_eq_append_iff.1 h with ⟨middle, rfl, hmiddle⟩ | ⟨middle, hmiddle, hafter⟩
  · rw [delivered_append, List.map_append, ← List.append_assoc]
    exact hfs middle n after hmiddle
  · cases middle with
    | nil =>
      have hlast := hfs [] n after hafter.symm
      rw [List.append_nil] at hmiddle
      rwa [hmiddle, delivered_nil, List.map_nil, List.append_nil] at hlast
    | cons e middle =>
      obtain ⟨rfl, -⟩ := List.cons.inj hafter
      exact hes before n middle hmiddle

/-- What the first event delivers has been seen by what comes after it. -/
theorem ExhaustFrom.cons {e : Event κ} (he : ∀ n, e = .visit n → n.Exhausted linked V seen)
    (hes : ExhaustFrom linked V (seen ++ (delivered [e]).map List.toFinset) es) :
    ExhaustFrom linked V seen (e :: es) := by
  intro before n after h
  rcases List.cons_eq_append_iff.1 h with ⟨rfl, hfirst⟩ | ⟨before, rfl, hrest⟩
  · obtain ⟨hn, -⟩ := List.cons.inj hfirst
    rw [delivered_nil, List.map_nil, List.append_nil]
    exact he n hn.symm
  · have hbefore := hes before n after hrest
    rwa [List.append_assoc, ← List.map_append, ← delivered_append] at hbefore

theorem ExhaustFrom.visit {n : SearchNode κ} (hn : n.Exhausted linked V seen)
    (hes : ExhaustFrom linked V seen es) : ExhaustFrom linked V seen (.visit n :: es) := by
  refine .cons (fun m hm => Event.visit.inj hm ▸ hn) ?_
  rwa [delivered_visit, delivered_nil, List.map_nil, List.append_nil]

theorem ExhaustFrom.poll {n : SearchNode κ} {v : κ} {goOn : Bool} (hes : ExhaustFrom linked V seen es) :
    ExhaustFrom linked V seen (.poll n v goOn :: es) := by
  refine .cons (fun m hm => by cases hm) ?_
  rwa [delivered_poll, delivered_nil, List.map_nil, List.append_nil]

end Event

/-- **Below a working triple** all that holds an excluded vertex has been seen wherever a node is visited, if
it has been when the search begins; and so it has along candidates. -/
theorem Plan.exhaust_search (hl : IsLinkage linked) (plan : Plan κ) :
    (∀ n : SearchNode κ, n.IsTriple linked V → ∀ seen, n.Exhausted linked V seen →
      Event.ExhaustFrom linked V seen (plan.below (fun v => .ofTest (linked v)) n)) ∧
    ∀ R todo kept X : List κ, SearchNode.IsTriple linked V ⟨R, todo ++ kept, X⟩ → ∀ seen,
      SearchNode.Exhausted linked V ⟨R, todo ++ kept, X⟩ seen →
      Event.ExhaustFrom linked V seen (plan.along (fun v => .ofTest (linked v)) R todo kept X) := by
  apply SearchNode.induction
  case node =>
    intro n hloop hn seen hseen
    rw [below_eq]
    refine .visit hseen ?_
    split
    · exact .cons (fun m hm => by cases hm) Event.exhaustFrom_nil
    · have hperm := (plan.parted (fun v => .ofTest (linked v)) n.candidates n.excluded).perm
      exact hloop _ (hn.of_perm (hperm.append_right _)) seen (hseen.of_candidates _)
  case nil =>
    intro R kept X _ seen _
    rw [along_nil]
    exact Event.exhaustFrom_nil
  case cons =>
    intro R v rest kept X hchild hrest hn seen hseen
    rw [along_cons]
    have hbelow := hchild _ (hn.child hl) seen (hseen.child v (rest ++ kept))
    have halong := hrest hn.exclude _ (hseen.exclude hl plan hn)
    exact .poll (hbelow.append halong)

/-- **In the search from the root** all that holds an excluded vertex has been delivered before the node is
visited. -/
theorem Plan.exhaust_root (hl : IsLinkage linked) (plan : Plan κ) (hV : V.Nodup)
    {before after : List (Event κ)} {n : SearchNode κ}
    (h : plan.below (fun v => .ofTest (linked v)) ⟨[], V, []⟩ = before ++ .visit n :: after) :
    n.Exhausted linked V ((Event.delivered before).map List.toFinset) :=
  (plan.exhaust_search hl).1 _ (SearchNode.isTriple_root hV) []
    (fun _ hx => absurd hx List.not_mem_nil) before n after h

end MaximalCliques
