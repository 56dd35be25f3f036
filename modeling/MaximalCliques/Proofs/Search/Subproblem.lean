import Mathlib.Data.Finset.Basic
import Mathlib.Data.Finset.Dedup
import Mathlib.Data.Finset.Lattice.Lemmas
import Mathlib.Data.List.Basic
import MaximalCliques.Proofs.Search.History

/-!
# What a search delivers below a node

Let a symmetric relation without loops say which vertices are linked, and let the neighbourhood of a
vertex hold the vertices linked to it.  A set *extends* a node if its vertices are candidates of the
node, linked to one another; it *completes* the node if, moreover, no other candidate and no excluded
vertex is linked to all of them.

* **`Extends`** — the sets that extend a node with given candidates.
* **`Completes`** — the sets that complete a node with given candidates and excluded vertices.
* **`completes_insert_iff`**, **`completes_cons_iff_of_notMem`** — the completions that hold the first
  candidate are those of the node below it; the others are those left when it has been excluded.
* **`Completes.meets_todo`** — with or without a pivot, every completion of a node that is not maximal
  holds a candidate that is branched on.
* **`Plan.delivered_below`** — below a node the search delivers the committed vertices together with
  each completion, once each and nothing else.
-/

namespace MaximalCliques

variable {κ : Type}

/-! ### Neighbourhoods given by a test -/

/-- The neighbourhood of the vertices that pass a test, each being its own spelling. -/
def Hood.ofTest (test : κ → Bool) : Hood κ where
  size := 0
  find? u := if test u then some u else none

@[simp] theorem Hood.has_ofTest (test : κ → Bool) (u : κ) : (Hood.ofTest test).has u = test u := by
  unfold has ofTest
  cases h : test u <;> simp [h]

@[simp] theorem Hood.meet_ofTest (test : κ → Bool) (n : Nat) (us : List κ) :
    (Hood.ofTest test).meet n us = us.filter test := by
  induction us with
  | nil => rfl
  | cons u us ih =>
    rw [meet] at ih ⊢
    cases h : test u <;> simp [ofTest, h] <;> simpa [ofTest] using ih

/-! ### Sets that extend a node -/

/-- Vertices among `P`, linked to one another. -/
structure Extends (linked : κ → κ → Bool) (P : List κ) (K : Finset κ) : Prop where
  subset : ∀ u ∈ K, u ∈ P
  pairwise : ∀ u ∈ K, ∀ v ∈ K, u ≠ v → linked u v = true

namespace Extends

variable {linked : κ → κ → Bool} {P Q : List κ} {K : Finset κ}

theorem congr (hP : ∀ u, u ∈ P → u ∈ Q) (h : Extends linked P K) : Extends linked Q K where
  subset u hu := hP u (h.subset u hu)
  pairwise := h.pairwise

theorem empty (linked : κ → κ → Bool) (P : List κ) : Extends linked P ∅ where
  subset u hu := absurd hu (Finset.notMem_empty u)
  pairwise u hu := absurd hu (Finset.notMem_empty u)

theorem singleton (linked : κ → κ → Bool) {u : κ} (hu : u ∈ P) : Extends linked P {u} where
  subset v hv := by
    rw [Finset.mem_singleton.1 hv]
    exact hu
  pairwise v hv x hx hvx := by
    rw [Finset.mem_singleton.1 hv, Finset.mem_singleton.1 hx] at hvx
    exact absurd rfl hvx

theorem of_notMem {v : κ} (hv : v ∉ K) (h : Extends linked (v :: P) K) : Extends linked P K where
  subset u hu := by
    rcases List.mem_cons.1 (h.subset u hu) with rfl | huP
    · exact absurd hu hv
    · exact huP
  pairwise := h.pairwise

end Extends

/-! ### Completions -/

/-- Vertices among `P`, linked to one another, such that no other vertex of `P` and no vertex of `X` is
linked to all of them. -/
structure Completes (linked : κ → κ → Bool) (P X : List κ) (K : Finset κ) : Prop where
  subset : ∀ u ∈ K, u ∈ P
  pairwise : ∀ u ∈ K, ∀ v ∈ K, u ≠ v → linked u v = true
  closed : ∀ u, u ∈ P ∨ u ∈ X → u ∉ K → ∃ k ∈ K, linked k u = false

namespace Completes

variable {linked : κ → κ → Bool} {P Q X Y : List κ} {K : Finset κ}

theorem toExtends (h : Completes linked P X K) : Extends linked P K := ⟨h.subset, h.pairwise⟩

theorem congr (hP : ∀ u, u ∈ P ↔ u ∈ Q) (hX : ∀ u, u ∈ X ↔ u ∈ Y) (h : Completes linked P X K) :
    Completes linked Q Y K where
  subset u hu := (hP u).1 (h.subset u hu)
  pairwise := h.pairwise
  closed u hu := h.closed u (hu.imp (hP u).2 (hX u).2)

theorem nil_nil_iff : Completes linked [] [] K ↔ K = ∅ := by
  constructor
  · intro h
    refine Finset.eq_empty_of_forall_notMem fun u hu => ?_
    exact List.not_mem_nil (h.subset u hu)
  · rintro rfl
    refine ⟨fun u hu => ?_, fun u hu => ?_, fun u hu => ?_⟩
    · exact absurd hu (Finset.notMem_empty u)
    · exact absurd hu (Finset.notMem_empty u)
    · rcases hu with hu | hu <;> exact absurd hu List.not_mem_nil

end Completes

/-- **Completions that do not hold the first candidate** are those left when it has been excluded. -/
theorem completes_cons_iff_of_notMem {linked : κ → κ → Bool} {v : κ} {P X : List κ} {K : Finset κ}
    (hv : v ∉ K) :
    Completes linked (v :: P) X K ↔ Completes linked P (v :: X) K := by
  have hmem : ∀ u, (u ∈ v :: P ∨ u ∈ X) ↔ (u ∈ P ∨ u ∈ v :: X) := by
    intro u
    rw [List.mem_cons, List.mem_cons, or_assoc, or_left_comm]
  constructor
  · intro h
    refine ⟨fun u hu => ?_, h.pairwise, fun u hu => h.closed u ((hmem u).2 hu)⟩
    rcases List.mem_cons.1 (h.subset u hu) with rfl | huP
    · exact absurd hu hv
    · exact huP
  · intro h
    exact ⟨fun u hu => List.mem_cons_of_mem v (h.subset u hu), h.pairwise,
      fun u hu => h.closed u ((hmem u).1 hu)⟩

theorem Plan.widest_mem {P : List κ} {hs : List (Hood κ)} {h : Hood κ} (hw : Plan.widest P hs = some h) :
    h ∈ hs := by
  have hfold : ∀ (hs : List (Hood κ)) best, ∀ a, hs.foldl (Plan.wider P) best = some a →
      best = some a ∨ a.2 ∈ hs := by
    intro hs
    induction hs with
    | nil => intro best a ha; exact .inl ha
    | cons g hs ih =>
      intro best a ha
      rcases ih _ a ha with hbest | hmem
      · unfold Plan.wider at hbest
        cases best with
        | none =>
          simp only [Option.some.injEq] at hbest
          exact .inr (by rw [← hbest]; exact List.mem_cons_self)
        | some b =>
          simp only at hbest
          split at hbest
          · simp only [Option.some.injEq] at hbest
            exact .inr (by rw [← hbest]; exact List.mem_cons_self)
          · exact .inl hbest
      · exact .inr (List.mem_cons_of_mem g hmem)
  unfold Plan.widest at hw
  obtain ⟨a, ha, rfl⟩ := Option.map_eq_some_iff.1 hw
  rcases hfold hs none a ha with hnone | hmem
  · exact absurd hnone (by simp)
  · exact hmem

/-- Sets without a vertex, beside committed vertices that hold it, are sets that hold the vertex. -/
theorem exists_insert_iff [DecidableEq κ] {p q : Finset κ → Prop} {v : κ} {R : List κ}
    (hp : ∀ K, p K → v ∉ K) (hpq : ∀ K, v ∉ K → (p K ↔ q (insert v K))) (S : Finset κ) :
    (∃ K, p K ∧ S = K ∪ (v :: R).toFinset) ↔ ∃ K, q K ∧ v ∈ K ∧ S = K ∪ R.toFinset := by
  constructor
  · intro h
    obtain ⟨K, hK, hS⟩ := h
    refine ⟨insert v K, (hpq K (hp K hK)).1 hK, Finset.mem_insert_self v K, ?_⟩
    rw [hS, List.toFinset_cons, Finset.union_insert, Finset.insert_union]
  · intro h
    obtain ⟨K, hK, hvK, hS⟩ := h
    refine ⟨K.erase v, (hpq _ (Finset.notMem_erase v K)).2 ?_, ?_⟩
    · rw [Finset.insert_erase hvK]
      exact hK
    · rw [hS, List.toFinset_cons, Finset.union_insert, ← Finset.insert_union,
        Finset.insert_erase hvK]

/-- A symmetric relation without loops. -/
structure IsLinkage (linked : κ → κ → Bool) : Prop where
  symm : ∀ u v, linked u v = linked v u
  irrefl : ∀ u, linked u u = false

section Linkage

variable {linked : κ → κ → Bool} (hl : IsLinkage linked)
include hl

/-- No candidate and no excluded vertex is linked to all vertices of a completion. -/
theorem Completes.exists_unlinked {P X : List κ} {K : Finset κ} (h : Completes linked P X K) {u : κ}
    (hu : u ∈ P ∨ u ∈ X) : ∃ k ∈ K, linked u k = false := by
  by_cases huK : u ∈ K
  · exact ⟨u, huK, hl.irrefl u⟩
  · obtain ⟨k, hk, hku⟩ := h.closed u hu huK
    exact ⟨k, hk, by rw [hl.symm, hku]⟩

/-- **A completion holds a candidate that is branched on**, unless the node is maximal.  With a pivot, a
completion without such a candidate would consist of neighbours of the pivot, and the pivot would
extend it. -/
theorem Completes.meets_todo (plan : Plan κ) {P X : List κ} {K : Finset κ}
    (h : Completes linked P X K) (hne : P ≠ [] ∨ X ≠ []) :
    ∃ u ∈ (plan.parted (fun v => .ofTest (linked v)) P X).todo, u ∈ K := by
  have hpivot : ∀ u, u ∈ P ∨ u ∈ X →
      ∃ k ∈ (plan.outside (.ofTest (linked u)) P).todo, k ∈ K := by
    intro u hu
    obtain ⟨k, hk, huk⟩ := h.exists_unlinked hl hu
    refine ⟨k, List.mem_filter.2 ⟨List.mem_mergeSort.2 (h.subset k hk), ?_⟩, hk⟩
    rw [Hood.has_ofTest, huk]
    rfl
  have heveryone : ∃ k ∈ (plan.everyone P).todo, k ∈ K := by
    obtain ⟨u, hu⟩ : ∃ u, u ∈ P ∨ u ∈ X := by
      rcases hne with hP | hX
      · exact (List.exists_mem_of_ne_nil P hP).imp fun _ => .inl
      · exact (List.exists_mem_of_ne_nil X hX).imp fun _ => .inr
    obtain ⟨k, hk, -⟩ := h.exists_unlinked hl hu
    exact ⟨k, List.mem_mergeSort.2 (h.subset k hk), hk⟩
  unfold Plan.parted
  split
  · cases hw : Plan.widest P ((plan.ordered (P ++ X)).map fun v => .ofTest (linked v)) with
    | none => exact heveryone
    | some hood =>
      obtain ⟨u, hu, rfl⟩ := List.mem_map.1 (Plan.widest_mem hw)
      exact hpivot u (List.mem_append.1 (List.mem_mergeSort.1 hu))
  · exact heveryone

variable [DecidableEq κ]

/-- **Sets that hold the first candidate** extend a node if the rest extends the node below it. -/
theorem Extends.insert_iff {v : κ} {P : List κ} {K : Finset κ} (hv : v ∉ K) :
    Extends linked (v :: P) (insert v K) ↔ Extends linked (P.filter (linked v)) K := by
  constructor
  · intro h
    refine ⟨fun u hu => List.mem_filter.2 ⟨?_, ?_⟩, fun u hu w hw => ?_⟩
    · rcases List.mem_cons.1 (h.subset u (Finset.mem_insert_of_mem hu)) with rfl | huP
      · exact absurd hu hv
      · exact huP
    · refine h.pairwise v (Finset.mem_insert_self v K) u (Finset.mem_insert_of_mem hu) ?_
      exact fun hvu => hv (hvu ▸ hu)
    · exact h.pairwise u (Finset.mem_insert_of_mem hu) w (Finset.mem_insert_of_mem hw)
  · intro h
    have hlinked : ∀ u ∈ K, linked v u = true := fun u hu => (List.mem_filter.1 (h.subset u hu)).2
    refine ⟨fun u hu => ?_, fun u hu w hw huw => ?_⟩
    · rcases Finset.mem_insert.1 hu with rfl | hu
      · exact List.mem_cons_self
      · exact List.mem_cons_of_mem v (List.mem_filter.1 (h.subset u hu)).1
    · rcases Finset.mem_insert.1 hu with rfl | huK
      · rcases Finset.mem_insert.1 hw with rfl | hwK
        · exact absurd rfl huw
        · exact hlinked w hwK
      · rcases Finset.mem_insert.1 hw with rfl | hwK
        · rw [hl.symm]
          exact hlinked u huK
        · exact h.pairwise u huK w hwK huw

/-- **Completions that hold the first candidate** are completions of the node below it. -/
theorem completes_insert_iff {v : κ} {P X : List κ} {K : Finset κ} (hv : v ∉ K) :
    Completes linked (v :: P) X (insert v K) ↔
      Completes linked (P.filter (linked v)) (X.filter (linked v)) K := by
  constructor
  · intro h
    obtain ⟨hsubset, hpairwise⟩ := (Extends.insert_iff hl hv).1 h.toExtends
    refine ⟨hsubset, hpairwise, fun u hu huK => ?_⟩
    have hvu : linked v u = true := hu.elim (fun hu => (List.mem_filter.1 hu).2)
      (fun hu => (List.mem_filter.1 hu).2)
    have hmem : u ∈ v :: P ∨ u ∈ X :=
      hu.imp (fun hu => List.mem_cons_of_mem v (List.mem_filter.1 hu).1)
        (fun hu => (List.mem_filter.1 hu).1)
    -- of the whole completion, `u` is unlinked to some vertex other than `v`
    obtain ⟨k, hk, huk⟩ := h.exists_unlinked hl hmem
    rcases Finset.mem_insert.1 hk with rfl | hk
    · rw [hl.symm, hvu] at huk
      exact absurd huk (by decide)
    · exact ⟨k, hk, by rw [hl.symm, huk]⟩
  · intro h
    obtain ⟨hsubset, hpairwise⟩ := (Extends.insert_iff hl hv).2 h.toExtends
    refine ⟨hsubset, hpairwise, fun u hu huK => ?_⟩
    rw [Finset.mem_insert, not_or] at huK
    cases hvu : linked v u with
    | false => exact ⟨v, Finset.mem_insert_self v K, hvu⟩
    | true =>
      have hmem : u ∈ P.filter (linked v) ∨ u ∈ X.filter (linked v) := by
        refine hu.imp (fun hu => ?_) (fun hu => List.mem_filter.2 ⟨hu, hvu⟩)
        rcases List.mem_cons.1 hu with rfl | hu
        · exact absurd rfl huK.1
        · exact List.mem_filter.2 ⟨hu, hvu⟩
      obtain ⟨k, hk, hku⟩ := h.closed u hmem huK.2
      exact ⟨k, Finset.mem_insert_of_mem hk, hku⟩

/-- What extends the node below the first candidate, and its committed vertices, make up together. -/
theorem exists_extends_insert_iff {v : κ} {P R : List κ} (hv : v ∉ P) (S : Finset κ) :
    (∃ K, Extends linked (P.filter (linked v)) K ∧ S = K ∪ (v :: R).toFinset) ↔
      ∃ K, Extends linked (v :: P) K ∧ v ∈ K ∧ S = K ∪ R.toFinset :=
  exists_insert_iff (fun _ hK hvK => hv (List.mem_filter.1 (hK.subset v hvK)).1)
    (fun _ hvK => (Extends.insert_iff hl hvK).symm) S

/-- What the node below the first candidate and its committed vertices make up together. -/
theorem exists_completes_insert_iff {v : κ} {P X R : List κ} (hv : v ∉ P) (S : Finset κ) :
    (∃ K, Completes linked (P.filter (linked v)) (X.filter (linked v)) K ∧
      S = K ∪ (v :: R).toFinset) ↔
      ∃ K, Completes linked (v :: P) X K ∧ v ∈ K ∧ S = K ∪ R.toFinset :=
  exists_insert_iff (fun _ hK hvK => hv (List.mem_filter.1 (hK.subset v hvK)).1)
    (fun _ hvK => (completes_insert_iff hl hvK).symm) S

end Linkage

section Candidates

variable [DecidableEq κ] {linked : κ → κ → Bool} {v : κ} {P X R : List κ}

/-- What completions without the first candidate and committed vertices make up together. -/
theorem exists_completes_exclude_iff (hv : v ∉ P) (todo : List κ) (S : Finset κ) :
    (∃ K, Completes linked P (v :: X) K ∧ (∃ u ∈ todo, u ∈ K) ∧ S = K ∪ R.toFinset) ↔
      ∃ K, Completes linked (v :: P) X K ∧ (v ∉ K ∧ ∃ u ∈ todo, u ∈ K) ∧ S = K ∪ R.toFinset := by
  constructor
  · intro h
    obtain ⟨K, hK, hmeets, hS⟩ := h
    have hvK : v ∉ K := fun h => hv (hK.subset v h)
    exact ⟨K, (completes_cons_iff_of_notMem hvK).2 hK, ⟨hvK, hmeets⟩, hS⟩
  · intro h
    obtain ⟨K, hK, ⟨hvK, hmeets⟩, hS⟩ := h
    exact ⟨K, (completes_cons_iff_of_notMem hvK).1 hK, hmeets, hS⟩

/-- A completion that meets some candidates holds the first of them, or does not and meets the others. -/
theorem exists_completes_cons_iff (todo : List κ) (S : Finset κ) :
    ((∃ K, Completes linked P X K ∧ v ∈ K ∧ S = K ∪ R.toFinset) ∨
      ∃ K, Completes linked P X K ∧ (v ∉ K ∧ ∃ u ∈ todo, u ∈ K) ∧ S = K ∪ R.toFinset) ↔
      ∃ K, Completes linked P X K ∧ (∃ u ∈ v :: todo, u ∈ K) ∧ S = K ∪ R.toFinset := by
  constructor
  · intro h
    rcases h with ⟨K, hK, hvK, hS⟩ | ⟨K, hK, ⟨-, u, hu, huK⟩, hS⟩
    · exact ⟨K, hK, ⟨v, List.mem_cons_self, hvK⟩, hS⟩
    · exact ⟨K, hK, ⟨u, List.mem_cons_of_mem v hu, huK⟩, hS⟩
  · intro h
    obtain ⟨K, hK, ⟨u, hu, huK⟩, hS⟩ := h
    by_cases hvK : v ∈ K
    · exact .inl ⟨K, hK, hvK, hS⟩
    · rcases List.mem_cons.1 hu with rfl | hu
      · exact absurd huK hvK
      · exact .inr ⟨K, hK, ⟨hvK, u, hu, huK⟩, hS⟩

end Candidates

/-! ### What is delivered -/

section Delivery

variable [DecidableEq κ]

/-- The lists hold the sets with a property, each set once. -/
def ListOnce (cs : List (List κ)) (p : Finset κ → Prop) : Prop :=
  (cs.map List.toFinset).Nodup ∧ ∀ S, S ∈ cs.map List.toFinset ↔ p S

namespace ListOnce

variable {cs ds : List (List κ)} {p q : Finset κ → Prop}

theorem congr (h : ListOnce cs p) (hpq : ∀ S, p S ↔ q S) : ListOnce cs q :=
  ⟨h.1, fun S => (h.2 S).trans (hpq S)⟩

theorem nil (hp : ∀ S, ¬p S) : ListOnce ([] : List (List κ)) p :=
  ⟨List.nodup_nil, fun S => ⟨fun hS => absurd hS List.not_mem_nil, fun hS => absurd hS (hp S)⟩⟩

theorem singleton (c : List κ) : ListOnce [c] (· = c.toFinset) := by
  refine ⟨List.nodup_singleton _, fun S => ?_⟩
  rw [List.map_singleton, List.mem_singleton]

theorem append (hcs : ListOnce cs p) (hds : ListOnce ds q) (hpq : ∀ S, p S → ¬q S) :
    ListOnce (cs ++ ds) (fun S => p S ∨ q S) := by
  refine ⟨?_, fun S => ?_⟩
  · rw [List.map_append]
    refine List.nodup_append'.2 ⟨hcs.1, hds.1, fun S hS hS' => ?_⟩
    exact hpq S ((hcs.2 S).1 hS) ((hds.2 S).1 hS')
  · rw [List.map_append, List.mem_append, hcs.2, hds.2]

end ListOnce

variable {linked : κ → κ → Bool} (hl : IsLinkage linked) (plan : Plan κ)
include hl

/-- **What is delivered below a node, and along candidates.**  Below a node, the committed vertices
together with each completion; along candidates `todo`, those completions that hold one of them. -/
theorem Plan.delivered_search :
    (∀ n : SearchNode κ, n.candidates.Nodup → (∀ u ∈ n.candidates, u ∉ n.committed) →
      ListOnce (Event.delivered (plan.below (fun v => .ofTest (linked v)) n)) fun S =>
        ∃ K, Completes linked n.candidates n.excluded K ∧ S = K ∪ n.committed.toFinset) ∧
    ∀ R todo kept X : List κ, (todo ++ kept).Nodup → (∀ u ∈ todo ++ kept, u ∉ R) →
      ListOnce (Event.delivered (plan.along (fun v => .ofTest (linked v)) R todo kept X)) fun S =>
        ∃ K, Completes linked (todo ++ kept) X K ∧ (∃ u ∈ todo, u ∈ K) ∧ S = K ∪ R.toFinset := by
  apply SearchNode.induction
  case node =>
    intro n hloop hnodup hdisjoint
    rw [below_eq, Event.delivered_visit]
    cases hmax : n.isMaximal with
    | true =>
      obtain ⟨hP, hX⟩ : n.candidates = [] ∧ n.excluded = [] := by
        simpa [SearchNode.isMaximal] using hmax
      rw [if_pos rfl, hP, hX]
      refine (ListOnce.singleton n.committed).congr fun S => ?_
      simp only [Completes.nil_nil_iff, exists_eq_left, Finset.empty_union]
    | false =>
      have hne : n.candidates ≠ [] ∨ n.excluded ≠ [] := by
        by_contra hnil
        rw [not_or, not_not, not_not] at hnil
        simp [SearchNode.isMaximal, hnil.1, hnil.2] at hmax
      rw [if_neg (by decide)]
      have hs := (plan.parted (fun v => .ofTest (linked v)) n.candidates n.excluded).perm
      refine (hloop _ (hs.nodup_iff.2 hnodup) fun u hu => hdisjoint u (hs.mem_iff.1 hu)).congr ?_
      intro S
      constructor
      · intro h
        obtain ⟨K, hK, -, rfl⟩ := h
        exact ⟨K, hK.congr (fun u => hs.mem_iff) fun _ => Iff.rfl, rfl⟩
      · intro h
        obtain ⟨K, hK, rfl⟩ := h
        exact ⟨K, hK.congr (fun u => hs.mem_iff.symm) fun _ => Iff.rfl,
          hK.meets_todo hl plan hne, rfl⟩
  case nil =>
    intro R kept X _ _
    rw [along_nil]
    exact ListOnce.nil fun S ⟨_, _, ⟨_, hu, _⟩, _⟩ => absurd hu List.not_mem_nil
  case cons =>
    intro R v rest kept X hchild hrest hnodup hdisjoint
    rw [List.cons_append, List.nodup_cons] at hnodup
    obtain ⟨hv, hnodup⟩ := hnodup
    have hvR : v ∉ R := hdisjoint v List.mem_cons_self
    have hdisjoint' : ∀ u ∈ rest ++ kept, u ∉ R := fun u hu =>
      hdisjoint u (List.mem_cons_of_mem v hu)
    rw [along_cons, Event.delivered_poll, Event.delivered_append]
    have hchild' := hchild (.ofTest (linked v))
    simp only [SearchNode.child, Hood.meet_ofTest] at hchild' ⊢
    -- below `v` are the completions that hold `v`, along the others those that do not
    have hbelow := (hchild' (hnodup.filter _) (by
      intro u hu
      have hu' := (List.mem_filter.1 hu).1
      rw [List.mem_cons, not_or]
      exact ⟨fun huv => hv (huv ▸ hu'), hdisjoint' u hu'⟩)).congr (exists_completes_insert_iff hl hv)
    have halong := (hrest hnodup hdisjoint').congr (exists_completes_exclude_iff hv rest)
    refine (hbelow.append halong ?_).congr (exists_completes_cons_iff rest)
    intro S h h'
    obtain ⟨K, hK, hvK, hS⟩ := h
    obtain ⟨K', hK', ⟨hvK', -⟩, hS'⟩ := h'
    have hmem : v ∈ K' ∪ R.toFinset := by
      rw [← hS', hS]
      exact Finset.mem_union_left _ hvK
    rcases Finset.mem_union.1 hmem with h | h
    · exact hvK' h
    · exact hvR (List.mem_toFinset.1 h)

/-- **Below a node the search delivers the committed vertices with each completion**, once each. -/
theorem Plan.delivered_below {n : SearchNode κ} (hnodup : n.candidates.Nodup)
    (hdisjoint : ∀ u ∈ n.candidates, u ∉ n.committed) :
    ListOnce (Event.delivered (plan.below (fun v => .ofTest (linked v)) n)) fun S =>
      ∃ K, Completes linked n.candidates n.excluded K ∧ S = K ∪ n.committed.toFinset :=
  (plan.delivered_search hl).1 n hnodup hdisjoint

end Delivery

end MaximalCliques
