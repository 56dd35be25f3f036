import Mathlib.Data.List.Lex
import Mathlib.Data.List.Sort
import MaximalCliques.Proofs.Search.Subproblem

/-!
# The order in which a search without a pivot delivers

Without a pivot the candidates of a node are branched on in ascending order, and the candidates of a node
below lie above the vertex that it commits to.  So a node commits to its vertices in ascending order, and
what is delivered comes in lexicographic order: below a candidate every list goes on with this candidate,
along the other candidates with a larger one.

* **`Precedes`** — the lexicographic order of lists of vertices.
* **`AscendLexicographically`** — ascending lists, each of which precedes those after it.
* **`SearchNode.Ascends`** — the vertices of a node were committed to in ascending order, and its candidates
  lie above them; **`SearchNode.Ascends.child`** says that this is kept below a candidate.
* **`Plan.delivered_ascending`** — what is delivered below such a node, read in the order in which its
  vertices were committed to.
-/

namespace MaximalCliques

variable {κ : Type} [LinearOrder κ]

/-! ### Lists in lexicographic order -/

/-- The list has a smaller vertex at the first place where it differs from the other one, or ends there. -/
def Precedes (c d : List κ) : Prop := List.Lex (· < ·) c d

/-- Lists that go on with different vertices after the same ones stand to each other as these vertices. -/
theorem Precedes.of_diverge {r c d : List κ} {u v : κ} (huv : u < v) (hc : r ++ [u] <+: c)
    (hd : r ++ [v] <+: d) : Precedes c d := by
  obtain ⟨s, rfl⟩ := hc
  obtain ⟨t, rfl⟩ := hd
  rw [List.append_assoc, List.append_assoc]
  exact List.Lex.append_left _ (List.Lex.rel huv) r

/-- **Ascending lists in lexicographic order**, all of which have a property. -/
structure AscendLexicographically (cs : List (List κ)) (p : List κ → Prop) : Prop where
  ascending : ∀ c ∈ cs, c.Pairwise (· < ·)
  sorted : cs.Pairwise Precedes
  holds : ∀ c ∈ cs, p c

namespace AscendLexicographically

variable {cs ds : List (List κ)} {p q : List κ → Prop}

theorem nil (p : List κ → Prop) : AscendLexicographically [] p where
  ascending _ hc := absurd hc List.not_mem_nil
  sorted := List.Pairwise.nil
  holds _ hc := absurd hc List.not_mem_nil

theorem singleton {c : List κ} (hc : c.Pairwise (· < ·)) (hp : p c) :
    AscendLexicographically [c] p where
  ascending d hd := by rwa [List.mem_singleton.1 hd]
  sorted := List.pairwise_singleton _ c
  holds d hd := by rwa [List.mem_singleton.1 hd]

theorem imp (h : AscendLexicographically cs p) (hpq : ∀ c, p c → q c) :
    AscendLexicographically cs q :=
  ⟨h.ascending, h.sorted, fun c hc => hpq c (h.holds c hc)⟩

/-- Lists of one kind come before lists of another kind if each of them does. -/
theorem append (hcs : AscendLexicographically cs p) (hds : AscendLexicographically ds q)
    (hpq : ∀ c d, p c → q d → Precedes c d) :
    AscendLexicographically (cs ++ ds) (fun c => p c ∨ q c) where
  ascending c hc := (List.mem_append.1 hc).elim (hcs.ascending c) (hds.ascending c)
  sorted := List.pairwise_append.2 ⟨hcs.sorted, hds.sorted, fun c hc d hd =>
    hpq c d (hcs.holds c hc) (hds.holds d hd)⟩
  holds c hc := (List.mem_append.1 hc).imp (hcs.holds c) (hds.holds c)

end AscendLexicographically

/-! ### Nodes that ascend -/

/-- **The vertices of a node were committed to in ascending order**, the last one standing first, and its
candidates lie above them. -/
structure SearchNode.Ascends (n : SearchNode κ) : Prop where
  committed : n.committed.Pairwise (· > ·)
  above : ∀ u ∈ n.candidates, ∀ v ∈ n.committed, v < u
  nodup : n.candidates.Nodup

/-- The node below the first of some ascending candidates ascends. -/
theorem SearchNode.Ascends.child {linked : κ → κ → Bool} {R rest X : List κ} {v : κ}
    (hR : R.Pairwise (· > ·)) (hv : ∀ u ∈ R, u < v) (hrest : (v :: rest).Pairwise (· < ·)) :
    (SearchNode.child R v rest X (.ofTest (linked v))).Ascends := by
  obtain ⟨hfirst, hrest⟩ := List.pairwise_cons.1 hrest
  have hcandidates : (SearchNode.child R v rest X (.ofTest (linked v))).candidates
      = rest.filter (linked v) := Hood.meet_ofTest _ _ _
  refine ⟨List.pairwise_cons.2 ⟨hv, hR⟩, fun u hu w hw => ?_, ?_⟩
  · rw [hcandidates] at hu
    have hvu : v < u := hfirst u (List.mem_filter.1 hu).1
    rcases List.mem_cons.1 hw with rfl | hw
    · exact hvu
    · exact (hv w hw).trans hvu
  · rw [hcandidates]
    exact (hrest.filter _).imp fun h => h.ne

namespace Plan

variable {plan : Plan κ} (hpivot : plan.pivot = false)
variable (hle : ∀ u v, plan.le u v = decide (u ≤ v)) (linked : κ → κ → Bool)

include hle in
theorem ordered_ascending {P : List κ} (hP : P.Nodup) : (plan.ordered P).Pairwise (· < ·) := by
  have hplan : plan.le = fun u v => decide (u ≤ v) := funext₂ hle
  have hperm := List.mergeSort_perm P plan.le
  have hsorted : (plan.ordered P).Pairwise (· ≤ ·) := by
    rw [ordered, hplan]
    exact List.pairwise_mergeSort' (· ≤ ·) P
  refine hsorted.imp₂ (fun u v hle hne => lt_of_le_of_ne hle hne) ?_
  exact (hperm.nodup_iff.2 hP)

include hpivot hle

/-- **What is delivered, below a node and along candidates.**  Below a node every list begins with the
vertices of the node, along candidates with the committed vertices and one of the candidates. -/
theorem delivered_ascending_search :
    (∀ n : SearchNode κ, n.Ascends → AscendLexicographically
      ((Event.delivered (plan.below (fun v => .ofTest (linked v)) n)).map List.reverse)
      fun c => n.committed.reverse <+: c) ∧
    ∀ R todo kept X : List κ, kept = [] → R.Pairwise (· > ·) → todo.Pairwise (· < ·) →
      (∀ u ∈ todo, ∀ v ∈ R, v < u) → AscendLexicographically
        ((Event.delivered (plan.along (fun v => .ofTest (linked v)) R todo kept X)).map List.reverse)
        fun c => ∃ u ∈ todo, R.reverse ++ [u] <+: c := by
  apply SearchNode.induction
  case node =>
    intro n hloop hn
    rw [below_eq, Event.delivered_visit, parted_of_not_pivot hpivot]
    split
    case isTrue =>
      rw [Event.delivered_emit, Event.delivered_nil, List.map_singleton]
      exact .singleton (List.pairwise_reverse.2 hn.committed) (List.prefix_refl _)
    case isFalse =>
      have hperm : (plan.everyone n.candidates).todo.Perm n.candidates := List.mergeSort_perm _ _
      refine (hloop (plan.everyone n.candidates) rfl hn.committed (ordered_ascending hle hn.nodup)
        fun u hu => hn.above u (hperm.mem_iff.1 hu)).imp fun c hc => ?_
      obtain ⟨u, -, hu⟩ := hc
      exact (List.prefix_append _ _).trans hu
  case nil =>
    intro R kept X _ _ _ _
    rw [along_nil]
    exact .nil _
  case cons =>
    intro R v rest kept X hchild hrest hkept hR htodo habove
    subst hkept
    rw [along_cons, Event.delivered_poll, Event.delivered_append, List.map_append, List.append_nil]
    have hchild' := hchild (.ofTest (linked v))
    rw [List.append_nil] at hchild'
    have hbelow := hchild' (.child hR (habove v List.mem_cons_self) htodo)
    have hpath : (SearchNode.child R v rest X (.ofTest (linked v))).committed.reverse
        = R.reverse ++ [v] := List.reverse_cons
    rw [hpath] at hbelow
    obtain ⟨hfirst, hothers⟩ := List.pairwise_cons.1 htodo
    have halong := hrest rfl hR hothers fun u hu => habove u (List.mem_cons_of_mem v hu)
    refine (hbelow.append halong ?_).imp ?_
    · intro c d hc hd
      obtain ⟨u, hu, hd⟩ := hd
      exact .of_diverge (hfirst u hu) hc hd
    · intro c hc
      rcases hc with hc | ⟨u, hu, hc⟩
      · exact ⟨v, List.mem_cons_self, hc⟩
      · exact ⟨u, List.mem_cons_of_mem v hu, hc⟩

/-- **Below a node that ascends** everything is delivered in ascending order: the lists themselves, and one
list after the other. -/
theorem delivered_ascending {n : SearchNode κ} (hn : n.Ascends) : AscendLexicographically
    ((Event.delivered (plan.below (fun v => .ofTest (linked v)) n)).map List.reverse)
    fun c => n.committed.reverse <+: c :=
  (delivered_ascending_search hpivot hle linked).1 n hn

end Plan

end MaximalCliques
