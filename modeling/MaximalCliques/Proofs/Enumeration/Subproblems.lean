import MaximalCliques.Proofs.Enumeration.Cancellation
import MaximalCliques.Proofs.Enumeration.WorkingTriples

/-!
# Subproblems of a graph

The search of an orderly graph may begin at any node: whatever its nodes are committed, the candidates and
the excluded ones are any other nodes.  Such a subproblem need not come up in the search from the root.  The
search delivers the committed nodes with each *completion*, once each: a set of candidates that are mutually
adjacent, and that no other candidate and no excluded node joins.

* **`Access.IsCompletion`** — candidates that complete a node of the search.
* **`Access.ListsCompletions`** — cliques that consist of the committed nodes and of the completions.
* **`Access.IsCompletion.completes`**, **`Access.isCompletion_at`** — completions are those of the
  positions.
* **`Subject.discoveriesBelow_listsCompletions`** — what the search below a node delivers.
* **`searchBelow_solves`** — on a tabulated graph, alone or as a branch, the search below any node does.
-/

namespace MaximalCliques

variable {σ : Type} {g : Access σ} {w : σ} {o : Oracle} {n : SearchNode Vertex}

/-! ### Completions -/

namespace Access

/-- **Candidates that complete a node of the search.**  They are mutually adjacent, and no other candidate
and no excluded node is mutually adjacent to all of them. -/
structure IsCompletion (g : Access σ) (w : σ) (n : SearchNode Vertex) (K : List Vertex) : Prop where
  subset : ∀ u ∈ K, u ∈ n.candidates
  pairwise : ∀ u ∈ K, ∀ v ∈ K, (u.node == v.node) = false → g.Adjoin w u.node v.node
  closed : ∀ u ∈ n.candidates ++ n.excluded, u.node.isIn (K.map (·.node)) = false →
    ∃ v ∈ K, ¬g.Adjoin w v.node u.node

/-- **Cliques that consist of the committed nodes and of a completion**: one for each completion, and no
other.  They are compared as sets of nodes, whatever the spelling. -/
structure ListsCompletions (g : Access σ) (w : σ) (n : SearchNode Vertex) (cs : List Clique) : Prop where
  sound : ∀ c ∈ cs, ∃ K, g.IsCompletion w n K ∧
    Identifier.sameSet (Clique.nodes c) (Clique.nodes (n.committed ++ K)) = true
  complete : ∀ K, g.IsCompletion w n K → ∃ c ∈ cs,
    Identifier.sameSet (Clique.nodes c) (Clique.nodes (n.committed ++ K)) = true
  once : cs.Pairwise fun c d => Identifier.sameSet (Clique.nodes c) (Clique.nodes d) = false

def candidatesAt (n : SearchNode Vertex) (S : Finset Nat) : List Vertex :=
  n.candidates.filter fun u => u.index ∈ S

theorem mem_candidatesAt {S : Finset Nat} {u : Vertex} :
    u ∈ candidatesAt n S ↔ u ∈ n.candidates ∧ u.index ∈ S := by
  rw [candidatesAt, List.mem_filter, decide_eq_true_iff]

theorem toFinset_candidatesAt {S : Finset Nat} (hS : ∀ i ∈ S, i ∈ n.candidates.map (·.index)) :
    ((candidatesAt n S).map (·.index)).toFinset = S := by
  ext i
  rw [List.mem_toFinset, List.mem_map]
  constructor
  · rintro ⟨u, hu, rfl⟩
    exact (mem_candidatesAt.1 hu).2
  · intro hi
    obtain ⟨u, hu, rfl⟩ := List.mem_map.1 (hS i hi)
    exact ⟨u, mem_candidatesAt.2 ⟨hu, hi⟩, rfl⟩

section Orderly

variable (hg : g.Orderly w) (ho : o.Tabulates g w) (hn : n.Within (g.Stands w))
include hg ho hn

/-- **The positions of a completion** complete the node of the positions. -/
theorem IsCompletion.completes {K : List Vertex} (hK : g.IsCompletion w n K) :
    Completes o.linked (n.candidates.map (·.index)) (n.excluded.map (·.index))
      (K.map (·.index)).toFinset := by
  have hstands : ∀ u ∈ K, g.Stands w u := fun u hu => hn.candidates u (hK.subset u hu)
  refine ⟨fun i hi => ?_, fun i hi j hj hij => ?_, fun i hi hiK => ?_⟩
  · obtain ⟨u, hu, rfl⟩ := List.mem_map.1 (List.mem_toFinset.1 hi)
    exact List.mem_map_of_mem (hK.subset u hu)
  · obtain ⟨u, hu, rfl⟩ := List.mem_map.1 (List.mem_toFinset.1 hi)
    obtain ⟨v, hv, rfl⟩ := List.mem_map.1 (List.mem_toFinset.1 hj)
    rw [Ne, (hstands u hu).index_eq_iff hg (hstands v hv), Bool.not_eq_true] at hij
    exact (linked_index_iff hg ho (hstands u hu) (hstands v hv)).2 (hK.pairwise u hu v hv hij)
  · obtain ⟨u, hu, rfl⟩ := List.mem_map.1 (List.map_append ▸ List.mem_append.2 hi)
    have hustands : g.Stands w u := List.forall_mem_append.2 ⟨hn.candidates, hn.excluded⟩ u hu
    rw [List.mem_toFinset, ← isIn_nodes_iff hg hustands hstands, Bool.not_eq_true] at hiK
    obtain ⟨v, hv, huv⟩ := hK.closed u hu hiK
    refine ⟨v.index, List.mem_toFinset.2 (List.mem_map_of_mem hv), ?_⟩
    rwa [← Bool.not_eq_true, linked_index_iff hg ho (hstands v hv) hustands]

/-- **The candidates at positions that complete the node of the positions** are a completion. -/
theorem isCompletion_at {S : Finset Nat}
    (hS : Completes o.linked (n.candidates.map (·.index)) (n.excluded.map (·.index)) S) :
    g.IsCompletion w n (candidatesAt n S) := by
  have hstands : ∀ u ∈ candidatesAt n S, g.Stands w u := fun u hu =>
    hn.candidates u (mem_candidatesAt.1 hu).1
  refine ⟨fun u hu => (mem_candidatesAt.1 hu).1, fun u hu v hv huv => ?_, fun u hu huS => ?_⟩
  · rw [← linked_index_iff hg ho (hstands u hu) (hstands v hv)]
    refine hS.pairwise _ (mem_candidatesAt.1 hu).2 _ (mem_candidatesAt.1 hv).2 ?_
    rw [Ne, (hstands u hu).index_eq_iff hg (hstands v hv), huv]
    exact Bool.false_ne_true
  · have hustands : g.Stands w u := List.forall_mem_append.2 ⟨hn.candidates, hn.excluded⟩ u hu
    rw [← Bool.not_eq_true, isIn_nodes_iff hg hustands hstands, ← List.mem_toFinset,
      toFinset_candidatesAt hS.subset] at huS
    have hmem : u.index ∈ n.candidates.map (·.index) ∨ u.index ∈ n.excluded.map (·.index) :=
      (List.mem_append.1 hu).imp List.mem_map_of_mem List.mem_map_of_mem
    obtain ⟨k, hk, hku⟩ := hS.closed _ hmem huS
    obtain ⟨v, hv, rfl⟩ := List.mem_map.1 (hS.subset k hk)
    refine ⟨v, mem_candidatesAt.2 ⟨hv, hk⟩, ?_⟩
    rw [← linked_index_iff hg ho (hn.candidates v hv) hustands, hku]
    exact Bool.false_ne_true

/-- **Cliques whose positions are the committed ones with each completion**, once each, consist of the
committed nodes and of the completions. -/
theorem listsCompletions_of_listOnce {cs : List Clique} (hcs : ∀ c ∈ cs, ∀ u ∈ c, g.Stands w u)
    (h : ListOnce (cs.map (List.map (·.index))) fun S => ∃ K, Completes o.linked
      (n.candidates.map (·.index)) (n.excluded.map (·.index)) K ∧
        S = K ∪ (n.committed.map (·.index)).toFinset) : g.ListsCompletions w n cs := by
  obtain ⟨hnodup, hmem⟩ := h
  rw [List.map_map] at hmem
  have hsame : ∀ c ∈ cs, ∀ K, (∀ u ∈ K, u ∈ n.candidates) →
      (Identifier.sameSet (Clique.nodes c) (Clique.nodes (n.committed ++ K)) = true ↔
        (c.map (·.index)).toFinset
          = (K.map (·.index)).toFinset ∪ (n.committed.map (·.index)).toFinset) := by
    intro c hc K hK
    have hstands : ∀ u ∈ n.committed ++ K, g.Stands w u :=
      List.forall_mem_append.2 ⟨hn.committed, fun u hu => hn.candidates u (hK u hu)⟩
    rw [Clique.sameSet_nodes_iff hg (hcs c hc) hstands, List.map_append, List.toFinset_append,
      Finset.union_comm]
  refine ⟨fun c hc => ?_, fun K hK => ?_, ?_⟩
  · obtain ⟨S, hS, hcS⟩ := (hmem _).1 (List.mem_map_of_mem hc)
    have hcompletion := isCompletion_at hg ho hn hS
    refine ⟨_, hcompletion, (hsame c hc _ hcompletion.subset).2 ?_⟩
    rw [toFinset_candidatesAt hS.subset]
    exact hcS
  · obtain ⟨c, hc, hcK⟩ := List.mem_map.1 ((hmem _).2 ⟨_, hK.completes hg ho hn, rfl⟩)
    exact ⟨c, hc, (hsame c hc K hK.subset).2 hcK⟩
  · exact Clique.pairwise_nodes hg hcs hnodup

end Orderly

end Access

/-! ### What is delivered below a node -/

namespace Subject

variable (hg : g.Orderly w) (ho : o.Tabulates g w) (hn : n.Within (g.Stands w))
include hg ho hn

/-- **Below a node the search delivers the committed nodes with each completion**, once each, if the
candidates are different nodes, and other ones than the committed nodes. -/
theorem discoveriesBelow_listsCompletions (settings : Settings)
    (hapart : (n.committed ++ n.candidates).Pairwise fun u v => (u.node == v.node) = false) :
    g.ListsCompletions w n (discoveriesBelow g w o settings n) := by
  have hstands : ∀ u ∈ n.committed ++ n.candidates, g.Stands w u :=
    List.forall_mem_append.2 ⟨hn.committed, hn.candidates⟩
  have hnodup := (Access.nodup_indices_iff hg hstands).2 hapart
  rw [List.map_append] at hnodup
  obtain ⟨-, hcandidates, hdisjoint⟩ := List.nodup_append.1 hnodup
  refine Access.listsCompletions_of_listOnce hg ho hn
    (stands_of_mem_discoveriesBelow hg ho hn) ?_
  rw [map_discoveriesBelow hg ho settings hn]
  exact (onPositions settings).delivered_below o.isLinkage_linked (n := n.map Vertex.index) hcandidates
    fun i hi hiR => hdisjoint i hiR i hi rfl

omit hg ho hn in
/-- A node without candidates delivers its committed nodes if none is excluded, and nothing otherwise. -/
theorem discoveriesBelow_of_candidates_eq_nil (settings : Settings) (hnone : n.candidates = []) :
    discoveriesBelow g w o settings n = if n.excluded = [] then [n.committed] else [] := by
  obtain ⟨R, P, X⟩ := n
  obtain rfl : P = [] := hnone
  rw [discoveriesBelow, historyBelow_eq, Plan.below_eq, Event.delivered_visit]
  cases X with
  | nil => rfl
  | cons x X =>
    have hlength := ((plan settings).parted (g.hoodAt w o) [] (x :: X)).length_eq
    have htodo := List.length_eq_zero_iff.1 (Nat.eq_zero_of_add_eq_zero_right hlength)
    simp only [SearchNode.isMaximal, htodo, Plan.along_nil]
    rfl

/-- **A subject solves a subproblem** if it delivers given cliques below a node, and nothing else, and comes to
its end: in a search that begins there, whatever has been counted before, and as a branch of its own. -/
structure Solves (s : Subject) (g : Access σ) (settings : Settings) (w : σ) (n : SearchNode Vertex)
    (cs : List Clique) : Prop where
  searched : ∀ counters : Counters, ∃ p,
    ((searchBelow settings n).finish (s.conductor g fun _ => pure false)).run ({ counters }, w)
      = (.ok (some ()), (p, w)) ∧ p.found.reverse = cs
  branched : ∃ branch polls, (s.runBranch g settings (fun _ => pure false) n 0).run w
      = ((branch, polls), w) ∧ branch.ending = .finished ∧ branch.found = cs

/-- **A tabulated graph solves every subproblem** by what its search discovers there. -/
theorem solves_discoveriesBelow (settings : Settings) :
    Solves ⟨o, g.roster w⟩ g settings w n (discoveriesBelow g w o settings n) where
  searched counters := by
    obtain ⟨p, hfinish, hfollows, -⟩ := finish_conducted hg ho (fun _ => false)
      (searchBelow_mirrors hg ho settings hn).within (p := { counters })
      (Progress.sound_of_empty g w o rfl)
    rw [Run.trail_never] at hfinish hfollows
    refine ⟨p, hfinish, ?_⟩
    rw [hfollows.found, List.append_nil, List.reverse_reverse]
    rfl
  branched := by
    obtain ⟨polls, hrun⟩ := runBranch_unstopped hg ho settings hn
    exact ⟨_, polls, hrun, rfl, rfl⟩

end Subject

/-- **Correctness of any subproblem.**  Take an orderly graph, any oracle that tabulates it, any settings, and
any node of the search: its committed nodes and its candidates are different nodes of the graph, and the
excluded ones are nodes of the graph as well.  The search below this node comes to its end, in a search of its
own and as a branch, and delivers the committed nodes with each completion, once each, and nothing else.
Without candidates it delivers the committed nodes, or nothing if some node is excluded.  A graph that fits is
tabulated by such an oracle. -/
theorem searchBelow_solves (hg : g.Orderly w) :
    (∀ o : Oracle, o.Tabulates g w → ∀ (settings : Settings) (n : SearchNode Vertex),
      n.Within (g.Stands w) →
      (n.committed ++ n.candidates).Pairwise (fun u v => (u.node == v.node) = false) →
      ∃ cs, Subject.Solves ⟨o, g.roster w⟩ g settings w n cs ∧ g.ListsCompletions w n cs ∧
        (n.candidates = [] → cs = if n.excluded = [] then [n.committed] else [])) ∧
    ∀ settings : Settings, g.FitsIn settings → ∃ o : Oracle, o.Tabulates g w ∧
      (Subject.tabulate g settings).Answers w ⟨o, g.roster w⟩ := by
  refine ⟨fun o ho settings n hn hapart => ?_, fun settings => Subject.tabulate_answers hg⟩
  exact ⟨_, Subject.solves_discoveriesBelow hg ho hn settings,
    Subject.discoveriesBelow_listsCompletions hg ho hn settings hapart,
    Subject.discoveriesBelow_of_candidates_eq_nil settings⟩

theorem Thing.lopsided_places : (Thing.lopsided.access {}).places {}
    = [.integer 1, .integer 2, .integer 3] := by
  have hdistinct : Identifier.distinct ((Thing.lopsided.access {}).listed {})
      = [.integer 1, .integer 2, .integer 3] := rfl
  rw [Access.places, hdistinct]
  exact List.mergeSort_of_pairwise (by decide)

/-- A node of the search that the search from the root does not come to: its committed node is adjacent to
neither of its candidates. -/
def Thing.lopsidedNode : SearchNode Vertex :=
  ⟨[⟨3, 2, .integer 3⟩], [⟨5, 0, .integer 1⟩, ⟨0, 1, .integer 2⟩], []⟩

theorem Thing.lopsidedNode_within :
    lopsidedNode.Within ((Thing.lopsided.access {}).Stands {}) := by
  have hstands : ∀ u : Vertex, [Identifier.integer 1, .integer 2, .integer 3][u.place]? = some u.node →
      u.index = (Thing.lopsided.access {}).position u.node → (Thing.lopsided.access {}).Stands {} u := by
    intro u hplace hindex
    rw [← Thing.lopsided_places] at hplace
    exact Access.stands_of_mem_vertices (Access.mem_vertices_roster.2 ⟨hplace, hindex⟩)
  refine ⟨List.forall_mem_singleton.2 (hstands _ rfl rfl), ?_, fun u hu => absurd hu List.not_mem_nil⟩
  exact List.forall_mem_cons.2 ⟨hstands _ rfl rfl, List.forall_mem_singleton.2 (hstands _ rfl rfl)⟩

/-- A subproblem of an asymmetric graph, searched with a pivot and a stack, whose committed node is adjacent to
no candidate. -/
theorem searchBelow_solves_lopsided :
    (Thing.lopsided.access {}).Orderly {} ∧
      Thing.lopsidedNode.Within ((Thing.lopsided.access {}).Stands {}) ∧
      (Thing.lopsidedNode.committed ++ Thing.lopsidedNode.candidates).Pairwise
        (fun u v => (u.node == v.node) = false) ∧
      (Thing.lopsided.access {}).FitsIn { iterative := .truth true } ∧
      ∃ o : Oracle, o.Tabulates (Thing.lopsided.access {}) {} ∧
        (Subject.tabulate (Thing.lopsided.access {}) { iterative := .truth true }).Answers {}
          ⟨o, (Thing.lopsided.access {}).roster {}⟩ ∧
        ∃ cs, Subject.Solves ⟨o, (Thing.lopsided.access {}).roster {}⟩ (Thing.lopsided.access {})
            { iterative := .truth true } {} Thing.lopsidedNode cs ∧
          (Thing.lopsided.access {}).ListsCompletions {} Thing.lopsidedNode cs := by
  have horderly := Thing.lopsided_orderly {}
  have hwithin := Thing.lopsidedNode_within
  have hapart : (Thing.lopsidedNode.committed ++ Thing.lopsidedNode.candidates).Pairwise
      (fun u v => (u.node == v.node) = false) := by decide
  have hfits : (Thing.lopsided.access {}).FitsIn { iterative := .truth true } :=
    Thing.lopsided_fitsIn rfl
  obtain ⟨hsolves, htabulated⟩ := searchBelow_solves horderly
  obtain ⟨o, ho, htabulate⟩ := htabulated _ hfits
  obtain ⟨cs, hcs, hlists, -⟩ := hsolves o ho { iterative := .truth true } _ hwithin hapart
  exact ⟨horderly, hwithin, hapart, hfits, o, ho, htabulate, cs, hcs, hlists⟩

end MaximalCliques
