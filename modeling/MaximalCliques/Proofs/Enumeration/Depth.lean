import MaximalCliques.Proofs.Enumeration.Termination
import Mathlib.Data.Finset.Max
import Mathlib.Data.Finset.Powerset
import Mathlib.Data.List.Pairwise

/-!
# How deep a search goes

The committed vertices of a search on an orderly graph are a clique, and where something extends a node they are
part of a larger one.  So no more calls are nested than a largest clique has nodes, and one; and the stack never
holds more frames than it has nodes.

* **`SearchNode.IsTriple.isMaximal_of_length`** — nothing extends a node with as many committed vertices as a
  largest set of linked ones has.
* **`Access.IsLargestClique`** — a clique with as many nodes as any; **`Access.exists_isLargestClique`** says
  that there is one, and that no set of linked positions is larger.
* **`Subject.staysWithin_largest`** — the search from the root stays within limits that a largest clique sets.
* **`search_bounded`** — every search comes to an end, and how deep it goes.
-/

namespace MaximalCliques

variable {σ : Type}

/-! ### Largest sets -/

section Positions

variable {κ : Type} [DecidableEq κ] {linked : κ → κ → Bool} {V : List κ}

theorem exists_largest_extends (linked : κ → κ → Bool) (V : List κ) :
    ∃ S, Extends linked V S ∧ ∀ T, Extends linked V T → T.card ≤ S.card := by
  classical
  have hmem : ∀ T, T ∈ V.toFinset.powerset.filter (Extends linked V) ↔ Extends linked V T := by
    intro T
    rw [Finset.mem_filter, Finset.mem_powerset]
    exact and_iff_right_of_imp fun h u hu => List.mem_toFinset.2 (h.subset u hu)
  obtain ⟨S, hS, hlargest⟩ := Finset.exists_max_image (V.toFinset.powerset.filter (Extends linked V))
    Finset.card ⟨∅, (hmem ∅).2 (.empty linked V)⟩
  exact ⟨S, (hmem S).1 hS, fun T hT => hlargest T ((hmem T).2 hT)⟩

variable {n : SearchNode κ}

/-- The committed vertices of a working triple are linked, and so they are together with a vertex that extends
the node. -/
theorem SearchNode.IsTriple.extends_insert (hl : IsLinkage linked) (h : n.IsTriple linked V) {u : κ}
    (hu : u ∈ n.candidates ++ n.excluded) : Extends linked V (insert u n.committed.toFinset) where
  subset x hx := by
    rcases Finset.mem_insert.1 hx with hxu | hxR
    · rw [hxu]
      exact ((h.common u).1 hu).1
    · exact h.committed x (List.mem_toFinset.1 hxR)
  pairwise x hx y hy hxy := by
    have hlinked : ∀ r ∈ n.committed.toFinset, linked r u = true := fun r hr =>
      ((h.common u).1 hu).2 r (List.mem_toFinset.1 hr)
    rcases Finset.mem_insert.1 hx with hxu | hxR <;> rcases Finset.mem_insert.1 hy with hyu | hyR
    · exact absurd (hxu.trans hyu.symm) hxy
    · rw [hxu, hl.symm]
      exact hlinked y hyR
    · rw [hyu]
      exact hlinked x hxR
    · have hsymm : Std.Symm fun r s => linked r s = true := ⟨fun r s hrs => (hl.symm s r).trans hrs⟩
      exact h.pairwise.forall (List.mem_toFinset.1 hxR) (List.mem_toFinset.1 hyR) hxy

/-- **Nothing extends a node with as many committed vertices as a largest set of linked ones has.** -/
theorem SearchNode.IsTriple.isMaximal_of_length (hl : IsLinkage linked) (h : n.IsTriple linked V) {m : Nat}
    (hm : ∀ S, Extends linked V S → S.card ≤ m) (hn : m ≤ n.committed.length) : n.isMaximal = true := by
  have hnone : ∀ u, u ∉ n.candidates ++ n.excluded := by
    intro u hu
    obtain ⟨hcommitted, -, hdisjoint⟩ := List.nodup_append.1 h.nodup
    have hnew : u ∉ n.committed.toFinset := fun hin => hdisjoint u (List.mem_toFinset.1 hin) u hu rfl
    have hcard := hm _ (h.extends_insert hl hu)
    rw [Finset.card_insert_of_notMem hnew, List.toFinset_card_of_nodup hcommitted] at hcard
    omega
  obtain ⟨hcandidates, hexcluded⟩ := List.append_eq_nil_iff.1 (List.eq_nil_iff_forall_not_mem.2 hnone)
  rw [isMaximal, hcandidates, hexcluded]
  rfl

end Positions

/-! ### Largest cliques -/

namespace Access

variable {g : Access σ} {w : σ} {o : Oracle}

/-- **A largest clique**: one of different nodes, such that no other one has more of them. -/
structure IsLargestClique (g : Access σ) (w : σ) (K : List Identifier) : Prop extends g.IsClique w K where
  different : K.Pairwise fun x y => (x == y) = false
  largest : ∀ L, g.IsClique w L → L.Pairwise (fun x y => (x == y) = false) → L.length ≤ K.length

variable (hg : g.Orderly w)
include hg

theorem card_positions {K : List Identifier} (hK : ∀ x ∈ K, g.Names w x)
    (hdifferent : K.Pairwise fun x y => (x == y) = false) :
    (K.map g.position).toFinset.card = K.length := by
  rw [List.toFinset_card_of_nodup ((hg.nodup_positions_iff hK).2 hdifferent), List.length_map]

/-- **There is a largest clique**, and no set of linked positions has more of them than it has nodes. -/
theorem exists_isLargestClique (ho : o.Tabulates g w) : ∃ K, g.IsLargestClique w K ∧
    ∀ S, Extends o.linked (g.indices w) S → S.card ≤ K.length := by
  obtain ⟨S, hS, hlargest⟩ := exists_largest_extends o.linked (g.indices w)
  have hK := isClique_named hg ho hS
  have hdifferent : (g.named w S).Pairwise fun x y => (x == y) = false := pairwise_places.filter _
  have hcard : S.card = (g.named w S).length := by
    rw [← card_positions hg (fun x hx => .inl (hK.listed x hx)) hdifferent, toFinset_named hS.subset]
  rw [hcard] at hlargest
  refine ⟨g.named w S, ⟨hK, hdifferent, fun L hL hLdifferent => ?_⟩, hlargest⟩
  rw [← card_positions hg (fun x hx => .inl (hL.listed x hx)) hLdifferent]
  exact hlargest _ (extends_positions hg ho hL)

end Access

/-! ### The search from the root -/

namespace Subject

section Polled

variable {g : Access σ} {stop : Nat → Query σ Bool} {states : Nat → σ} {answers : Nat → Bool} {o : Oracle}
variable (hpolled : ∀ n, g.PolledBy stop states answers n) (hg : g.Orderly (states 0))
variable (ho : o.Tabulates g (states 0))
include hpolled hg ho

/-- **A conductor answers with the neighbourhoods of the graph**, however often it has been polled. -/
theorem heeds_of_orderly : (conductor ⟨o, g.roster (states 0)⟩ g stop).Heeds (g.Stands (states 0))
    (fun v h => h = g.hoodAt (states 0) o v) fun t => t.2 = states t.1.polls ∧ t.1.Sound g (states 0) o where
  hood {v t h t'} hv ht hrun := by
    obtain ⟨p, w⟩ := t
    obtain ⟨hw, hp⟩ := ht
    obtain rfl : w = states p.polls := hw
    obtain ⟨hoods, hasked, hsound⟩ := hoodOf_run (hpolled p.polls) hg ho hv hp (Nat.le_refl _)
    obtain ⟨hanswer, rfl⟩ := Prod.mk.inj (hasked.symm.trans hrun)
    exact ⟨(Except.ok.inj hanswer).symm, rfl, hsound⟩
  visit ht hrun := (Prod.mk.inj hrun).2 ▸ ht
  mayBranch {n v t b t'} ht hrun := by
    obtain ⟨p, w⟩ := t
    obtain ⟨hw, hp⟩ := ht
    obtain rfl : w = states p.polls := hw
    obtain ⟨p', hmay, hfollows, hhoods⟩ := mayBranch_run ⟨o, g.roster (states 0)⟩ g n v
      ((hpolled (p.polls + 1)).polled p.polls (Nat.lt_succ_self _))
    obtain ⟨-, rfl⟩ := Prod.mk.inj (hmay.symm.trans hrun)
    exact ⟨congrArg states hfollows.polls.symm, hp.of_hoods_eq hhoods⟩
  emit ht hrun := (Prod.mk.inj hrun).2 ▸ ht

/-- **The search from the root stays within limits that a largest clique sets.** -/
theorem staysWithin_largest (settings : Settings) (counters : Counters) {m : Nat}
    (hm : ∀ S, Extends o.linked (g.indices (states 0)) S → S.card ≤ m) :
    StaysWithin ⟨o, g.roster (states 0)⟩ g settings stop counters (states 0)
      (root ⟨o, g.roster (states 0)⟩) (m + 1) m
      (Frame.turnsFor (g.roster (states 0)).vertices.length) := by
  have hfull : ∀ n, g.Tracks (states 0) o n → m ≤ n.committed.length → n.isMaximal = true := by
    intro n hn hlength
    rw [← SearchNode.isMaximal_map Vertex.index]
    refine hn.2.isMaximal_of_length o.isLinkage_linked hm ?_
    rwa [SearchNode.map, List.length_map]
  have hbudget := (Access.isInvariant_tracks hg ho).isBudget (fun n hn => hn.1) hfull
  have hroot : g.Tracks (states 0) o (root ⟨o, g.roster (states 0)⟩) ∧ m ≤ ([] : List Vertex).length + m :=
    ⟨root_tracks hg, by rw [List.length_nil, Nat.zero_add]⟩
  refine staysWithin_of_budgets (heeds_of_orderly hpolled hg ho)
    ⟨rfl, Progress.sound_of_empty g (states 0) o rfl⟩ ?_ hbudget hroot hbudget
    (fun n hn => hfull n hn.1 hn.2) hroot
  rintro v h hv rfl
  refine Hood.has_eq_false_iff.2 fun u hu => ?_
  exact o.isLinkage_linked.ne (Access.linked_of_find?_hoodAt hg hv hv hu).1 rfl

end Polled

end Subject

/-- **Every search comes to an end, and how deep it goes.**

* Take any graph that has been tabulated, and any node with vertices that are looked up at their places, as all
  those of the roster are.  The search below this node nests no more calls than it has candidates, and one; its
  stack holds no more frames than that, and its loop takes no more turns than the candidates set.  So it ends:
  with its result, unless it is stopped or the graph refuses an answer.
* Take an orderly graph that fits, and any stop check that leaves it as it is.  There is a largest clique.  The
  search from the root nests no more calls than this clique has nodes, and one, and its stack holds no more
  frames than it has nodes.  Without a stop check it ends with its result. -/
theorem search_bounded (g : Access σ) (settings : Settings) :
    (∀ (s : Subject) (v w : σ), (Subject.tabulate g settings).run v = (.ok s, w) →
      (∀ u ∈ s.roster.vertices, s.roster.Lists u) ∧
      ∀ (counters : Counters) (u : σ) (n : SearchNode Vertex), n.Within s.roster.Lists →
        (∀ stop, s.StaysWithin g settings stop counters u n (n.candidates.length + 1)
          (n.candidates.length + 1) (Frame.turnsFor n.candidates.length)) ∧
        (((Subject.searchBelow settings n).finish (s.conductor g fun _ => pure false)).run
          ({ counters }, u)).1 ≠ .ok none) ∧
    ∀ (stop : Nat → Query σ Bool) (states : Nat → σ) (answers : Nat → Bool), g.Orderly (states 0) →
      (∀ n, g.PolledBy stop states answers n) → g.FitsIn settings →
      ∃ s K, (Subject.tabulate g settings).Answers (states 0) s ∧ g.IsLargestClique (states 0) K ∧
        ∀ counters : Counters,
          s.StaysWithin g settings stop counters (states 0) s.root (K.length + 1) K.length
            (Frame.turnsFor s.roster.vertices.length) ∧
          ∃ p, ((s.search settings).finish (s.conductor g fun _ => pure false)).run
            ({ counters }, states 0) = (.ok (some ()), (p, states 0)) := by
  refine ⟨fun s v w htabulate => ?_, fun stop states answers hg hpolled hfits => ?_⟩
  · obtain ⟨-, nodes, hroster, hdistinct⟩ := Subject.exists_of_tabulate htabulate
    refine ⟨?_, fun counters u n hn => ⟨fun stop => ?_, Subject.finish_unstopped _⟩⟩
    · rw [hroster]
      exact fun u hu => Roster.lists_ofNodes hdistinct hu
    · exact Subject.staysWithin_candidates (hroster ▸ Roster.tellsApart_ofNodes nodes) hn
  · obtain ⟨o, ho, htabulate⟩ := Subject.tabulate_answers hg hfits
    obtain ⟨K, hK, hlargest⟩ := Access.exists_isLargestClique hg ho
    refine ⟨_, K, htabulate, hK, fun counters => ⟨?_, ?_⟩⟩
    · exact Subject.staysWithin_largest hpolled hg ho settings counters hlargest
    · obtain ⟨p, hfinish, -⟩ := Subject.finish_conducted hg ho (fun _ => false)
        (Subject.search_within hg ho settings) (p := { counters })
        (Progress.sound_of_empty g (states 0) o rfl)
      rw [Run.trail_never] at hfinish
      exact ⟨p, hfinish⟩

/-- The search of an asymmetric graph with a pivot and a stack, which is stopped at its third poll by a stop
check that changes the world at each poll: it stays within the limits that the candidates set, and within those
that a largest clique sets. -/
theorem search_bounded_lopsided :
    (Thing.lopsided.access {}).Orderly (World.polled 0) ∧
      (∀ n, (Thing.lopsided.access {}).PolledBy World.stopThird World.polled (fun k => k == 2) n) ∧
      (Thing.lopsided.access {}).FitsIn { iterative := .truth true } ∧
      ∃ s K, (Subject.tabulate (Thing.lopsided.access {}) { iterative := .truth true }).Answers
          (World.polled 0) s ∧
        (Thing.lopsided.access {}).IsLargestClique (World.polled 0) K ∧ s.root.Within s.roster.Lists ∧
        s.StaysWithin (Thing.lopsided.access {}) { iterative := .truth true } World.stopThird {}
          (World.polled 0) s.root (s.root.candidates.length + 1) (s.root.candidates.length + 1)
          (Frame.turnsFor s.root.candidates.length) ∧
        s.StaysWithin (Thing.lopsided.access {}) { iterative := .truth true } World.stopThird {}
          (World.polled 0) s.root (K.length + 1) K.length (Frame.turnsFor s.roster.vertices.length) := by
  have horderly := Thing.lopsided_orderly (World.polled 0)
  have hfits : (Thing.lopsided.access {}).FitsIn { iterative := .truth true } :=
    Thing.lopsided_fitsIn rfl
  obtain ⟨hany, hlargest⟩ := search_bounded (Thing.lopsided.access {}) { iterative := .truth true }
  obtain ⟨s, K, htabulate, hK, hbounded⟩ := hlargest _ _ _ horderly Thing.lopsided_polledBy hfits
  obtain ⟨hlists, hbelow⟩ := hany s _ _ htabulate
  have hroot : s.root.Within s.roster.Lists :=
    ⟨fun _ hu => absurd hu List.not_mem_nil, hlists, fun _ hu => absurd hu List.not_mem_nil⟩
  exact ⟨horderly, Thing.lopsided_polledBy, hfits, s, K, htabulate, hK, hroot,
    (hbelow {} _ s.root hroot).1 _, (hbounded {}).1⟩

end MaximalCliques
