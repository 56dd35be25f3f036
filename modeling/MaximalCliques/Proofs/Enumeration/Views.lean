import MaximalCliques.Proofs.Enumeration.CliqueSets
import MaximalCliques.Proofs.Enumeration.Exactness
import MaximalCliques.Proofs.Graph.Conjunctions

/-!
# Enumerating a view

A maximal clique of a view need not be maximal in the graph, and what a maximal clique of the graph leaves
in the view need not be maximal there.  But the largest of these remainders are the maximal cliques of the
view.

* **`enumerate_unstopped`** — the set of cliques that an enumeration hands over when nobody stops it.
* **`Identifier.IsLargest`** — a set of nodes that is part of no other one of a family.
* **`Access.exists_maximal_iff`** — the maximal cliques are the largest members of every family of cliques
  that covers all cliques.
* **`Access.remainder`** — what is left of a set of nodes in a view.
* **`enumerate_restrictAll`** — the cliques of a view are the largest remainders of those of the graph, if
  its tests judge the spellings of a node alike.
-/

namespace MaximalCliques

variable {σ : Type} {g : Access σ} {w : σ}

/-! ### Cliques handed over as a set -/

/-- **The set that an enumeration hands over when nobody stops it** holds the maximal cliques, in named
spellings. -/
theorem enumerate_unstopped {settings : Settings} (hg : g.Orderly w) (hfits : g.FitsIn settings)
    (counters : Counters) :
    ∃ outcome, (enumerate g settings (fun _ => pure false) counters).run w = (outcome, w) ∧
      outcome.fault = none ∧ g.Enumerates w (outcome.cliques.map Clique.nodes) ∧
      (∀ c ∈ outcome.cliques, ∀ x ∈ c.nodes, g.Names w x) ∧
      (g.listed w = [] → outcome.cliques = [[]]) := by
  obtain ⟨o, ho, htabulate⟩ := Subject.tabulate_answers hg hfits
  have hperm : (Clique.collect (Subject.discoveries g w o settings)).Perm
      (Subject.discoveries g w o settings) :=
    Clique.collect_perm (Subject.pairwise_discoveries hg ho settings)
  refine ⟨_, enumerate_of_iterate (iterate_unstopped hg ho htabulate counters), rfl,
    (Subject.discoveries_enumerates hg ho settings).perm (List.Perm.map Clique.nodes hperm),
    fun c hc x hx => ?_, fun hempty => ?_⟩
  · have hstands : ∀ u ∈ c, g.Stands w u := Subject.stands_of_mem_discoveriesBelow hg ho
      (Subject.root_within g w o) c (hperm.subset hc)
    exact Clique.names_of_mem_nodes hstands hx
  · rw [Subject.discoveries_of_listed_eq_nil o settings hempty] at hperm
    show Clique.collect (Subject.discoveries g w o settings) = [[]]
    rw [Subject.discoveries_of_listed_eq_nil o settings hempty]
    exact List.perm_singleton.1 hperm

/-! ### The largest sets of a family -/

/-- **A largest set of a family**: it is one of them, and part of no other one. -/
structure Identifier.IsLargest (family : List (List Identifier)) (K : List Identifier) : Prop where
  member : ∃ C ∈ family, sameSet C K = true
  largest : ∀ C ∈ family, PartOf K C → PartOf C K

namespace Access

open Identifier (PartOf IsLargest sameSet sameSet_iff_partOf)

/-- **The maximal cliques are the largest members of a family** of cliques, if every clique is part of some
member. -/
theorem exists_maximal_iff (hg : g.Orderly w) {family : List (List Identifier)}
    (hcliques : ∀ C ∈ family, ∃ L, g.IsClique w L ∧ sameSet L C = true)
    (hcovers : ∀ L, g.IsClique w L → ∃ C ∈ family, PartOf L C) (K : List Identifier) :
    (∃ L, g.IsMaximalClique w L ∧ sameSet L K = true) ↔ IsLargest family K := by
  constructor
  · intro h
    obtain ⟨L, hL, hLK⟩ := h
    obtain ⟨hLK, hKL⟩ := sameSet_iff_partOf.1 hLK
    -- a member that the clique is part of is itself part of the clique
    have hlargest : ∀ C ∈ family, PartOf K C → PartOf C K := by
      intro C hC hKC
      obtain ⟨M, hM, hMC⟩ := hcliques C hC
      obtain ⟨hMC, hCM⟩ := sameSet_iff_partOf.1 hMC
      have hML : PartOf M L := hL.maximal M hM ((hLK.trans hKC).trans hCM)
      exact (hCM.trans hML).trans hLK
    obtain ⟨C, hC, hLC⟩ := hcovers L hL.toIsClique
    have hKC := hKL.trans hLC
    exact ⟨⟨C, hC, sameSet_iff_partOf.2 ⟨hlargest C hC hKC, hKC⟩⟩, hlargest⟩
  · intro h
    obtain ⟨C, hC, hCK⟩ := h.member
    obtain ⟨hCK, hKC⟩ := sameSet_iff_partOf.1 hCK
    obtain ⟨M, hM, hMC⟩ := hcliques C hC
    obtain ⟨-, hCM⟩ := sameSet_iff_partOf.1 hMC
    obtain ⟨L, hL, hML⟩ := hM.exists_maximal hg
    have hKL : PartOf K L := (hKC.trans hCM).trans hML
    -- the maximal clique is covered by a member, which is part of the largest one
    obtain ⟨D, hD, hLD⟩ := hcovers L hL.toIsClique
    exact ⟨L, hL, sameSet_iff_partOf.2 ⟨hLD.trans (h.largest D hD (hKL.trans hLD)), hKL⟩⟩

/-! ### What is left in a view -/

variable {tests : List (Identifier → Query σ Bool)}

/-- What is left of a set of nodes in the view through tests: the nodes that equal a listed one that
passes. -/
def remainder (g : Access σ) (w : σ) (tests : List (Identifier → Query σ Bool)) (C : List Identifier) :
    List Identifier :=
  C.filter (·.isIn ((g.listed w).filter (passesAll w tests)))

theorem remainder_mono {C D : List Identifier} (h : PartOf C D) :
    PartOf (g.remainder w tests C) (g.remainder w tests D) :=
  h.filter fun _ _ _ _ hyx hpass => (Identifier.isIn_congr hyx).trans hpass

theorem remainder_partOf_listed (C : List Identifier) :
    PartOf (g.remainder w tests C) (g.listed w) := by
  intro x hx
  obtain ⟨y, hy, hyx⟩ := Identifier.isIn_iff.1 (List.mem_filter.1 hx).2
  exact Identifier.isIn_iff.2 ⟨y, (List.mem_filter.1 hy).1, hyx⟩

theorem remainder_eq_self {C : List Identifier} (hlisted : ∀ x ∈ C, x ∈ g.listed w)
    (hpass : ∀ x ∈ C, passesAll w tests x = true) : g.remainder w tests C = C :=
  List.filter_eq_self.2 fun x hx =>
    Identifier.isIn_of_mem (List.mem_filter.2 ⟨hlisted x hx, hpass x hx⟩)

theorem passesAll_of_mem_remainder (halike : ∀ test ∈ tests, g.JudgesAlike w test)
    {C : List Identifier} (hlisted : ∀ x ∈ C, x ∈ g.listed w) {x : Identifier}
    (hx : x ∈ g.remainder w tests C) : x ∈ C ∧ passesAll w tests x = true := by
  obtain ⟨hx, hin⟩ := List.mem_filter.1 hx
  obtain ⟨y, hy, hyx⟩ := Identifier.isIn_iff.1 hin
  obtain ⟨hy, hpass⟩ := List.mem_filter.1 hy
  exact ⟨hx, (passesAll_congr halike (.inl hy) (.inl (hlisted x hx)) hyx).symm.trans hpass⟩

/-- **A clique of a view** is part of what is left of a maximal clique of the graph. -/
theorem Enumerates.exists_remainder (hg : g.Orderly w) (htests : ∀ test ∈ tests, g.TestedBy w test)
    {cs : List (List Identifier)} (hcs : g.Enumerates w cs) {M : List Identifier}
    (hM : (g.restrictAll tests).IsClique w M) : ∃ C ∈ cs, PartOf M (g.remainder w tests C) := by
  obtain ⟨-, -, -, hcliques⟩ := hg.restrictAll htests
  obtain ⟨hMg, hpass⟩ := hcliques M hM
  obtain ⟨L, hL, hML⟩ := hMg.exists_maximal hg
  obtain ⟨C, hC, hCL⟩ := hcs.complete L hL
  obtain ⟨-, hLC⟩ := sameSet_iff_partOf.1 hCL
  have hpart : PartOf (g.remainder w tests M) (g.remainder w tests C) := remainder_mono (hML.trans hLC)
  rw [remainder_eq_self hMg.listed hpass] at hpart
  exact ⟨C, hC, hpart⟩

/-- **The maximal cliques of a view** through tests that judge alike are the largest sets that are left of
the maximal cliques of the graph. -/
theorem Enumerates.restrictAll (hg : g.Orderly w) (htests : ∀ test ∈ tests, g.TestedBy w test)
    (halike : ∀ test ∈ tests, g.JudgesAlike w test) {cs ds : List (List Identifier)}
    (hcs : g.Enumerates w cs) (hds : (g.restrictAll tests).Enumerates w ds) (K : List Identifier) :
    (∃ D ∈ ds, sameSet D K = true) ↔ IsLargest (cs.map (g.remainder w tests)) K := by
  refine (hds.exists_iff K).trans (exists_maximal_iff (hg.restrictAll htests).1 ?_ ?_ K)
  · -- what is left of a clique of the graph is a clique of the view
    intro E hE
    obtain ⟨C, hC, rfl⟩ := List.mem_map.1 hE
    obtain ⟨L, hL, hCL⟩ := hcs.sound C hC
    obtain ⟨hCL, hLC⟩ := sameSet_iff_partOf.1 hCL
    have hmem : ∀ x ∈ g.remainder w tests L, x ∈ L ∧ passesAll w tests x = true := fun x hx =>
      passesAll_of_mem_remainder halike hL.listed hx
    refine ⟨g.remainder w tests L, (hg.isClique_restrictAll htests halike _).2 ⟨⟨fun x hx => ?_,
      fun x hx y hy => ?_⟩, fun x hx => (hmem x hx).2⟩,
        sameSet_iff_partOf.2 ⟨remainder_mono hLC, remainder_mono hCL⟩⟩
    · exact hL.listed x (hmem x hx).1
    · exact hL.pairwise x (hmem x hx).1 y (hmem y hy).1
  · -- a clique of the view is part of a maximal one of the graph, and nothing of it is lost
    intro M hM
    obtain ⟨C, hC, hMC⟩ := hcs.exists_remainder hg htests hM
    exact ⟨_, List.mem_map_of_mem hC, hMC⟩

end Access

/-- **Enumerating a view versus enumerating the graph.**  Take an orderly graph that fits, and a view of it
through tests that are answered, nested to any depth.  With or without a pivot and with either engine on
either side, both enumerations end without a fault, and the view has each of its cliques once, as a part of
what is left of a clique of the graph in the view; if no node passes, it has the empty clique only.  If the
tests judge the spellings of a node alike, the view has exactly the largest of the sets that are left. -/
theorem enumerate_restrictAll {settings settings' : Settings} (hg : g.Orderly w)
    (hfits : g.FitsIn settings) (hfits' : g.FitsIn settings')
    {tests : List (Identifier → Query σ Bool)} (htests : ∀ test ∈ tests, g.TestedBy w test)
    (counters counters' : Counters) :
    ∃ whole part, (enumerate g settings (fun _ => pure false) counters).run w = (whole, w) ∧
      (enumerate (g.restrictAll tests) settings' (fun _ => pure false) counters').run w = (part, w) ∧
      whole.fault = none ∧ part.fault = none ∧
      (part.cliques.Pairwise fun C D => Identifier.sameSet C.nodes D.nodes = false) ∧
      (∀ D ∈ part.cliques, ∃ C ∈ whole.cliques,
        Identifier.PartOf D.nodes (g.remainder w tests C.nodes)) ∧
      ((∀ x ∈ g.listed w, Access.passesAll w tests x = false) → part.cliques = [[]]) ∧
      ((∀ test ∈ tests, g.JudgesAlike w test) →
        ∀ K, (∃ D ∈ part.cliques, Identifier.sameSet D.nodes K = true) ↔
          Identifier.IsLargest (whole.cliques.map fun C => g.remainder w tests C.nodes) K) := by
  obtain ⟨hview, -, hlisted, -⟩ := hg.restrictAll htests
  have hviewfits := hfits'.congr (Access.bound_restrictAll g tests) (Access.machine_restrictAll g tests)
  obtain ⟨whole, hwhole, hfault, henumerates, -, -⟩ := enumerate_unstopped hg hfits counters
  obtain ⟨part, hpart, hfault', henumerates', -, hempty⟩ :=
    enumerate_unstopped hview hviewfits counters'
  refine ⟨whole, part, hwhole, hpart, hfault, hfault', List.pairwise_map.1 henumerates'.once,
    fun D hD => ?_, fun hnone => hempty ?_, fun halike K => ?_⟩
  · obtain ⟨M, hM, hDM⟩ := henumerates'.sound D.nodes (List.mem_map_of_mem hD)
    obtain ⟨C, hC, hMC⟩ := henumerates.exists_remainder hg htests hM.toIsClique
    obtain ⟨N, hN, rfl⟩ := List.mem_map.1 hC
    exact ⟨N, hN, (Identifier.sameSet_iff_partOf.1 hDM).1.trans hMC⟩
  · rw [hlisted, List.filter_eq_nil_iff]
    exact fun x hx => by rw [hnone x hx]; decide
  · have h := henumerates.restrictAll hg htests halike henumerates' K
    rw [List.map_map] at h
    simp only [List.mem_map, exists_exists_and_eq_and] at h
    exact h

/-- An asymmetric graph, and a view of a view of it, searched with a pivot on one side and with a stack on
the other. -/
theorem enumerate_restrictAll_lopsided :
    ((Base.tableGraph 0 .lopsided).access {}).Orderly {} ∧
      ((Base.tableGraph 0 .lopsided).access {}).FitsIn {} ∧
      ((Base.tableGraph 0 .lopsided).access {}).FitsIn { iterative := .truth true } ∧
      (∀ test ∈ Filter.withoutTwoAndFour,
        ((Base.tableGraph 0 .lopsided).access {}).TestedBy {} test) ∧
      (∀ test ∈ Filter.withoutTwoAndFour,
        ((Base.tableGraph 0 .lopsided).access {}).JudgesAlike {} test) ∧
      ∃ whole part, (enumerate ((Base.tableGraph 0 .lopsided).access {}) {} (fun _ => pure false)
          {}).run ({} : World) = (whole, {}) ∧
        (enumerate (((Base.tableGraph 0 .lopsided).access {}).restrictAll Filter.withoutTwoAndFour)
          { iterative := .truth true } (fun _ => pure false) {}).run ({} : World) = (part, {}) ∧
        whole.fault = none ∧ part.fault = none ∧
        ∀ K, (∃ D ∈ part.cliques, Identifier.sameSet D.nodes K = true) ↔
          Identifier.IsLargest (whole.cliques.map fun C =>
            ((Base.tableGraph 0 .lopsided).access {}).remainder {} Filter.withoutTwoAndFour C.nodes) K := by
  have horderly : ((Base.tableGraph 0 .lopsided).access {}).Orderly {} := Base.lopsided_orderly {}
  have hfits : ∀ {settings : Settings}, settings.maxOracleNodes = .integer 16384 →
      ((Base.tableGraph 0 .lopsided).access {}).FitsIn settings := fun h =>
    Access.fitsIn_of_le h (by decide) (by decide) (by decide) (by decide)
  have htests := Filter.withoutTwoAndFour_tested ((Base.tableGraph 0 .lopsided).access {}) {}
  have halike : ∀ test ∈ Filter.withoutTwoAndFour,
      ((Base.tableGraph 0 .lopsided).access {}).JudgesAlike {} test := fun test h => (htests test h).2
  have hplain : ((Base.tableGraph 0 .lopsided).access {}).FitsIn {} := hfits rfl
  have hstack : ((Base.tableGraph 0 .lopsided).access {}).FitsIn { iterative := .truth true } := hfits rfl
  obtain ⟨whole, part, hwhole, hpart, hfault, hfault', -, -, -, hlargest⟩ :=
    enumerate_restrictAll horderly hplain hstack (fun test h => (htests test h).1) {} {}
  exact ⟨horderly, hplain, hstack, fun test h => (htests test h).1, halike, whole, part, hwhole,
    hpart, hfault, hfault', hlargest halike⟩

/-- The two nodes of the network with the blurred link are a maximal clique. -/
theorem Access.blurred_isMaximalClique : (Access.blurred false).IsMaximalClique (.blurred false)
    [.integer 1, .integer 9007199254740992] := by
  obtain ⟨-, hlisted, hfirst, hsecond⟩ := blurred_shows false
  have hmutual : (Access.blurred false).Mutual (.blurred false) (.integer 1)
      (.integer 9007199254740992) :=
    ⟨by rw [hlisted]; exact List.mem_cons_self,
      by rw [hlisted]; exact List.mem_cons_of_mem _ List.mem_cons_self,
      by decide, by rw [hfirst]; decide +kernel, by rw [hsecond]; decide⟩
  refine ⟨⟨fun x hx => hlisted ▸ hx, fun x hx y hy hxy => ?_⟩, fun L hL _ x hx => ?_⟩
  · rcases List.mem_pair.1 hx with rfl | rfl <;> rcases List.mem_pair.1 hy with rfl | rfl
    · exact absurd hxy (by decide)
    · exact hmutual
    · exact hmutual.symm
    · exact absurd hxy (by decide)
  · exact Identifier.isIn_of_mem (hlisted ▸ hL.listed x hx)

/-- What is left of the cliques in the view is part of the two nodes, and both are left of their clique. -/
theorem Access.blurred_isLargest {Cs : List (List Identifier)}
    (hCs : (Access.blurred false).Enumerates (.blurred false) Cs) :
    Identifier.IsLargest (Cs.map ((Access.blurred false).remainder (.blurred false) [Filter.blurring.test]))
      [.integer 1, .integer 9007199254740992] := by
  obtain ⟨horderly, hlisted, -, -⟩ := blurred_shows false
  have htested := blurred_testedBy false
  obtain ⟨-, -, hnarrowed, -⟩ := horderly.restrictAll (List.forall_mem_singleton.2 htested)
  have hpart : ∀ C, Identifier.PartOf ((Access.blurred false).remainder (.blurred false)
      [Filter.blurring.test] C) [.integer 1, .integer 9007199254740992] :=
    fun C => hlisted ▸ remainder_partOf_listed C
  have hall : (Access.blurred false).remainder (.blurred false) [Filter.blurring.test]
      [.integer 1, .integer 9007199254740992] = [.integer 1, .integer 9007199254740992] := by
    rw [remainder, ← hnarrowed, (blurred_narrows false).1]
    rfl
  obtain ⟨C, hC, hsame⟩ := hCs.complete _ blurred_isMaximalClique
  have hkept : Identifier.PartOf ((Access.blurred false).remainder (.blurred false)
      [Filter.blurring.test] [.integer 1, .integer 9007199254740992])
        ((Access.blurred false).remainder (.blurred false) [Filter.blurring.test] C) :=
    remainder_mono (Identifier.sameSet_iff_partOf.1 hsame).2
  rw [hall] at hkept
  refine ⟨⟨_, List.mem_map_of_mem hC, Identifier.sameSet_iff_partOf.2 ⟨hpart _, hkept⟩⟩, ?_⟩
  intro E hE _
  obtain ⟨C', -, rfl⟩ := List.mem_map.1 hE
  exact hpart _

/-- In the view the first node reports nothing, so that the two nodes are no clique. -/
theorem Access.blurred_not_isClique {K : List Identifier}
    (hK : ((Access.blurred false).restrictAll [Filter.blurring.test]).IsClique (.blurred false) K)
    (hsame : Identifier.sameSet K [.integer 1, .integer 9007199254740992] = true) : False := by
  obtain ⟨hviewed, hlost⟩ := blurred_narrows false
  have hholds : ∀ x ∈ [Identifier.integer 1, .integer 9007199254740992], x ∈ K := by
    intro x hx
    obtain ⟨y, hy, hyx⟩ := Identifier.isIn_iff.1 ((Identifier.sameSet_iff_partOf.1 hsame).2 x hx)
    have hylisted := hviewed ▸ hK.listed y hy
    rcases List.mem_pair.1 hx with rfl | rfl <;> rcases List.mem_pair.1 hylisted with rfl | rfl
    · exact hy
    · exact absurd hyx (by decide)
    · exact absurd hyx (by decide)
    · exact hy
  have hmutual := hK.pairwise (.integer 1) (hholds _ List.mem_cons_self) (.integer 9007199254740992)
    (hholds _ (List.mem_cons_of_mem _ List.mem_cons_self)) (by decide)
  have hout := hmutual.out
  rw [hlost] at hout
  cases hout

/-- **A filter that tells spellings apart**: the two nodes of a network are its clique, and both pass; but
the link between them spells one of them in a way that does not, and the view has no clique of two. -/
theorem enumerate_restrictAll_blurred :
    (Access.blurred false).Orderly (.blurred false) ∧ (Access.blurred false).FitsIn {} ∧
      (Access.blurred false).TestedBy (.blurred false) Filter.blurring.test ∧
      ∃ whole part,
        (enumerate (Access.blurred false) {} (fun _ => pure false) {}).run (.blurred false)
          = (whole, .blurred false) ∧
        (enumerate ((Access.blurred false).restrictAll [Filter.blurring.test]) {} (fun _ => pure false)
          {}).run (.blurred false) = (part, .blurred false) ∧
        Identifier.IsLargest (whole.cliques.map fun C =>
            (Access.blurred false).remainder (.blurred false) [Filter.blurring.test] C.nodes)
          [.integer 1, .integer 9007199254740992] ∧
        ¬∃ D ∈ part.cliques,
          Identifier.sameSet D.nodes [.integer 1, .integer 9007199254740992] = true := by
  have horderly := (Access.blurred_shows false).1
  have htested := Access.blurred_testedBy false
  have hview := (horderly.restrictAll (List.forall_mem_singleton.2 htested)).1
  have hfits : (Access.blurred false).FitsIn {} :=
    Access.fitsIn_of_le rfl (by decide) (by decide) (by decide) (by decide)
  obtain ⟨whole, hwhole, -, hcs, -, -⟩ := enumerate_unstopped horderly hfits {}
  obtain ⟨part, hpart, -, hds, -, -⟩ := enumerate_unstopped hview (hfits.congr rfl rfl) {}
  have hlargest := Access.blurred_isLargest hcs
  rw [List.map_map] at hlargest
  refine ⟨horderly, hfits, htested, whole, part, hwhole, hpart, hlargest, ?_⟩
  rintro ⟨D, hD, hsame⟩
  obtain ⟨K, hK, hsameK⟩ := (hds.exists_iff _).1 ⟨D.nodes, List.mem_map_of_mem hD, hsame⟩
  exact Access.blurred_not_isClique hK.toIsClique hsameK

end MaximalCliques
