import MaximalCliques.Proofs.Enumeration.Refinement
import Mathlib.Data.List.Flatten

/-!
# Stopping branches on a pool

* **`Branch.IsPartOf`** — what a branch has found is the beginning of what it would find.
* **`Subject.runBranch_unstopped`** — what a branch finds when nobody stops it.
* **`collect_found_perm`** — of parts of the discoveries none is lost and none is handed over twice.
* **`enumerateOnPool_cancelled`** — what a stopped enumeration hands over, whatever the schedule.
* **`handed_of_settled`** — what any enumeration on a pool hands over.
-/

namespace MaximalCliques

variable {σ : Type} {g : Access σ} {w : σ} {o : Oracle} {settings : Settings}

/-- What a branch of a batch finds when it is searched on its own and nobody stops it. -/
def Batch.wholeBelow (batch : Batch) (g : Access σ) (settings : Settings) (w : σ)
    (root : SearchNode Vertex) : List Clique :=
  ((batch.subject.runBranch g settings (fun _ => pure false) root 0).run w).1.1.found

/-- **A branch has found the beginning of what it would find**: all of it if the branch has been searched
to its end, and nothing if it never started. -/
structure Branch.IsPartOf (b : Branch) (whole : List Clique) : Prop where
  begins : b.found <+: whole
  finished : b.ending = .finished → b.found = whole
  dropped : b.ending = .dropped → b.found = []
  answered : ∀ fault, b.ending ≠ .failed fault

/-- What a branch has found when it ends is a part of what is discovered below its root. -/
theorem Branch.Sound.isPartOf {b : Branch} {es : List (Event Vertex)}
    (h : b.Sound g w o settings es) :
    b.IsPartOf (Subject.discoveriesBelow g w o settings b.root) where
  begins := by
    obtain ⟨fs, hbegins, hdelivered, -⟩ := h.ending.exists_prefix
    rw [h.found, hdelivered]
    exact hbegins.filterMap Event.clique?
  finished hending := by
    have hreached := h.ending
    rw [hending] at hreached
    cases hreached
    exact h.found
  dropped hending := by
    have hreached := h.ending
    rw [hending] at hreached
    cases hreached
    exact h.found
  answered := h.ne_failed

section Orderly

variable (hg : g.Orderly w) (ho : o.Tabulates g w)
include hg ho

/-- **A branch that nobody stops** finds what is discovered below its root. -/
theorem Subject.runBranch_unstopped (settings : Settings) {n : SearchNode Vertex}
    (hn : n.Within (g.Stands w)) :
    ∃ polls, (runBranch ⟨o, g.roster w⟩ g settings (fun _ => pure false) n 0).run w
      = ((.ofRoot g w o settings n, polls), w) := by
  have hwithin := (searchBelow_mirrors hg ho settings hn).within
  obtain ⟨p, hfinish, hfollows, -⟩ := finish_conducted hg ho (fun _ => false) hwithin
    (p := {}) (Progress.sound_of_empty g w o rfl)
  rw [Run.trail_never] at hfinish hfollows
  have hcounters : p.counters = Event.tally (historyBelow g w o settings n) := by
    rw [hfollows.counters, Counters.add_comm]
    exact Counters.add_zero _
  have hfound : p.found.reverse = discoveriesBelow g w o settings n := by
    rw [hfollows.found, List.reverse_append, List.reverse_reverse]
    rfl
  refine ⟨p.polls, ?_⟩
  unfold runBranch
  refine (run_bind_of_eq (Searching.run_askFrom hfinish)).trans ?_
  rw [Branch.ofRoot, ← hcounters, ← hfound]
  rfl

variable {branches : List Branch}
variable (hne : g.listed w ≠ [])
variable (hroots : branches.map (·.root) = Subject.topRoots g w o settings)
variable (hparts : ∀ b ∈ branches,
  b.IsPartOf (Subject.discoveriesBelow g w o settings b.root))
include hne hroots hparts

omit hg ho in
/-- The branches together have found a part of the discoveries, in their order. -/
theorem found_sublist :
    (branches.flatMap (·.found)).Sublist (Subject.discoveries g w o settings) := by
  rw [Subject.discoveries_eq_flatMap hne, ← hroots, List.flatMap_map]
  exact List.Sublist.flatMap_right branches fun b hb => (hparts b hb).begins.sublist

/-- **Nothing that the branches have found is lost**, and nothing is handed over twice. -/
theorem collect_found_perm :
    (Clique.collect (branches.flatMap (·.found))).Perm (branches.flatMap (·.found)) :=
  Clique.collect_perm
    ((Subject.pairwise_discoveries hg ho settings).sublist (found_sublist hne hroots hparts))

/-- **What a branch has found is maximal in the whole graph**, whatever has become of the others. -/
theorem maximal_of_found {c : Clique} (hc : c ∈ branches.flatMap (·.found)) :
    ∃ K, g.IsMaximalClique w K ∧ Identifier.sameSet c.nodes K = true := by
  have hdiscovered := (found_sublist hne hroots hparts).subset hc
  exact (Subject.discoveries_enumerates hg ho settings).sound _ (List.mem_map_of_mem hdiscovered)

end Orderly

/-- **A stopped enumeration loses nothing and invents nothing.**  Take an orderly graph that fits and has
nodes, and workers that can work.  Whatever the answers to the polls and whatever the schedule, the
enumeration on a pool comes to an end.  It hands over its cliques as those of a cancelled enumeration
exactly if some poll was answered by a stop.  These are the cliques that its branches have found, each of
them the beginning of what it would find alone, and they are maximal in the whole graph. -/
theorem enumerateOnPool_cancelled (hg : g.Orderly w) (hfits : g.FitsIn settings)
    (hwork : settings.AllowsWork) (hne : g.listed w ≠ []) (answers : Nat → Bool)
    (counters : Counters) :
    ∃ batch,
      (prepareBranches g settings (fun k => pure (answers k)) counters).run w = (.inr batch, w) ∧
      (Standing.Ends fun moves =>
        enumerateOnPool g settings (fun k => pure (answers k)) counters moves w) ∧
      ∀ moves branches outcome world,
        enumerateOnPool g settings (fun k => pure (answers k)) counters moves w
          = .settled branches outcome world →
        outcome.fault = (if ∃ k < outcome.polls, answers k = true
          then some (.cancelled (outcome.cliques.map Clique.nodes)) else none) ∧
        outcome.cliques.Perm (branches.flatMap (·.found)) ∧
        branches.map (·.root) = batch.roots ∧
        (∀ b ∈ branches, b.IsPartOf (batch.wholeBelow g settings w b.root)) ∧
        ∀ c ∈ outcome.cliques, ∃ K, g.IsMaximalClique w K ∧
          Identifier.sameSet c.nodes K = true := by
  obtain ⟨o, ho, htabulate⟩ := Subject.tabulate_answers hg hfits
  refine ⟨Subject.batch g w o settings counters,
    prepareBranches_answers hg ho htabulate hne hwork.accepted answers counters,
    enumerateOnPool_ends hg ho htabulate answers counters hwork, ?_⟩
  intro moves branches outcome world h
  obtain ⟨-, hroots, hsound, hstopped, -, houtcome⟩ :=
    enumerateOnPool_settled hg ho htabulate answers counters hne hwork h
  have hparts : ∀ b ∈ branches,
      b.IsPartOf (Subject.discoveriesBelow g w o settings b.root) := by
    intro b hb
    obtain ⟨es, hes⟩ := hsound b hb
    exact hes.isPartOf
  have hfaults : ∀ b ∈ branches, ∀ fault, b.ending ≠ .failed fault :=
    fun b hb => (hparts b hb).answered
  have hcliques : outcome.cliques = Clique.collect (branches.flatMap (·.found)) := by
    rw [houtcome]
    exact Outcome.cliques_ofBranches _ _ _ hfaults
  have hfault : outcome.fault = if Branch.anyStopped branches = true
      then some (.cancelled (outcome.cliques.map Clique.nodes)) else none := by
    rw [houtcome]
    exact Outcome.fault_ofBranches _ _ _ hfaults
  have hperm : outcome.cliques.Perm (branches.flatMap (·.found)) := by
    rw [hcliques]
    exact collect_found_perm hg ho hne hroots hparts
  refine ⟨?_, hperm, hroots, fun b hb => ?_, fun c hc => ?_⟩
  · rw [hfault]
    exact if_congr (Branch.anyStopped_iff.trans hstopped) rfl rfl
  · obtain ⟨es, hes⟩ := hsound b hb
    obtain ⟨polls, hrun⟩ := Subject.runBranch_unstopped hg ho settings hes.root
    show b.IsPartOf ((Subject.runBranch ⟨o, g.roster w⟩ g settings _ b.root 0).run w).1.1.found
    rw [hrun]
    exact hparts b hb
  · exact maximal_of_found hg ho hne hroots hparts (hperm.subset hc)

/-- Two workers on an asymmetric graph whose second poll is answered by a stop. -/
theorem enumerateOnPool_cancelled_lopsided :
    (Thing.lopsided.access {}).Orderly {} ∧
      (Thing.lopsided.access {}).FitsIn { parallelWorkers := .integer 2 } ∧
      Settings.AllowsWork { parallelWorkers := .integer 2 } ∧
      (Thing.lopsided.access {}).listed {} ≠ [] ∧
      ∃ batch,
        (prepareBranches (Thing.lopsided.access {}) { parallelWorkers := .integer 2 }
          (fun k => pure (k == 1)) {}).run ({} : World) = (.inr batch, {}) ∧
        (Standing.Ends fun moves => enumerateOnPool (Thing.lopsided.access {})
          { parallelWorkers := .integer 2 } (fun k => pure (k == 1)) {} moves {}) ∧
        ∀ moves branches outcome world,
          enumerateOnPool (Thing.lopsided.access {}) { parallelWorkers := .integer 2 }
            (fun k => pure (k == 1)) {} moves {} = .settled branches outcome world →
          outcome.fault = (if ∃ k < outcome.polls, (k == 1) = true
            then some (.cancelled (outcome.cliques.map Clique.nodes)) else none) ∧
          outcome.cliques.Perm (branches.flatMap (·.found)) ∧
          branches.map (·.root) = batch.roots ∧
          (∀ b ∈ branches, b.IsPartOf (batch.wholeBelow (Thing.lopsided.access {})
            { parallelWorkers := .integer 2 } {} b.root)) ∧
          ∀ c ∈ outcome.cliques, ∃ K, (Thing.lopsided.access {}).IsMaximalClique {} K ∧
            Identifier.sameSet c.nodes K = true :=
  have hfits : (Thing.lopsided.access {}).FitsIn { parallelWorkers := .integer 2 } :=
    Thing.lopsided_fitsIn rfl
  have hwork : Settings.AllowsWork { parallelWorkers := .integer 2 } :=
    Settings.allowsWork_of_pos rfl (by decide)
  have hne : (Thing.lopsided.access {}).listed {} ≠ [] := by decide
  ⟨Thing.lopsided_orderly {}, hfits, hwork, hne,
    enumerateOnPool_cancelled (Thing.lopsided_orderly {}) hfits hwork hne (fun k => k == 1) {}⟩

/-! ### Whatever the answers -/

/-- **What an enumeration that is over hands over**: all that its branches have found, without repetition,
and as the cliques of a cancelled enumeration exactly if a branch has been stopped. -/
theorem handed_of_settled (hg : g.Orderly w) (ho : o.Tabulates g w)
    (htabulate : (Subject.tabulate g settings).Answers w ⟨o, g.roster w⟩) {answers : Nat → Bool}
    (hne : g.listed w ≠ []) (hwork : settings.AllowsWork) {counters : Counters} {moves : List Move}
    {branches : List Branch} {outcome : Outcome} {world : σ}
    (h : enumerateOnPool g settings (fun k => pure (answers k)) counters moves w
      = .settled branches outcome world) :
    (branches.flatMap (·.found)).Sublist (Subject.discoveries g w o settings) ∧
      outcome.cliques.Perm (branches.flatMap (·.found)) ∧
      outcome.fault = if Branch.anyStopped branches = true
        then some (.cancelled (outcome.cliques.map Clique.nodes)) else none := by
  obtain ⟨-, hroots, hsound, -, -, houtcome⟩ :=
    enumerateOnPool_settled hg ho htabulate answers counters hne hwork h
  have hparts : ∀ b ∈ branches, b.IsPartOf (Subject.discoveriesBelow g w o settings b.root) :=
    fun b hb => (hsound b hb).elim fun _ hes => hes.isPartOf
  have hfaults : ∀ b ∈ branches, ∀ fault, b.ending ≠ .failed fault :=
    fun b hb => (hparts b hb).answered
  refine ⟨found_sublist hne hroots hparts, ?_, ?_⟩
  · rw [houtcome, Outcome.cliques_ofBranches _ _ _ hfaults]
    exact collect_found_perm hg ho hne hroots hparts
  · rw [houtcome]
    exact Outcome.fault_ofBranches _ _ _ hfaults

end MaximalCliques
