import MaximalCliques.Proofs.Enumeration.Cancellation
import MaximalCliques.Proofs.Enumeration.Interruption

/-!
# Stopping at every poll

A search from the root polls before it delivers anything.  A branch on a pool need not: the root is split
without a poll, and a branch that is a leaf delivers its clique and ends without one.

* **`iterate_stopped_at_once`** — a stop check that always stops leaves an enumeration without cliques.
* **`Pool.Unpassed`** — no branch has passed a poll; every move keeps it if every poll is a stop.
* **`Branch.Sound.of_unpassed`** — such a branch has found the clique of its root or nothing.
* **`exists_stopped_iff`** — one of the branches is stopped if two nodes are mutually adjacent.
* **`enumerateOnPool_stopped_at_once`** — on a pool, only nodes that are mutually adjacent to no node are
  handed over.
-/

namespace MaximalCliques

variable {σ : Type} {g : Access σ} {w : σ} {o : Oracle} {settings : Settings}

/-! ### One after the other -/

namespace Subject

variable (hg : g.Orderly w) (ho : o.Tabulates g w)
include hg ho

theorem exists_discovery (settings : Settings) {x : Identifier} (hx : x ∈ g.listed w) :
    ∃ c ∈ discoveries g w o settings, x.isIn (Clique.nodes c) = true := by
  have hclique : g.IsClique w [x] :=
    Access.IsClique.nil.cons hx fun _ hz => absurd hz List.not_mem_nil
  obtain ⟨L, hL, hpart⟩ := hclique.exists_maximal hg
  obtain ⟨C, hC, hCL⟩ := (discoveries_enumerates hg ho settings).complete L hL
  obtain ⟨c, hc, rfl⟩ := List.mem_map.1 hC
  exact ⟨c, hc, (Identifier.sameSet_iff_partOf.1 hCL).2.isIn (hpart x List.mem_cons_self)⟩

/-- On a graph with nodes the search from the root polls before anything else. -/
theorem exists_history_eq (settings : Settings) (hne : g.listed w ≠ []) :
    ∃ n m v es, history g w o settings = .visit n :: .poll m v true :: es := by
  rw [history, historyBelow_eq]
  rcases (plan settings).below_cases (g.hoodAt w o) (root ⟨o, g.roster w⟩) with
    ⟨-, m, v, es, h⟩ | ⟨-, hcommitted⟩
  · exact ⟨_, m, v, es, h⟩
  · -- a search without polls finds the empty clique only
    obtain ⟨x, hx⟩ := List.exists_mem_of_ne_nil _ hne
    obtain ⟨c, hc, hxc⟩ := exists_discovery hg ho settings hx
    rw [discoveries, discoveriesBelow, historyBelow_eq] at hc
    rw [hcommitted c hc] at hxc
    obtain ⟨y, hy, -⟩ := Identifier.isIn_iff.1 hxc
    obtain ⟨u, hu, -⟩ := Clique.mem_nodes.1 hy
    exact absurd hu List.not_mem_nil

end Subject

/-- **A stop check that always stops leaves nothing.** -/
theorem iterate_stopped_at_once (hg : g.Orderly w) (hfits : g.FitsIn settings)
    (hne : g.listed w ≠ []) (counters : Counters) :
    ∃ outcome, (iterate g settings (fun _ => pure true) counters).run w = (outcome, w) ∧
      outcome.cliques = [] ∧ outcome.fault = some (.cancelled []) ∧ outcome.polls = 1 := by
  obtain ⟨o, ho, htabulate⟩ := Subject.tabulate_answers hg hfits
  obtain ⟨n, m, v, es, hhistory⟩ := Subject.exists_history_eq hg ho settings hne
  have hpolls : 0 < Event.polls (Subject.history g w o settings) := by
    rw [hhistory, Event.polls_visit, Event.polls_poll]
    exact Nat.succ_pos _
  obtain ⟨m', v', htrail⟩ : ∃ node v,
      (Subject.search ⟨o, g.roster w⟩ settings).trail (g.hoodAt w o) (fun _ => true) 0
        = (Event.before 0 (Subject.history g w o settings) ++ [.poll node v false], none) :=
    Subject.trail_stopped hpolls (fun j hj => absurd hj (Nat.not_lt_zero j)) rfl
  have hbefore : Event.before 0 (Subject.history g w o settings) = [.visit n] := by
    rw [hhistory]
    rfl
  rw [hbefore] at htrail
  exact ⟨_, iterate_polled (g.polledBy_pure w (fun _ => true) _) hg ho htabulate counters htrail
    (Nat.le_refl _), rfl, rfl, rfl⟩

/-! ### Branches that pass no poll -/

def Pool.Unpassed (pool : Pool σ) : Prop := ∀ t ∈ pool.tasks, t.progress.counters.branches = 0

theorem Pool.Unpassed.set {pool : Pool σ} (h : pool.Unpassed) {i : Nat} {u : Task}
    (hu : u.progress.counters.branches = 0) (polls : Nat) (v : σ) :
    Unpassed ⟨pool.tasks.set i u, polls, v⟩ := by
  intro t ht
  rcases List.mem_or_eq_of_mem_set ht with ht | rfl
  · exact h t ht
  · exact hu

/-- **If every poll is answered by a stop, no move passes one.** -/
theorem Pool.Unpassed.move {pool pool' : Pool σ} {roots : List (SearchNode Vertex)} (hg : g.Orderly w)
    (ho : o.Tabulates g w) (hpool : pool.Sound g w o settings (fun _ => true) roots)
    (h : pool.Unpassed)
    (hmoves : pool.Moves ⟨o, g.roster w⟩ g settings (fun _ => pure true) pool') :
    pool'.Unpassed := by
  cases hmoves with
  | start ht | finish ht | drop ht =>
    have hkept := h _ (List.mem_of_getElem? ht)
    refine h.set ?_ _ _
    exact hkept
  | @request i t rest ht hstage =>
    have hmem := List.mem_of_getElem? ht
    obtain ⟨es, hsound⟩ := hpool.tasks t hmem
    obtain ⟨p, hstep, hfollows, -⟩ := Subject.step_conducted hg ho (fun _ => true)
      (hsound.events_of_running hstage).1 (p := { t.progress with polls := pool.polls })
      (hsound.hoods.of_hoods_eq rfl)
    rw [request_eq hpool.world hstep]
    refine h.set ?_ _ _
    show p.counters.branches = 0
    rw [hfollows.counters]
    show t.progress.counters.branches + (Event.tally (rest.advance (g.hoodAt w o) false).1).branches = 0
    rw [h t hmem, Run.branches_tally_advance]
    rfl

/-- **A branch that has passed no poll** has found the clique of its root or nothing, and if it was
stopped, its root has candidates. -/
theorem Branch.Sound.of_unpassed {b : Branch} {es : List (Event Vertex)}
    (h : b.Sound g w o settings es) (hunpassed : b.counters.branches = 0) :
    (b.ending = .stopped → b.root.candidates ≠ []) ∧ ∀ c ∈ b.found, c = b.root.committed := by
  obtain ⟨fs, hbegins, hdelivered, hcount, hstopped⟩ := h.ending.exists_prefix
  have hpassed : fs.countP Event.isPassed = 0 := by
    rw [← hcount, ← Int.natCast_eq_zero, ← Event.branches_tally, ← h.counters, hunpassed]
  rw [h.found, hdelivered]
  rw [Subject.historyBelow_eq] at hbegins hstopped
  rcases (Subject.plan settings).below_cases (g.hoodAt w o) b.root with
    ⟨hcandidates, m, v, rest, hbelow⟩ | ⟨hnone, hcommitted⟩
  · refine ⟨fun _ => hcandidates, fun c hc => ?_⟩
    -- the branch has stopped before the poll that follows its root
    rw [hbelow] at hbegins
    match fs, hbegins, hpassed with
    | [], _, _ => exact absurd hc List.not_mem_nil
    | [e], hbegins, _ =>
      rw [(List.cons_prefix_cons.1 hbegins).1] at hc
      exact absurd hc List.not_mem_nil
    | e :: e' :: fs, hbegins, hpassed =>
      have hpoll := (List.cons_prefix_cons.1 (List.cons_prefix_cons.1 hbegins).2).1
      have hnotPassed := List.countP_eq_zero.1 hpassed e' (by simp)
      rw [hpoll] at hnotPassed
      exact absurd rfl hnotPassed
  · exact ⟨fun hending => absurd hnone (hstopped hending),
      fun c hc => hcommitted c ((hbegins.filterMap Event.clique?).subset hc)⟩

namespace Subject

variable (hg : g.Orderly w) (ho : o.Tabulates g w)
include hg ho

/-- A node below the root has one committed vertex, and candidates only if two nodes are mutually
adjacent. -/
theorem exists_of_mem_topRoots {n : SearchNode Vertex} (hn : n ∈ topRoots g w o settings) :
    ∃ v, n.committed = [v] ∧ (n.candidates ≠ [] → ∃ x y, g.Mutual w x y) := by
  obtain ⟨v, hv, others, Y, hothers, rfl⟩ := Plan.exists_of_mem_topNodes hn
  refine ⟨v, rfl, fun hcandidates => ?_⟩
  obtain ⟨u', hu'⟩ := List.exists_mem_of_ne_nil _ hcandidates
  obtain ⟨u, hu, hfound⟩ := List.mem_filterMap.1 hu'
  obtain ⟨z, hz, -⟩ := Option.map_eq_some_iff.1 hfound
  obtain ⟨hlinked, -⟩ := Access.linked_of_find?_hoodAt hg (Access.stands_of_mem_vertices hv)
    (Access.stands_of_mem_vertices (hothers u hu)) hz
  obtain ⟨x, y, hxy, -⟩ := (Oracle.linked_iff_mutual hg ho).1 hlinked
  exact ⟨x, y, hxy⟩

/-- A clique of one vertex that is discovered is a node that is mutually adjacent to no node. -/
theorem exists_of_singleton {v : Vertex} (h : [v] ∈ discoveries g w o settings) :
    ∃ x ∈ g.listed w, Identifier.sameSet (Clique.nodes [v]) [x] = true ∧ ∀ y, ¬g.Mutual w x y := by
  obtain ⟨K, hK, hsame⟩ := (discoveries_enumerates hg ho settings).sound _ (List.mem_map_of_mem h)
  have hnodes : Clique.nodes [v] = [v.node] := by simp [Clique.nodes, Clique.inOrder]
  have hin : v.node.isIn K = true := by
    rw [hnodes] at hsame
    exact (Identifier.sameSet_iff_partOf.1 hsame).1 _ List.mem_cons_self
  obtain ⟨x, hx, hxv⟩ := Identifier.isIn_iff.1 hin
  have hspelling : Identifier.sameSet (Clique.nodes [v]) [x] = true := by
    simp [hnodes, Identifier.sameSet, Identifier.isIn, hxv, BEq.symm hxv]
  rw [Identifier.sameSet_comm] at hsame
  exact ⟨x, hK.listed x hx, hspelling, hK.not_mutual hg (Identifier.sameSet_trans hsame hspelling)⟩

end Subject

/-! ### On a pool -/

section Settled

variable (hg : g.Orderly w) (ho : o.Tabulates g w)
variable (htabulate : (Subject.tabulate g settings).Answers w ⟨o, g.roster w⟩)
variable (hne : g.listed w ≠ []) (hwork : settings.AllowsWork)
variable {counters : Counters} {moves : List Move} {branches : List Branch} {outcome : Outcome}
variable {world : σ}
variable (h : enumerateOnPool g settings (fun _ => pure true) counters moves w
  = .settled branches outcome world)
include hg ho htabulate hne hwork h

/-- No branch of an enumeration that is stopped at every poll has passed one. -/
theorem branches_unpassed : ∀ b ∈ branches, b.counters.branches = 0 := by
  obtain ⟨pool, hpool, hbranches, -⟩ :=
    exists_pool_of_settled hg ho htabulate (fun _ => true) counters hne hwork h
  have hstart : (Pool.ofBatch (Subject.batch g w o settings counters) w).Unpassed := by
    intro t ht
    obtain ⟨n, -, rfl⟩ := List.mem_map.1 ht
    rfl
  have hsound : (Pool.ofBatch (Subject.batch g w o settings counters) w).Sound g w o settings
      (fun _ => true) (Subject.batch g w o settings counters).roots :=
    Pool.ofBatch_sound (Subject.topRoots_within hg ho)
  have hmove : ∀ pool pool' : Pool σ, (pool.Sound g w o settings (fun _ => true)
        (Subject.topRoots g w o settings) ∧ pool.Unpassed) →
      pool.Moves ⟨o, g.roster w⟩ g settings (fun _ => pure true) pool' →
      (pool'.Sound g w o settings (fun _ => true) (Subject.topRoots g w o settings) ∧
        pool'.Unpassed) ∧ pool'.left g w o settings < pool.left g w o settings := by
    intro pool pool' hinv hmove
    obtain ⟨hkept, hless⟩ := hinv.1.move hg ho hmove
    exact ⟨⟨hkept, hinv.2.move hg ho hinv.1 hmove⟩, hless⟩
  obtain ⟨⟨-, hunpassed⟩, -⟩ := Pool.perform_induction hmove ⟨hsound, hstart⟩ hpool
  intro b hb
  obtain ⟨t, ht, htb⟩ := Pool.exists_task hbranches b hb
  obtain ⟨ending, -, rfl⟩ := Task.branch?_eq_some.1 htb
  exact hunpassed t ht

/-- **What a branch comes to that passes no poll**: it finds the clique of one vertex at most, and is stopped
only if two nodes are mutually adjacent. -/
theorem exists_of_mem_branches {b : Branch} (hb : b ∈ branches) : ∃ v, (∀ c ∈ b.found, c = [v]) ∧
    (b.ending = .stopped → ∃ x y, g.Mutual w x y) := by
  obtain ⟨-, hroots, hsound, -⟩ :=
    enumerateOnPool_settled hg ho htabulate (fun _ => true) counters hne hwork h
  obtain ⟨es, hes⟩ := hsound b hb
  obtain ⟨hcandidates, hfound⟩ := hes.of_unpassed
    (branches_unpassed hg ho htabulate hne hwork h b hb)
  have hroot : b.root ∈ Subject.topRoots g w o settings := by
    rw [← hroots]
    exact List.mem_map_of_mem hb
  obtain ⟨v, hcommitted, hmutual⟩ := Subject.exists_of_mem_topRoots hg ho hroot
  rw [hcommitted] at hfound
  exact ⟨v, hfound, fun hending => hmutual (hcandidates hending)⟩

/-- What a branch finds that passes no poll is a node that is mutually adjacent to no node. -/
theorem exists_of_found {c : Clique} (hc : c ∈ branches.flatMap (·.found)) : ∃ x ∈ g.listed w,
    Identifier.sameSet c.nodes [x] = true ∧ ∀ y, ¬g.Mutual w x y := by
  obtain ⟨-, hroots, hsound, -⟩ :=
    enumerateOnPool_settled hg ho htabulate (fun _ => true) counters hne hwork h
  have hdiscovered : c ∈ Subject.discoveries g w o settings := (found_sublist hne hroots fun b hb =>
    (hsound b hb).elim fun _ hes => hes.isPartOf).subset hc
  obtain ⟨b, hb, hcb⟩ := List.mem_flatMap.1 hc
  obtain ⟨v, hfound, -⟩ := exists_of_mem_branches hg ho htabulate hne hwork h hb
  rw [hfound c hcb] at hdiscovered ⊢
  exact Subject.exists_of_singleton hg ho hdiscovered

/-- Branches of which none has been stopped have found everything. -/
theorem found_of_unstopped (hnone : ¬∃ b ∈ branches, b.ending = .stopped) :
    branches.flatMap (·.found) = Subject.discoveries g w o settings := by
  obtain ⟨-, hroots, hsound, -, hdropped, -⟩ :=
    enumerateOnPool_settled hg ho htabulate (fun _ => true) counters hne hwork h
  rw [branches_eq_map hroots hsound hnone fun hb => hnone (hdropped hb), List.flatMap_map,
    Subject.discoveries_eq_flatMap hne]
  rfl

/-- **A branch is stopped exactly if two nodes are mutually adjacent**: otherwise every branch is a leaf. -/
theorem exists_stopped_iff :
    (∃ b ∈ branches, b.ending = .stopped) ↔ ∃ x y, g.Mutual w x y := by
  constructor
  · intro hstopped
    obtain ⟨b, hb, hending⟩ := hstopped
    obtain ⟨v, -, hmutual⟩ := exists_of_mem_branches hg ho htabulate hne hwork h hb
    exact hmutual hending
  · intro hmutual
    obtain ⟨x, y, hxy⟩ := hmutual
    by_contra hnone
    -- all branches have been searched to their end, so one of them has found a clique with `x`
    obtain ⟨c, hc, hxc⟩ := Subject.exists_discovery hg ho settings hxy.left_listed
    rw [← found_of_unstopped hg ho htabulate hne hwork h hnone] at hc
    obtain ⟨z, hz, hcz, halone⟩ := exists_of_found hg ho htabulate hne hwork h hc
    obtain ⟨u, hu, hux⟩ := Identifier.isIn_iff.1
      ((Identifier.sameSet_iff_partOf.1 hcz).1.isIn hxc)
    rw [List.mem_singleton.1 hu] at hux
    exact halone y (hxy.congr hg hz hxy.right_listed (BEq.symm hux) BEq.rfl)

/-- The enumeration hands over what its branches have found, and is cancelled if two nodes are mutually
adjacent. -/
theorem outcome_of_settled : outcome.cliques.Perm (branches.flatMap (·.found)) ∧
    ((∃ x y, g.Mutual w x y) →
      outcome.fault = some (.cancelled (outcome.cliques.map Clique.nodes))) ∧
    ((∀ x y, ¬g.Mutual w x y) → outcome.fault = none) := by
  obtain ⟨-, hperm, hfault⟩ := handed_of_settled hg ho htabulate hne hwork h
  have hstopped : Branch.anyStopped branches = true ↔ ∃ x y, g.Mutual w x y :=
    Branch.anyStopped_iff.trans (exists_stopped_iff hg ho htabulate hne hwork h)
  refine ⟨hperm, fun hmutual => ?_, fun hnone => ?_⟩
  · rw [hfault, if_pos (hstopped.2 hmutual)]
  · rw [hfault, if_neg]
    rw [hstopped]
    rintro ⟨x, y, hxy⟩
    exact hnone x y hxy

/-- **Where no nodes are mutually adjacent**, no branch makes a poll, and all maximal cliques are handed
over. -/
theorem enumerates_of_not_mutual (hnone : ∀ x y, ¬g.Mutual w x y) :
    g.Enumerates w (outcome.cliques.map Clique.nodes) := by
  obtain ⟨hperm, -⟩ := outcome_of_settled hg ho htabulate hne hwork h
  rw [found_of_unstopped hg ho htabulate hne hwork h] at hperm
  · exact (Subject.discoveries_enumerates hg ho settings).perm (hperm.map _)
  · rw [exists_stopped_iff hg ho htabulate hne hwork h]
    rintro ⟨x, y, hxy⟩
    exact hnone x y hxy

end Settled

/-- **A stop check that always stops.**  Take an orderly graph that fits and has nodes.  An enumeration one
after the other is cancelled at its first poll and hands over nothing.  On a pool of workers that can work
every schedule comes to an end and hands over only nodes that are mutually adjacent to no node: the branch
of such a node makes no poll.  If some nodes are mutually adjacent, it is cancelled; if none are, it is not,
and hands over all maximal cliques.  If every node is mutually adjacent to some node, it is cancelled and
hands over nothing, as the enumeration one after the other. -/
theorem enumerateOnPool_stopped_at_once (hg : g.Orderly w) (hfits : g.FitsIn settings)
    (hwork : settings.AllowsWork) (hne : g.listed w ≠ []) (counters : Counters) :
    (∃ outcome, (enumerate g settings (fun _ => pure true) counters).run w = (outcome, w) ∧
      outcome.cliques = [] ∧ outcome.fault = some (.cancelled []) ∧ outcome.polls = 1) ∧
    (Standing.Ends fun moves =>
      enumerateOnPool g settings (fun _ => pure true) counters moves w) ∧
    ∀ moves branches outcome world,
      enumerateOnPool g settings (fun _ => pure true) counters moves w
        = .settled branches outcome world →
      (∀ c ∈ outcome.cliques, ∃ x ∈ g.listed w, Identifier.sameSet c.nodes [x] = true ∧
        ∀ y, ¬g.Mutual w x y) ∧
      ((∃ x y, g.Mutual w x y) →
        outcome.fault = some (.cancelled (outcome.cliques.map Clique.nodes))) ∧
      ((∀ x y, ¬g.Mutual w x y) →
        outcome.fault = none ∧ g.Enumerates w (outcome.cliques.map Clique.nodes)) ∧
      ((∀ x ∈ g.listed w, ∃ y, g.Mutual w x y) →
        outcome.cliques = [] ∧ outcome.fault = some (.cancelled [])) := by
  obtain ⟨o, ho, htabulate⟩ := Subject.tabulate_answers hg hfits
  refine ⟨?_, enumerateOnPool_ends hg ho htabulate (fun _ => true) counters hwork, ?_⟩
  · obtain ⟨outcome, hrun, hcliques, hfault, hpolls⟩ :=
      iterate_stopped_at_once hg hfits hne counters
    have hcollect : Clique.collect [] = [] := (Clique.collect_perm List.Pairwise.nil).eq_nil
    refine ⟨_, enumerate_of_iterate hrun, ?_, ?_, ?_⟩ <;>
      simp [Outcome.asSet, hcliques, hfault, hpolls, hcollect]
  intro moves branches outcome world h
  obtain ⟨hperm, hcancelled, hfault⟩ := outcome_of_settled hg ho htabulate hne hwork h
  have halone : ∀ c ∈ outcome.cliques, ∃ x ∈ g.listed w,
      Identifier.sameSet c.nodes [x] = true ∧ ∀ y, ¬g.Mutual w x y :=
    fun c hc => exists_of_found hg ho htabulate hne hwork h (hperm.subset hc)
  refine ⟨halone, hcancelled, fun hnone => ⟨hfault hnone, ?_⟩, fun hall => ?_⟩
  · exact enumerates_of_not_mutual hg ho htabulate hne hwork h hnone
  · have hnone : outcome.cliques = [] := by
      refine List.eq_nil_iff_forall_not_mem.2 fun c hc => ?_
      obtain ⟨x, hx, -, hx'⟩ := halone c hc
      exact (hall x hx).elim hx'
    obtain ⟨x, hx⟩ := List.exists_mem_of_ne_nil _ hne
    rw [hcancelled ⟨x, hall x hx⟩, hnone]
    exact ⟨rfl, rfl⟩

/-- Two workers on a graph with two mutually adjacent nodes and a node that is mutually adjacent to none. -/
theorem enumerateOnPool_stopped_at_once_lopsided :
    (Thing.lopsided.access {}).Orderly {} ∧
      (Thing.lopsided.access {}).FitsIn { parallelWorkers := .integer 2 } ∧
      Settings.AllowsWork { parallelWorkers := .integer 2 } ∧
      (Thing.lopsided.access {}).listed {} ≠ [] ∧
      (∃ outcome, (enumerate (Thing.lopsided.access {}) { parallelWorkers := .integer 2 }
          (fun _ => pure true) {}).run ({} : World) = (outcome, {}) ∧
        outcome.cliques = [] ∧ outcome.fault = some (.cancelled []) ∧ outcome.polls = 1) ∧
      (Standing.Ends fun moves => enumerateOnPool (Thing.lopsided.access {})
        { parallelWorkers := .integer 2 } (fun _ => pure true) {} moves {}) ∧
      ∀ moves branches outcome world,
        enumerateOnPool (Thing.lopsided.access {}) { parallelWorkers := .integer 2 }
          (fun _ => pure true) {} moves {} = .settled branches outcome world →
        (∀ c ∈ outcome.cliques, ∃ x ∈ (Thing.lopsided.access {}).listed {},
          Identifier.sameSet c.nodes [x] = true ∧ ∀ y, ¬(Thing.lopsided.access {}).Mutual {} x y) ∧
        ((∃ x y, (Thing.lopsided.access {}).Mutual {} x y) →
          outcome.fault = some (.cancelled (outcome.cliques.map Clique.nodes))) ∧
        ((∀ x y, ¬(Thing.lopsided.access {}).Mutual {} x y) → outcome.fault = none ∧
          (Thing.lopsided.access {}).Enumerates {} (outcome.cliques.map Clique.nodes)) ∧
        ((∀ x ∈ (Thing.lopsided.access {}).listed {}, ∃ y,
          (Thing.lopsided.access {}).Mutual {} x y) →
          outcome.cliques = [] ∧ outcome.fault = some (.cancelled [])) :=
  have hfits : (Thing.lopsided.access {}).FitsIn { parallelWorkers := .integer 2 } :=
    Thing.lopsided_fitsIn rfl
  have hwork : Settings.AllowsWork { parallelWorkers := .integer 2 } :=
    Settings.allowsWork_of_pos rfl (by decide)
  have hne : (Thing.lopsided.access {}).listed {} ≠ [] := by decide
  ⟨Thing.lopsided_orderly {}, hfits, hwork, hne,
    enumerateOnPool_stopped_at_once (Thing.lopsided_orderly {}) hfits hwork hne {}⟩

/-! ### A node alone -/

/-- A graph with one node and no neighbours. -/
def TableGraph.lone : TableGraph where
  nodes := [.integer 0]
  bound := .integer 1
  indices := ⟨[(.integer 0, .integer 0)]⟩
  outgoing := {}
  incoming := {}
  directed := false

def Thing.lone : Thing where
  base := .tableGraph 0 .lone

theorem Thing.lone_orderly (w : World) : (Thing.lone.access w).Orderly w := by
  have hholds : ∀ {x : Identifier}, TableGraph.lone.Holds x → x = .integer 0 := by
    rintro x (hx | ⟨u, hu, hx⟩)
    · exact List.mem_singleton.1 hx
    · rw [List.mem_singleton.1 hu] at hx
      exact absurd hx List.not_mem_nil
  refine Thing.orderly (Base.tableGraph_orderly rfl ?_ ?_ ?_ w) fun f hf => absurd hf List.not_mem_nil
  · intro x hx
    rw [hholds hx]
    rfl
  · intro x hx
    rw [hholds hx]
    exact ⟨0, rfl, by decide⟩
  · intro x y hx hy
    rw [hholds hx, hholds hy]
    exact ⟨fun _ => BEq.rfl, fun _ => rfl⟩

/-- A stop check that stops at every poll does not stop an enumeration on a pool whose only branch is a
leaf. -/
theorem enumerateOnPool_stopped_at_once_lone :
    ∃ moves branches outcome world,
      enumerateOnPool (Thing.lone.access {}) { parallelWorkers := .integer 1 } (fun _ => pure true) {}
        moves {} = .settled branches outcome world ∧
      outcome.fault = none ∧ outcome.cliques ≠ [] := by
  have hg := Thing.lone_orderly {}
  have hwork : Settings.AllowsWork { parallelWorkers := .integer 1 } :=
    Settings.allowsWork_of_pos rfl (by decide)
  have hfits : (Thing.lone.access {}).FitsIn { parallelWorkers := .integer 1 } :=
    Access.fitsIn_of_le rfl (by decide) (by decide) (by decide) (by decide)
  have hlisted : (Thing.lone.access {}).listed {} = [.integer 0] := rfl
  have hnone : ∀ x y, ¬(Thing.lone.access {}).Mutual {} x y := by
    intro x y hxy
    have hx := List.mem_singleton.1 (hlisted ▸ hxy.left_listed)
    have hy := List.mem_singleton.1 (hlisted ▸ hxy.right_listed)
    have hdiffer := hxy.differ
    rw [hx, hy, BEq.rfl] at hdiffer
    exact absurd hdiffer (by decide)
  have hne : (Thing.lone.access {}).listed {} ≠ [] := by decide
  obtain ⟨o, ho, htabulate⟩ := Subject.tabulate_answers hg hfits
  obtain ⟨moves, branches, outcome, world, h⟩ :=
    (enumerateOnPool_ends hg ho htabulate (fun _ => true) {} hwork).exists_settled
  have henumerates := enumerates_of_not_mutual hg ho htabulate hne hwork h hnone
  refine ⟨moves, branches, outcome, world, h,
    (outcome_of_settled hg ho htabulate hne hwork h).2.2 hnone, fun hempty => ?_⟩
  obtain ⟨L, hL, -⟩ := Access.IsClique.nil.exists_maximal hg
  obtain ⟨C, hC, -⟩ := henumerates.complete L hL
  rw [hempty] at hC
  exact absurd hC List.not_mem_nil

end MaximalCliques
