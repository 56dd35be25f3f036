import MaximalCliques.Proofs.Enumeration.Deliveries

/-!
# What an enumeration announces when it is cancelled

* **`Report.announced`** — the numbers of cliques after which reports say that an enumeration has been
  cancelled.
* **`Announces`** — a cancelled enumeration announces one number, and no other enumeration does.
* **`iterate_announces`**, **`enumerate_announces`** — one after the other, the number announced goes on from
  the counters that are given.
* **`Pool.Uncancelled`** — the invariant of a pool that has no cancellation but its own.
* **`enumerateInBranches_announces`**, **`enumerateOnPool_announces`** — in branches, the number announced is
  that of the cliques that are handed over.
-/

namespace MaximalCliques

variable {σ : Type} {g : Access σ} {settings : Settings} {stop : Nat → Query σ Bool}
variable {counters : Counters} {s : Subject} {v w : σ} {own : Prop}

/-- The number of cliques after which a report says that an enumeration has been cancelled. -/
def Report.cancelledAfter? : Report → Option Int
  | .cancelled cliques => some cliques
  | .cancelledInBranches cliques => some cliques
  | _ => none

def Report.announced (reports : List Report) : List Int := reports.filterMap cancelledAfter?

/-- The cliques that a cancellation hands over. -/
def Fault.handedOver? : Fault → Option (List (List Identifier))
  | .cancelled found => some found
  | _ => none

theorem Fault.Rejects.handedOver? {e : Fault} (h : e.Rejects) : e.handedOver? = none := by
  cases e <;> first | rfl | exact absurd rfl (h _)

/-- A fault that is no cancellation, as the only fault that there is. -/
theorem Fault.Rejects.of_some {e : Fault} (h : e.Rejects) : ∀ e', some e = some e' → e'.Rejects :=
  fun _ he => Option.some.inj he ▸ h

/-- **How a cancellation is announced**: the number `n` stands in one report, and only if `size` cliques are
handed over.  Conversely it does stand there if cliques are handed over, as long as all cancellations are the
enumeration's `own`. -/
structure Announces (own : Prop) (reports : List Report) (n : Int)
    (handedOver? : Option (List (List Identifier))) (size : Nat) : Prop where
  only : Report.announced reports = [] ∨
    Report.announced reports = [n] ∧ handedOver?.map List.length = some size
  always : own → handedOver?.isSome = true → Report.announced reports = [n]

/-- Nothing is announced, and no cliques are handed over by a cancellation of the enumeration's own. -/
theorem announces_nothing {reports : List Report} {n : Int} {fault : Option Fault} {size : Nat}
    (hreports : Report.announced reports = []) (hfault : own → ∀ e, fault = some e → e.Rejects) :
    Announces own reports n (fault.bind Fault.handedOver?) size where
  only := .inl hreports
  always how hsome := by
    cases fault with
    | none => cases hsome
    | some e =>
      rw [Option.bind_some, (hfault how e rfl).handedOver?] at hsome
      cases hsome

theorem announces_one {reports : List Report} {n : Int} {fault : Option Fault}
    {found : List (List Identifier)} {size : Nat} (hreports : Report.announced reports = [n])
    (hfault : fault = some (.cancelled found)) (hsize : found.length = size) :
    Announces own reports n (fault.bind Fault.handedOver?) size where
  only := .inr ⟨hreports, by rw [hfault, ← hsize]; rfl⟩
  always _ _ := hreports

/-! ### One after the other -/

/-- **How an enumeration one after the other ends**: with what its search has delivered and counted, and with
an announcement of the count if it is cancelled. -/
theorem iterate_leads {o : Outcome} (hrun : (iterate g settings stop counters).run w = (o, v)) :
    ∃ p : Progress, p.Tells counters.cliques ∧ o.cliques = p.found.reverse ∧
      ((Report.announced o.reports = [] ∧
          (g.NeverCancelsWith stop → ∀ e, o.fault = some e → e.Rejects)) ∨
        (Report.announced o.reports = [p.counters.cliques] ∧ o.fault = some (.cancelled []))) := by
  cases htabulate : (Subject.tabulate g settings).run w with
  | mk answer u =>
    cases answer with
    | error e =>
      rw [iterate_of_tabulate_error htabulate] at hrun
      obtain ⟨rfl, -⟩ := Prod.mk.inj hrun
      exact ⟨{ counters }, Progress.tells_start counters, rfl, .inl ⟨rfl, fun how =>
        (how.graph.tabulate settings w e (congrArg Prod.fst htabulate)).of_some⟩⟩
    | ok s =>
      have hs := Subject.reports_of_tabulate htabulate stop
      have hled := hs.finish_leads (Subject.search_fresh htabulate fun _ => List.not_mem_nil)
        (Progress.tells_start counters) u
      cases hfinish : ((s.search settings).finish (s.conductor g stop)).run ({ counters }, u) with
      | mk answer state =>
        obtain ⟨p, v'⟩ := state
        rw [hfinish] at hled
        have hiterate : (iterate g settings stop counters).run w = _ :=
          (run_bind_of_eq htabulate).trans (run_bind_of_eq (Searching.run_askFrom hfinish))
        rw [hiterate] at hrun
        obtain ⟨rfl, -⟩ := Prod.mk.inj hrun
        refine ⟨p, ?_⟩
        cases answer with
        | error e =>
          exact ⟨hled.1, rfl, .inl ⟨rfl, fun how => (hled.2 how).of_some⟩⟩
        | ok result =>
          cases result with
          | none => exact ⟨hled, rfl, .inr ⟨rfl, rfl⟩⟩
          | some b => exact ⟨hled, rfl, .inl ⟨rfl, fun _ e he => by cases he⟩⟩

/-- **One after the other**, the number announced is that of the cliques that have been delivered, on top of
those that had been counted before. -/
theorem iterate_announces {o : Outcome} (hrun : (iterate g settings stop counters).run w = (o, v)) :
    Announces (g.NeverCancelsWith stop) o.reports (counters.cliques + o.cliques.length)
      (o.fault.bind Fault.handedOver?) 0 := by
  obtain ⟨p, hp, hcliques, hends⟩ := iterate_leads hrun
  rw [hcliques, List.length_reverse, ← hp.counted]
  rcases hends with ⟨hreports, hfault⟩ | ⟨hreports, hfault⟩
  · exact announces_nothing hreports hfault
  · exact announces_one hreports hfault rfl

theorem Outcome.rejects_asSet {o : Outcome} (h : ∀ e, o.fault = some e → e.Rejects) (e : Fault)
    (he : o.asSet.fault = some e) : e.Rejects := by
  unfold asSet at he
  split at he
  case h_1 hnone => cases hnone.symm.trans he
  case h_2 found hcancelled => exact absurd rfl (h _ hcancelled found)
  case h_3 => exact h e he

/-- What an enumeration that hands over a set announces is what it announces one after the other. -/
theorem Outcome.announced_asSet (o : Outcome) :
    Report.announced o.asSet.reports = Report.announced o.reports := by
  unfold asSet
  split
  · simp [Report.announced, Report.cancelledAfter?]
  · rfl
  · rfl

/-- **As a set**, the number announced is that of the cliques that are handed over, on top of those that had
been counted before. -/
theorem enumerate_announces {o : Outcome} (hrun : (enumerate g settings stop counters).run w = (o, v)) :
    Announces (g.NeverCancelsWith stop) o.reports (counters.cliques + o.cliques.length)
      (o.fault.bind Fault.handedOver?) o.cliques.length := by
  cases hiterate : (iterate g settings stop counters).run w with
  | mk o' u =>
    rw [enumerate_of_iterate hiterate] at hrun
    obtain ⟨rfl, -⟩ := Prod.mk.inj hrun
    obtain ⟨p, hp, hcliques, hends⟩ := iterate_leads hiterate
    have hset : o'.asSet.cliques = Clique.collect o'.cliques := by
      unfold Outcome.asSet
      split <;> rfl
    have hlength : o'.asSet.cliques.length = p.found.length := by
      rw [hset, hcliques, hp.length_collect]
    rw [← o'.announced_asSet] at hends
    rcases hends with ⟨hreports, hfault⟩ | ⟨hreports, hfault⟩
    · exact announces_nothing hreports fun how => Outcome.rejects_asSet (hfault how)
    · have hhanded : o'.asSet.fault = some (.cancelled (o'.asSet.cliques.map Clique.nodes)) := by
        rw [hset]
        simp only [Outcome.asSet, hfault]
      rw [hlength, ← hp.counted]
      exact announces_one hreports hhanded ((List.length_map _).trans hlength)

/-! ### In branches -/

theorem Report.announced_append (reports : List Report) (r : Report) :
    announced (reports ++ [r]) = announced reports ++ r.cancelledAfter?.toList := by
  rw [announced, List.filterMap_append]
  rfl

/-- A branch that has not failed with a cancellation, as long as all cancellations are the enumeration's
`own`. -/
def Branch.Uncancelled (own : Prop) (b : Branch) : Prop := own → ∀ e, b.ending = .failed e → e.Rejects

theorem Branch.rejects_firstFault {branches : List Branch} (h : ∀ b ∈ branches, b.Uncancelled own)
    (how : own) {e : Fault} (he : firstFault branches = some e) : e.Rejects := by
  obtain ⟨b, hb, hbe⟩ := List.exists_of_findSome?_eq_some he
  cases hending : b.ending with
  | failed fault =>
    simp only [hending, Option.some.injEq] at hbe
    exact h b hb how e (hbe ▸ hending)
  | _ => simp [hending] at hbe

/-- **What branches come to together** announces the number of the cliques that they hand over. -/
theorem Outcome.ofBranches_announces {branches : List Branch} (h : ∀ b ∈ branches, b.Uncancelled own)
    {reports : List Report} (hreports : Report.announced reports = []) (polls : Nat) :
    let o := ofBranches counters polls reports branches
    Announces own o.reports o.cliques.length (o.fault.bind Fault.handedOver?) o.cliques.length := by
  unfold ofBranches
  cases hfault : Branch.firstFault branches with
  | some e =>
    exact announces_nothing hreports fun how => (Branch.rejects_firstFault h how hfault).of_some
  | none =>
    cases Branch.anyStopped branches with
    | true =>
      refine announces_one ?_ rfl (List.length_map _)
      rw [Report.announced_append, hreports]
      rfl
    | false =>
      refine announces_nothing ?_ fun _ e he => by cases he
      rw [Report.announced_append, hreports]
      rfl

/-- **What is ready to be searched, or over already**: nothing has been announced, and no cancellation has
been raised. -/
def Batch.Unannounced (g : Access σ) (stop : Nat → Query σ Bool) (own : Prop) : Outcome ⊕ Batch → Prop
  | .inl o => Report.announced o.reports = [] ∧ (own → ∀ e, o.fault = some e → e.Rejects)
  | .inr batch => Report.announced batch.reports = [] ∧ batch.subject.Reports g stop own

/-- **Preparing branches** announces nothing. -/
theorem prepareBranches_unannounced (g : Access σ) (settings : Settings) (stop : Nat → Query σ Bool)
    (counters : Counters) (w : σ) : Batch.Unannounced g stop (g.NeverCancelsWith stop)
      ((prepareBranches g settings stop counters).run w).1 := by
  cases htabulate : (Subject.tabulate g settings).run w with
  | mk answer u =>
    cases answer with
    | error e =>
      rw [prepareBranches_of_tabulate_error htabulate]
      exact ⟨rfl, fun how =>
        (how.graph.tabulate settings w e (congrArg Prod.fst htabulate)).of_some⟩
    | ok s =>
      by_cases hempty : s.roster.vertices = []
      · rw [prepareBranches_ofNothing htabulate hempty]
        exact ⟨rfl, fun _ e he => by cases he⟩
      have hs := Subject.reports_of_tabulate htabulate stop
      have hisEmpty : s.roster.vertices.isEmpty = false := List.isEmpty_eq_false_iff.2 hempty
      have hsplit : ((Subject.plan settings).topBranches s.roster.vertices).KeepsTo (fun _ => True) False
          fun roots => ∀ n ∈ roots, n.Within fun _ => True :=
        Plan.topBranches_keepsTo _ fun _ _ => trivial
      have hled := hs.conduct_leads hsplit
        { counters := { counters with calls := counters.calls + 1 } } u
      rw [show (prepareBranches g settings stop counters).run w = _ from run_bind_of_eq htabulate]
      simp only [hisEmpty, Bool.false_eq_true, if_false]
      cases hfinish : (((Subject.plan settings).topBranches s.roster.vertices).finish
          (s.conductor g stop)).run ({ counters := { counters with calls := counters.calls + 1 } }, u) with
      | mk answer state =>
        obtain ⟨p, v⟩ := state
        rw [hfinish] at hled
        rw [run_bind_of_eq (Searching.run_askFrom hfinish)]
        cases answer with
        | error e =>
          exact ⟨rfl, fun how => (hled.2 how).of_some⟩
        | ok result =>
          cases result with
          | none => exact (hled rfl).elim
          | some roots =>
            cases hworkers : settings.requireWorkers with
            | error e =>
              exact ⟨rfl, fun _ => (settings.requireWorkers_neverCancels e hworkers).of_some⟩
            | ok => exact ⟨rfl, hs⟩

section Branches

variable (hs : s.Reports g stop own)
include hs

variable (settings) in
/-- **A branch** fails with a cancellation only if the graph or the stop check raises it. -/
theorem runBranch_uncancelled (root : SearchNode Vertex) (polls : Nat) (w : σ) :
    ((s.runBranch g settings stop root polls).run w).1.1.Uncancelled own := by
  have hroot : root.Within fun _ => True := ⟨fun _ _ => trivial, fun _ _ => trivial, fun _ _ => trivial⟩
  have hled := hs.conduct_leads (Subject.searchBelow_keepsTo settings hroot) { polls } w
  cases hfinish : ((Subject.searchBelow settings root).finish (s.conductor g stop)).run ({ polls }, w) with
  | mk answer state =>
    obtain ⟨p, v⟩ := state
    rw [hfinish] at hled
    rw [show (s.runBranch g settings stop root polls).run w = _ from
      run_bind_of_eq (Searching.run_askFrom hfinish)]
    intro how e he
    cases answer with
    | error e' =>
      obtain rfl : e' = e := Ending.failed.inj he
      exact hled.2 how
    | ok result => cases result <;> cases he

variable (settings) in
/-- **Branches** fail with a cancellation only if the graph or the stop check raises it. -/
theorem runBranches_uncancelled (discipline : Discipline) (roots : List (SearchNode Vertex))
    (dropping : Bool) (polls : Nat) (w : σ) :
    ∀ b ∈ ((s.runBranches g settings stop discipline roots dropping polls).run w).1.1,
      b.Uncancelled own := by
  induction roots generalizing dropping polls w with
  | nil => exact fun b hb => absurd hb List.not_mem_nil
  | cons root roots ih =>
    unfold Subject.runBranches
    cases dropping with
    | true => exact List.forall_mem_cons.2 ⟨fun _ e he => (by cases he), ih true polls w⟩
    | false =>
      exact List.forall_mem_cons.2 ⟨runBranch_uncancelled settings hs root polls w, ih _ _ _⟩

end Branches

/-- **In branches**, the number announced is that of the cliques that are handed over. -/
theorem enumerateInBranches_announces {discipline : Discipline} {o : Outcome}
    (hrun : (enumerateInBranches g settings stop discipline counters).run w = (o, v)) :
    Announces (g.NeverCancelsWith stop) o.reports o.cliques.length (o.fault.bind Fault.handedOver?)
      o.cliques.length := by
  have hready := prepareBranches_unannounced g settings stop counters w
  cases hprepare : (prepareBranches g settings stop counters).run w with
  | mk ready u =>
    rw [hprepare] at hready
    rw [show (enumerateInBranches g settings stop discipline counters).run w = _ from
      run_bind_of_eq hprepare] at hrun
    cases ready with
    | inl outcome =>
      obtain ⟨rfl, -⟩ := Prod.mk.inj hrun
      exact announces_nothing hready.1 hready.2
    | inr batch =>
      have hbranches := runBranches_uncancelled settings hready.2 discipline batch.roots false 0 u
      obtain ⟨rfl, -⟩ := Prod.mk.inj hrun
      exact Outcome.ofBranches_announces hbranches hready.1 _

/-! ### On a pool -/

/-- **The invariant of a pool that has no cancellation but its own**: no branch has failed with another. -/
def Pool.Uncancelled (own : Prop) (pool : Pool σ) : Prop :=
  own → ∀ t ∈ pool.tasks, ∀ e, t.stage = .ended (.failed e) → e.Rejects

namespace Pool

variable {pool pool' : Pool σ}

theorem Uncancelled.replace (h : pool.Uncancelled own) (i : Nat) {t : Task}
    (ht : own → ∀ e, t.stage = .ended (.failed e) → e.Rejects) (polls : Nat) (w : σ) :
    Uncancelled own ⟨pool.tasks.set i t, polls, w⟩ := by
  intro how u hu
  rcases List.mem_or_eq_of_mem_set hu with hu | rfl
  · exact h how u hu
  · exact ht how

/-- **Every move keeps the invariant.** -/
theorem Uncancelled.move (h : pool.Uncancelled own) (hs : s.Reports g stop own)
    (hmove : pool.Moves s g settings stop pool') : pool'.Uncancelled own := by
  cases hmove with
  | @start i t => exact h.replace i (fun _ e he => by cases he) pool.polls pool.world
  | @finish i t => exact h.replace i (fun _ e he => by cases he) pool.polls pool.world
  | @drop i t => exact h.replace i (fun _ e he => by cases he) pool.polls pool.world
  | @request i t rest ht hstage hdone =>
    have hled := hs.step_leads rest { t.progress with polls := pool.polls } pool.world
    cases hstep : (rest.step (s.conductor g stop)).run
        ({ t.progress with polls := pool.polls }, pool.world) with
    | mk answer state =>
      obtain ⟨p, v⟩ := state
      rw [hstep] at hled
      rw [request_eq rfl hstep]
      refine h.replace i (fun how e he => ?_) p.polls v
      cases answer with
      | error e' =>
        obtain rfl : e' = e := Ending.failed.inj (Stage.ended.inj he)
        exact hled.2 how
      | ok rest? => cases rest? <;> cases he

/-- **Every schedule keeps the invariant.** -/
theorem Uncancelled.perform (h : pool.Uncancelled own) (hs : s.Reports g stop own) {moves : List Move}
    (hperform : pool.perform s g settings stop moves = some pool') : pool'.Uncancelled own :=
  perform_keeps (fun pool _ (hpool : Uncancelled own pool) hmove => hpool.move hs hmove) h hperform

theorem ofBatch_uncancelled (batch : Batch) (w : σ) : (ofBatch batch w).Uncancelled own := by
  intro _ t ht e he
  obtain ⟨n, -, rfl⟩ := List.mem_map.1 ht
  cases he

end Pool

/-- **On a pool**, the number announced is that of the cliques that are handed over, whatever the
schedule. -/
theorem enumerateOnPool_announces {moves : List Move} {branches : List Branch} {o : Outcome}
    (hsettled : enumerateOnPool g settings stop counters moves w = .settled branches o v) :
    Announces (g.NeverCancelsWith stop) o.reports o.cliques.length (o.fault.bind Fault.handedOver?)
      o.cliques.length := by
  have hready := prepareBranches_unannounced g settings stop counters w
  unfold enumerateOnPool at hsettled
  cases hprepare : (prepareBranches g settings stop counters).run w with
  | mk ready u =>
    rw [hprepare] at hready
    cases ready with
    | inl outcome =>
      simp only [hprepare] at hsettled
      split at hsettled
      · obtain ⟨-, rfl, -⟩ := Standing.settled.inj hsettled
        exact announces_nothing hready.1 hready.2
      · cases hsettled
    | inr batch =>
      simp only [hprepare] at hsettled
      split at hsettled
      case h_1 => cases hsettled
      case h_2 pool hperform =>
        have hpool := (Pool.ofBatch_uncancelled batch u).perform hready.2 hperform
        unfold Batch.standing at hsettled
        split at hsettled
        case h_2 => cases hsettled
        case h_1 branches' hbranches =>
          obtain ⟨-, rfl, -⟩ := Standing.settled.inj hsettled
          refine Outcome.ofBranches_announces (fun b hb how e he => ?_) hready.1 pool.polls
          obtain ⟨t, ht, htb⟩ := Pool.exists_task hbranches b hb
          obtain ⟨ending, hstage, rfl⟩ := Task.branch?_eq_some.1 htb
          exact hpool how t ht e (by rw [hstage, show ending = .failed e from he])

end MaximalCliques
