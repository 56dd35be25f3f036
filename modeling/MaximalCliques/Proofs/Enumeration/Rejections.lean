import MaximalCliques.Proofs.Enumeration.Answered
import MaximalCliques.Proofs.Enumeration.CliqueSets
import MaximalCliques.Proofs.Enumeration.ImmediateStops
import MaximalCliques.Proofs.Enumeration.PoolOutcomes
import MaximalCliques.Proofs.Enumeration.Resumptions
import MaximalCliques.Proofs.Identifier.Writing

/-!
# What a rejected enumeration leaves behind

An enumeration is rejected if it ends with a fault that is no cancellation.  On a graph that gives the
same answers again this happens at two points only.  Either the graph could not be tabulated; nothing has
been counted then.  Or the number of workers is refused; by then the root of the search has been counted
and split into branches.

* **`Fault.Rejects`**, **`Outcome.RejectedFor`** — faults that are no cancellation.
* **`iterate_rejected`**, **`OpenEnumeration.resumption_rejected`** — one after the other, nothing has been
  counted.
* **`RejectedInBranches`** — the two ways in which an enumeration in branches is rejected.
* **`Pool.Answered`** — the invariant of a pool none of whose branches fails.
* **`enumeration_rejected`** — all of this, together.
-/

namespace MaximalCliques

variable {σ : Type} {g : Access σ} {I : σ → Prop} {settings : Settings} {stop : Nat → Query σ Bool}
variable {counters : Counters} {s : Subject} {v w : σ} {e : Fault}

def Fault.Rejects (e : Fault) : Prop := ∀ found, e ≠ .cancelled found

theorem Fault.Rejects.raised {e : Fault} (h : e.Rejects) : e.raised.Rejects := by
  rcases e.raised_eq_or with he | he
  · rwa [he]
  · rw [he]
    exact fun found hfound => by cases hfound

/-- The enumeration has ended with a fault that is no cancellation. -/
def Outcome.RejectedFor (o : Outcome) (e : Fault) : Prop := o.fault = some e ∧ e.Rejects

/-- An enumeration that has no fault, or has been cancelled, has not been rejected. -/
theorem Outcome.not_rejectedFor {o : Outcome} (h : ∀ e, o.fault = some e → ∃ found, e = .cancelled found) :
    ¬o.RejectedFor e := by
  rintro ⟨hfault, hrejects⟩
  obtain ⟨found, hfound⟩ := h e hfault
  exact hrejects found hfound

/-- Handing over a set changes nothing in whether an enumeration is rejected. -/
theorem Outcome.RejectedFor.of_asSet {o : Outcome} (h : o.asSet.RejectedFor e) : o.RejectedFor e := by
  obtain ⟨hfault, hrejects⟩ := h
  refine ⟨?_, hrejects⟩
  unfold asSet at hfault
  split at hfault
  case h_1 hnone => exact absurd (hnone.symm.trans hfault) (by simp)
  case h_2 found hcancelled => exact absurd (Option.some.inj hfault).symm (hrejects _)
  case h_3 => exact hfault

/-- Nothing has been found by an enumeration that has counted nothing. -/
theorem Outcome.asSet_of_rejects (h : e.Rejects) (counters : Counters) :
    asSet { fault := e, counters } = { fault := e, counters } := by
  have hcollect : Clique.collect [] = [] := (Clique.collect_perm List.Pairwise.nil).eq_nil
  unfold asSet
  split
  case h_1 hnone => cases hnone
  case h_2 found hcancelled => exact absurd (Option.some.inj hcancelled) (h found)
  case h_3 => rw [hcollect]

/-! ### One after the other -/

namespace Subject

/-- **The search below a node in `S`** keeps to `S`. -/
theorem searchBelow_keepsTo {S : Vertex → Prop} (settings : Settings) {n : SearchNode Vertex}
    (hn : n.Within S) : (searchBelow settings n).KeepsTo S True fun _ => True := by
  rw [searchBelow_eq]
  exact Plan.expand_keepsTo _ hn trivial

theorem Surveys.search_keepsTo (h : s.Surveys g I) (settings : Settings) :
    (s.search settings).KeepsTo (g.Charted I s.oracle.bound) True fun _ => True :=
  searchBelow_keepsTo settings ⟨fun _ hu => absurd hu List.not_mem_nil, fun _ hu => h.charted hu,
    fun _ hu => absurd hu List.not_mem_nil⟩

end Subject

/-- A graph that cannot be tabulated is rejected with nothing counted. -/
theorem iterate_of_tabulate_error (h : (Subject.tabulate g settings).run w = (.error e, v)) :
    (iterate g settings stop counters).run w = ({ fault := e, counters }, v) := run_bind_of_eq h

section Steady

variable (hg : g.Steady I) (hstop : Query.Polls stop I) (hw : I w)
include hg hstop hw

/-- **An enumeration one after the other** is rejected only if the graph could not be tabulated. -/
theorem iterate_rejected {outcome : Outcome}
    (hrun : (iterate g settings stop counters).run w = (outcome, v)) (h : outcome.RejectedFor e) :
    (Subject.tabulate g settings).run w = (.error e, v) ∧ outcome = { fault := e, counters } := by
  cases htabulate : (Subject.tabulate g settings).run w with
  | mk answer u =>
    cases answer with
    | error e' =>
      rw [iterate_of_tabulate_error htabulate] at hrun
      obtain ⟨rfl, rfl⟩ := Prod.mk.inj hrun
      obtain rfl := Option.some.inj h.1
      exact ⟨rfl, rfl⟩
    | ok s =>
      obtain ⟨hu, hs⟩ := Subject.surveys_of_tabulate hg hw htabulate
      obtain ⟨result, p, v', hfinish, -⟩ := hs.finish_succeeds hstop (hs.search_keepsTo settings)
        { counters } u (Progress.keepsTo_of_empty rfl) hu
      have hiterate : (iterate g settings stop counters).run w = _ :=
        (run_bind_of_eq htabulate).trans (run_bind_of_eq (Searching.run_askFrom hfinish))
      rw [hiterate] at hrun
      obtain ⟨rfl, -⟩ := Prod.mk.inj hrun
      refine absurd h (Outcome.not_rejectedFor fun e' he' => ?_)
      cases result with
      | none => exact ⟨[], (Option.some.inj he').symm⟩
      | some b => cases he'

/-- **The same if the cliques are handed over as a set.** -/
theorem enumerate_rejected {outcome : Outcome}
    (hrun : (enumerate g settings stop counters).run w = (outcome, v)) (h : outcome.RejectedFor e) :
    (Subject.tabulate g settings).run w = (.error e, v) ∧ outcome = { fault := e, counters } := by
  cases hiterate : (iterate g settings stop counters).run w with
  | mk o u =>
    rw [enumerate_of_iterate hiterate] at hrun
    obtain ⟨rfl, rfl⟩ := Prod.mk.inj hrun
    obtain ⟨htabulate, rfl⟩ := iterate_rejected hg hstop hw hiterate h.of_asSet
    exact ⟨htabulate, Outcome.asSet_of_rejects h.2 counters⟩

end Steady

/-! ### Clique by clique -/

/-- An enumeration that has been resumed: it has ended, or goes on with a search that is answered. -/
def OpenEnumeration.Answered (g : Access σ) (I : σ → Prop) : OpenEnumeration → Prop
  | notStarted => False
  | suspended s rest p => s.Surveys g I ∧
      rest.KeepsTo (g.Charted I s.oracle.bound) True (fun _ => True) ∧
      p.KeepsTo (g.Charted I s.oracle.bound)
  | ended => True

/-- A resumption that is not rejected and leaves an enumeration that will not be. -/
structure Resumption.Answered (r : Resumption) (g : Access σ) (I : σ → Prop) : Prop where
  state : r.state.Answered g I
  answer : ∀ e, r.answer = .error e → ¬e.Rejects

namespace OpenEnumeration

variable (hstop : Query.Polls stop I)
include hstop

/-- **Going on with a search** that is answered. -/
theorem proceed_answered (hs : s.Surveys g I) {rest : Run Vertex Unit} {p : Progress}
    (hrest : rest.KeepsTo (g.Charted I s.oracle.bound) True fun _ => True)
    (hp : p.KeepsTo (g.Charted I s.oracle.bound)) (hw : I w) (reports : List Report) :
    ∃ r v, (proceed s g stop reports rest p).run w = (r, v) ∧ I v ∧ r.Answered g I := by
  obtain ⟨pause, p', v, hnext, hp', hv, hpause⟩ := hs.next_succeeds hstop hrest p w hp hw
  refine ⟨_, v, run_bind_of_eq (Searching.run_askFrom hnext), hv, ?_⟩
  cases pause with
  | clique c rest' => exact ⟨⟨hs, hpause c rest' rfl, hp'⟩, fun e he => by cases he⟩
  | done b => exact ⟨trivial, fun e he => by cases he⟩
  | stopped =>
    refine ⟨trivial, fun e he hrejects => ?_⟩
    exact hrejects [] (Except.error.inj he).symm

variable (settings) in
/-- **Resuming time and again.** -/
theorem again_answered {r : Resumption} (hr : r.Answered g I) (hw : I w) (n : Nat) :
    ∃ r' v, (again g settings stop n r).run w = (r', v) ∧ r'.Answered g I := by
  induction n generalizing r w with
  | zero => exact ⟨r, w, rfl, hr⟩
  | succ n ih =>
    have hresume : ∃ r' v, (resume g settings stop r.counters r.state).run w = (r', v) ∧ I v ∧
        r'.Answered g I := by
      have hstate := hr.state
      cases hsuspended : r.state with
      | notStarted =>
        rw [hsuspended] at hstate
        exact hstate.elim
      | suspended s rest p =>
        rw [hsuspended] at hstate
        obtain ⟨hs, hrest, hp⟩ := hstate
        exact proceed_answered hstop hs hrest (p := { p with counters := r.counters }) hp hw []
      | ended => exact ⟨_, w, rfl, hw, trivial, fun e he => by cases he⟩
    obtain ⟨r', v, hresume, hv, hr'⟩ := hresume
    rw [again, run_bind_of_eq hresume]
    exact ih hr' hv

/-- **An enumeration that is resumed** is rejected only the first time, if the graph could not be
tabulated. -/
theorem resumption_rejected (hg : g.Steady I) (hw : I w) {n : Nat} {r : Resumption}
    (hrun : (resumption g settings stop n counters).run w = (r, v)) (he : r.answer = .error e)
    (hrejects : e.Rejects) : n = 0 ∧ (Subject.tabulate g settings).run w = (.error e, v) ∧
      r = { answer := .error e, state := .ended, counters } := by
  cases htabulate : (Subject.tabulate g settings).run w with
  | mk answer u =>
    cases answer with
    | error e' =>
      have hresume : (resume g settings stop counters .notStarted).run w
          = ({ answer := .error e', state := .ended, counters }, u) := run_bind_of_eq htabulate
      have hagain : (resumption g settings stop n counters).run w
          = (again g settings stop n { answer := .error e', state := .ended, counters }).run u :=
        run_bind_of_eq hresume
      rw [hagain] at hrun
      cases n with
      | zero =>
        obtain ⟨rfl, rfl⟩ := Prod.mk.inj hrun
        obtain rfl := Except.error.inj he
        exact ⟨rfl, rfl, rfl⟩
      | succ n =>
        rw [again_of_ended rfl] at hrun
        obtain ⟨rfl, -⟩ := Prod.mk.inj hrun
        cases he
    | ok s =>
      obtain ⟨hu, hs⟩ := Subject.surveys_of_tabulate hg hw htabulate
      obtain ⟨r', v', hproceed, hv', hr'⟩ := proceed_answered hstop hs (hs.search_keepsTo settings)
        (p := { counters }) (Progress.keepsTo_of_empty rfl) hu [s.report]
      obtain ⟨r'', v'', hagain, hr''⟩ := again_answered settings hstop hr' hv' n
      have hresume : (resume g settings stop counters .notStarted).run w = (r', v') :=
        (run_bind_of_eq htabulate).trans hproceed
      have hresumption : (resumption g settings stop n counters).run w = (r'', v'') :=
        (run_bind_of_eq hresume).trans hagain
      rw [hresumption] at hrun
      obtain ⟨rfl, -⟩ := Prod.mk.inj hrun
      exact absurd hrejects (hr''.answer e he)

end OpenEnumeration

/-! ### Branches -/

/-- The outcome of an enumeration whose number of workers is refused after the root of its search has been
split into so many branches. -/
def Outcome.ofRefusedWorkers (s : Subject) (counters : Counters) (branches : Nat) (e : Fault) : Outcome where
  fault := e
  counters := counters + { calls := 1 } + { branches }
  reports := [s.report]

/-- **The two ways in which an enumeration in branches is rejected**: the graph could not be tabulated, or
it has nodes and the number of workers is refused; the root and its branches have been counted then. -/
inductive RejectedInBranches (g : Access σ) (settings : Settings) (counters : Counters) (w : σ)
    (e : Fault) : Outcome → σ → Prop
  | untabulated {v : σ} (h : (Subject.tabulate g settings).run w = (.error e, v)) :
      RejectedInBranches g settings counters w e { fault := e, counters } v
  | workers {s : Subject} {u v : σ} (h : (Subject.tabulate g settings).run w = (.ok s, u))
      (hne : s.roster.vertices ≠ []) (hworkers : settings.requireWorkers = .error e) (branches : Nat) :
      RejectedInBranches g settings counters w e
        (.ofRefusedWorkers s counters branches e) v

/-- **Nothing is polled** while branches are prepared: it does not matter how polls would be answered. -/
theorem prepareBranches_congr (stop stop' : Nat → Query σ Bool) :
    prepareBranches g settings stop counters = prepareBranches g settings stop' counters := by
  have hfinish : ∀ s : Subject,
      ((Subject.plan settings).topBranches s.roster.vertices).finish (s.conductor g stop)
        = ((Subject.plan settings).topBranches s.roster.vertices).finish (s.conductor g stop') :=
    fun s => (Plan.topBranches_keepsTo (Subject.plan settings) fun _ _ => trivial).finish_congr rfl rfl rfl
  unfold prepareBranches
  simp only [hfinish]

theorem prepareBranches_of_tabulate_error (h : (Subject.tabulate g settings).run w = (.error e, v)) :
    (prepareBranches g settings stop counters).run w = (.inl { fault := e, counters }, v) :=
  run_bind_of_eq h

theorem prepareBranches_ofNothing (h : (Subject.tabulate g settings).run w = (.ok s, v))
    (hempty : s.roster.vertices = []) :
    (prepareBranches g settings stop counters).run w = (.inl (.ofNothing s counters), v) := by
  have hisEmpty : s.roster.vertices.isEmpty = true := by rw [hempty]; rfl
  rw [Outcome.ofNothing, Counters.add_cliques, Counters.add_calls]
  refine (run_bind_of_eq h).trans ?_
  simp only [hisEmpty]
  rfl

section Steady

variable (hg : g.Steady I) (hstop : Query.Polls stop I) (hw : I w)
include hstop

variable (counters) in
/-- **A tabulated graph with nodes is split into branches**, and then the number of workers decides. -/
theorem prepareBranches_split (h : (Subject.tabulate g settings).run w = (.ok s, v))
    (hs : s.Surveys g I) (hv : I v) (hne : s.roster.vertices ≠ []) : ∃ roots u, I u ∧
      (∀ n ∈ roots, n.Within (g.Charted I s.oracle.bound)) ∧
      (∀ e, settings.requireWorkers = .error e → (prepareBranches g settings stop counters).run w
        = (.inl (.ofRefusedWorkers s counters roots.length e), u)) ∧
      (settings.requireWorkers = .ok () → (prepareBranches g settings stop counters).run w
        = (.inr { subject := s, roots
                  counters := counters + { calls := 1 } + { branches := roots.length }
                  reports := [s.report] }, u)) := by
  have hisEmpty : s.roster.vertices.isEmpty = false := List.isEmpty_eq_false_iff.2 hne
  have hsplit : ((Subject.plan settings).topBranches s.roster.vertices).KeepsTo
      (g.Charted I s.oracle.bound) False fun roots => ∀ n ∈ roots, n.Within (g.Charted I s.oracle.bound) :=
    Plan.topBranches_keepsTo _ fun _ hu => hs.charted hu
  obtain ⟨result, p, u, hfinish, -, hu, hroots, hstopped⟩ := hs.finish_succeeds hstop hsplit
    { counters := counters + { calls := 1 } } v (Progress.keepsTo_of_empty rfl) hv
  cases result with
  | none => exact (hstopped rfl).elim
  | some roots =>
    refine ⟨roots, u, hu, hroots roots rfl, fun e hworkers => ?_, fun hworkers => ?_⟩ <;>
    · simp only [Outcome.ofRefusedWorkers, Counters.add_branches, Counters.add_calls] at hfinish ⊢
      refine (run_bind_of_eq h).trans ?_
      simp only [hisEmpty]
      refine (run_bind_of_eq (Searching.run_askFrom hfinish)).trans ?_
      simp only [hworkers]
      rfl

/-- **A branch that is answered** does not fail. -/
theorem runBranch_answered (hs : s.Surveys g I) {root : SearchNode Vertex}
    (hroot : root.Within (g.Charted I s.oracle.bound)) (hw : I w) (polls : Nat) :
    ∃ b polls' v, (s.runBranch g settings stop root polls).run w = ((b, polls'), v) ∧ I v ∧
      ∀ fault, b.ending ≠ .failed fault := by
  obtain ⟨result, p, v, hfinish, -, hv, -⟩ := hs.finish_succeeds hstop
    (Subject.searchBelow_keepsTo settings hroot) { polls } w (Progress.keepsTo_of_empty rfl) hw
  refine ⟨_, _, v, run_bind_of_eq (Searching.run_askFrom hfinish), hv, fun fault hfailed => ?_⟩
  cases result with
  | none => cases hfailed
  | some b => cases hfailed

variable (settings) in
/-- **Branches that are answered** do not fail, whatever becomes of those that wait. -/
theorem runBranches_answered (hs : s.Surveys g I) (discipline : Discipline)
    {roots : List (SearchNode Vertex)}
    (hroots : ∀ n ∈ roots, n.Within (g.Charted I s.oracle.bound)) (dropping : Bool) (polls : Nat)
    (hw : I w) : ∃ branches polls' v,
      (s.runBranches g settings stop discipline roots dropping polls).run w = ((branches, polls'), v) ∧
      ∀ b ∈ branches, ∀ fault, b.ending ≠ .failed fault := by
  induction roots generalizing dropping polls w with
  | nil => exact ⟨[], polls, w, rfl, fun b hb => absurd hb List.not_mem_nil⟩
  | cons root roots ih =>
    obtain ⟨hroot, hroots⟩ := List.forall_mem_cons.1 hroots
    unfold Subject.runBranches
    cases dropping with
    | true =>
      obtain ⟨branches, polls', v, hrun, hbranches⟩ := ih hroots true polls hw
      refine ⟨_, _, v, run_bind_of_eq hrun, List.forall_mem_cons.2 ⟨fun fault hfailed => ?_, hbranches⟩⟩
      cases hfailed
    | false =>
      obtain ⟨b, polls', v, hrun, hv, hb⟩ := runBranch_answered hstop hs hroot hw polls
      obtain ⟨branches, polls'', v', hrest, hbranches⟩ :=
        ih hroots (b.ending.isBad && discipline = .dropWaiting) polls' hv
      exact ⟨_, _, v', (run_bind_of_eq hrun).trans (run_bind_of_eq hrest),
        List.forall_mem_cons.2 ⟨hb, hbranches⟩⟩

omit hstop in
theorem Outcome.not_rejectedFor_ofBranches {branches : List Branch}
    (h : ∀ b ∈ branches, ∀ fault, b.ending ≠ .failed fault) (polls : Nat) (reports : List Report) :
    ¬(Outcome.ofBranches counters polls reports branches).RejectedFor e := by
  refine not_rejectedFor fun e' he' => ?_
  rw [fault_ofBranches counters polls reports h] at he'
  split at he'
  · exact ⟨_, (Option.some.inj he').symm⟩
  · cases he'

variable (settings counters) in
/-- **What is ready to be searched, or over already**: an enumeration that is over has been rejected in
one of the two ways, if it has been rejected. -/
theorem prepareBranches_cases (hg : g.Steady I) (hw : I w) :
    (∃ outcome v, (prepareBranches g settings stop counters).run w = (.inl outcome, v) ∧
      ∀ e, outcome.RejectedFor e → RejectedInBranches g settings counters w e outcome v) ∨
    ∃ batch v, (prepareBranches g settings stop counters).run w = (.inr batch, v) ∧ I v ∧
      batch.subject.Surveys g I ∧
      ∀ n ∈ batch.roots, n.Within (g.Charted I batch.subject.oracle.bound) := by
  cases htabulate : (Subject.tabulate g settings).run w with
  | mk answer v =>
    cases answer with
    | error e' =>
      refine .inl ⟨_, v, prepareBranches_of_tabulate_error htabulate, fun e he => ?_⟩
      obtain rfl := Option.some.inj he.1
      exact .untabulated htabulate
    | ok s =>
      obtain ⟨hv, hs⟩ := Subject.surveys_of_tabulate hg hw htabulate
      by_cases hempty : s.roster.vertices = []
      · exact .inl ⟨_, v, prepareBranches_ofNothing htabulate hempty, fun e he => by cases he.1⟩
      · obtain ⟨roots, u, hu, hroots, hrefused, haccepted⟩ :=
          prepareBranches_split counters hstop htabulate hs hv hempty
        cases hworkers : settings.requireWorkers with
        | error e' =>
          refine .inl ⟨_, u, hrefused e' hworkers, fun e he => ?_⟩
          obtain rfl := Option.some.inj he.1
          exact .workers htabulate hempty hworkers roots.length
        | ok =>
          exact .inr ⟨_, u, haccepted hworkers, hu, hs, hroots⟩

include hg hw

/-- **An enumeration in branches** is rejected in one of the two ways. -/
theorem enumerateInBranches_rejected {discipline : Discipline} {outcome : Outcome}
    (hrun : (enumerateInBranches g settings stop discipline counters).run w = (outcome, v))
    (h : outcome.RejectedFor e) : RejectedInBranches g settings counters w e outcome v := by
  rcases prepareBranches_cases settings counters hstop hg hw with
    ⟨outcome', v', hprepare, hrejected⟩ | ⟨batch, v', hprepare, hv', hs, hroots⟩
  · have hover : (enumerateInBranches g settings stop discipline counters).run w = (outcome', v') :=
      run_bind_of_eq hprepare
    rw [hover] at hrun
    obtain ⟨rfl, rfl⟩ := Prod.mk.inj hrun
    exact hrejected e h
  · obtain ⟨branches, polls, u, hbranches, hnone⟩ :=
      runBranches_answered settings hstop hs discipline hroots false 0 hv'
    have hsearched : (enumerateInBranches g settings stop discipline counters).run w
        = (.ofBranches batch.counters polls batch.reports branches, u) :=
      (run_bind_of_eq hprepare).trans (run_bind_of_eq hbranches)
    rw [hsearched] at hrun
    obtain ⟨rfl, -⟩ := Prod.mk.inj hrun
    exact absurd h (Outcome.not_rejectedFor_ofBranches hnone polls batch.reports)

end Steady

/-! ### Pools -/

/-- A branch that has not failed, and goes on with a search that keeps to `S` if it is running. -/
def Stage.KeepsTo (S : Vertex → Prop) : Stage → Prop
  | .running rest => rest.KeepsTo S True fun _ => True
  | .ended (.failed _) => False
  | _ => True

/-- The invariant of a branch that does not fail. -/
structure Task.KeepsTo (S : Vertex → Prop) (t : Task) : Prop where
  root : t.root.Within S
  hoods : t.progress.KeepsTo S
  stage : t.stage.KeepsTo S

/-- The invariant of a pool none of whose branches fails. -/
structure Pool.Answered (pool : Pool σ) (s : Subject) (g : Access σ) (I : σ → Prop) : Prop where
  world : I pool.world
  tasks : ∀ t ∈ pool.tasks, t.KeepsTo (g.Charted I s.oracle.bound)

namespace Pool

variable {pool pool' : Pool σ}

theorem Answered.replace (h : pool.Answered s g I) (i : Nat) {t : Task}
    (ht : t.KeepsTo (g.Charted I s.oracle.bound)) (polls : Nat) (hw : I w) :
    Answered ⟨pool.tasks.set i t, polls, w⟩ s g I where
  world := hw
  tasks u hu := by
    rcases List.mem_or_eq_of_mem_set hu with hu | rfl
    · exact h.tasks u hu
    · exact ht

theorem ofBatch_answered {batch : Batch}
    (hroots : ∀ n ∈ batch.roots, n.Within (g.Charted I s.oracle.bound)) (hw : I w) :
    (ofBatch batch w).Answered s g I where
  world := hw
  tasks t ht := by
    obtain ⟨n, hn, rfl⟩ := List.mem_map.1 ht
    exact ⟨hroots n hn, Progress.keepsTo_of_empty rfl, trivial⟩

variable (hstop : Query.Polls stop I) (hs : s.Surveys g I)
include hstop hs

/-- **Every move keeps the invariant**: no request is refused. -/
theorem Answered.move (h : pool.Answered s g I) (hmove : pool.Moves s g settings stop pool') :
    pool'.Answered s g I := by
  cases hmove with
  | @start i t ht hstage hroom =>
    have htask := h.tasks t (List.mem_of_getElem? ht)
    have hstarted : Task.KeepsTo (g.Charted I s.oracle.bound)
        { t with stage := .running (Subject.searchBelow settings t.root) } :=
      ⟨htask.root, htask.hoods, Subject.searchBelow_keepsTo settings htask.root⟩
    exact h.replace i hstarted pool.polls h.world
  | @finish i t ht hstage =>
    have htask := h.tasks t (List.mem_of_getElem? ht)
    have hfinished : Task.KeepsTo (g.Charted I s.oracle.bound) { t with stage := .ended .finished } :=
      ⟨htask.root, htask.hoods, trivial⟩
    exact h.replace i hfinished pool.polls h.world
  | @request i t rest ht hstage hdone =>
    have htask := h.tasks t (List.mem_of_getElem? ht)
    have hrunning := htask.stage
    rw [hstage] at hrunning
    obtain ⟨rest?, p, v, hstep, hp, hv, hrest?⟩ := hs.step_succeeds hstop hrunning
      { t.progress with polls := pool.polls } pool.world htask.hoods h.world
    have hasked : Task.KeepsTo (g.Charted I s.oracle.bound)
        { t with stage := .after (.ok rest?), progress := p } := by
      refine ⟨htask.root, hp, ?_⟩
      cases rest? with
      | some next => exact hrest? next rfl
      | none => trivial
    rw [request_eq rfl hstep]
    exact h.replace i hasked p.polls hv
  | @drop i t ht hstage hbad =>
    have htask := h.tasks t (List.mem_of_getElem? ht)
    have hdropped : Task.KeepsTo (g.Charted I s.oracle.bound) { t with stage := .ended .dropped } :=
      ⟨htask.root, htask.hoods, trivial⟩
    exact h.replace i hdropped pool.polls h.world

/-- **Every schedule keeps the invariant.** -/
theorem Answered.perform (h : pool.Answered s g I) {moves : List Move}
    (hperform : pool.perform s g settings stop moves = some pool') : pool'.Answered s g I :=
  perform_keeps (fun pool _ (hpool : Answered pool s g I) hmove => hpool.move hstop hs hmove) h hperform

end Pool

/-- **An enumeration on a pool** is rejected in one of the two ways, whatever the schedule. -/
theorem enumerateOnPool_rejected (hg : g.Steady I) (hstop : Query.Polls stop I) (hw : I w)
    {moves : List Move} {branches : List Branch} {outcome : Outcome}
    (hsettled : enumerateOnPool g settings stop counters moves w = .settled branches outcome v)
    (h : outcome.RejectedFor e) : RejectedInBranches g settings counters w e outcome v := by
  unfold enumerateOnPool at hsettled
  rcases prepareBranches_cases settings counters hstop hg hw with
    ⟨outcome', v', hprepare, hrejected⟩ | ⟨batch, v', hprepare, hv', hs, hroots⟩
  · simp only [hprepare] at hsettled
    split at hsettled
    · obtain ⟨-, rfl, rfl⟩ := Standing.settled.inj hsettled
      exact hrejected e h
    · cases hsettled
  · simp only [hprepare] at hsettled
    split at hsettled
    · cases hsettled
    · rename_i pool hperform
      have hpool : pool.Answered batch.subject g I :=
        (Pool.ofBatch_answered hroots hv').perform hstop hs hperform
      unfold Batch.standing at hsettled
      split at hsettled
      · rename_i branches' hbranches
        obtain ⟨rfl, rfl, rfl⟩ := Standing.settled.inj hsettled
        refine absurd h (Outcome.not_rejectedFor_ofBranches (fun b hb fault hfailed => ?_) _ _)
        obtain ⟨t, ht, htb⟩ := Pool.exists_task hbranches b hb
        obtain ⟨ending, hstage, rfl⟩ := Task.branch?_eq_some.1 htb
        have hkept := (hpool.tasks t ht).stage
        rw [hstage, show ending = .failed fault from hfailed] at hkept
        exact hkept
      · cases hsettled

/-! ### All together -/

/-- **How enumerations of a graph are rejected.**  One after the other, handed over as a set or resumed
time and again, an enumeration is rejected only if the graph could not be tabulated; in branches, on a
pool or not, there is one more way.  An enumeration of a graph that could not be tabulated has counted
nothing, has made no poll and has left the state that tabulating leads to.

The number of workers is refused only if the graph has nodes, and then it always is: a call and the
branches have been counted.  No poll has been made: with any other stop check it would be the same. -/
structure Rejections (g : Access σ) (settings : Settings) (stop : Nat → Query σ Bool)
    (counters : Counters) (w : σ) : Prop where
  iterated : ∀ outcome v e, (iterate g settings stop counters).run w = (outcome, v) →
    outcome.RejectedFor e →
    (Subject.tabulate g settings).run w = (.error e, v) ∧ outcome = { fault := e, counters }
  enumerated : ∀ outcome v e, (enumerate g settings stop counters).run w = (outcome, v) →
    outcome.RejectedFor e →
    (Subject.tabulate g settings).run w = (.error e, v) ∧ outcome = { fault := e, counters }
  resumed : ∀ n r v e, (OpenEnumeration.resumption g settings stop n counters).run w = (r, v) →
    r.answer = .error e → e.Rejects → n = 0 ∧ (Subject.tabulate g settings).run w = (.error e, v) ∧
      r = { answer := .error e, state := .ended, counters }
  inBranches : ∀ discipline outcome v e,
    (enumerateInBranches g settings stop discipline counters).run w = (outcome, v) →
    outcome.RejectedFor e → RejectedInBranches g settings counters w e outcome v
  onPool : ∀ moves branches outcome v e,
    enumerateOnPool g settings stop counters moves w = .settled branches outcome v →
    outcome.RejectedFor e → RejectedInBranches g settings counters w e outcome v
  untabulated : ∀ e v, (Subject.tabulate g settings).run w = (.error e, v) →
    (iterate g settings stop counters).run w = ({ fault := e, counters }, v) ∧
    (∀ discipline, (enumerateInBranches g settings stop discipline counters).run w
      = ({ fault := e, counters }, v)) ∧
    enumerateOnPool g settings stop counters [] w = .settled [] { fault := e, counters } v
  withoutNodes : ∀ s v, (Subject.tabulate g settings).run w = (.ok s, v) → s.roster.vertices = [] →
    (∀ discipline, (enumerateInBranches g settings stop discipline counters).run w
      = (.ofNothing s counters, v)) ∧
    enumerateOnPool g settings stop counters [] w = .settled [] (.ofNothing s counters) v
  refused : ∀ s u e, (Subject.tabulate g settings).run w = (.ok s, u) → s.roster.vertices ≠ [] →
    settings.requireWorkers = .error e → ∃ branches v, ∀ stop',
      (∀ discipline, (enumerateInBranches g settings stop' discipline counters).run w
        = (.ofRefusedWorkers s counters branches e, v)) ∧
      enumerateOnPool g settings stop' counters [] w
        = .settled [] (.ofRefusedWorkers s counters branches e) v

/-- An enumeration that is over before its branches are searched is over on a pool as well. -/
theorem over_of_prepareBranches {outcome : Outcome}
    (h : (prepareBranches g settings stop counters).run w = (.inl outcome, v)) :
    (∀ discipline, (enumerateInBranches g settings stop discipline counters).run w = (outcome, v)) ∧
      enumerateOnPool g settings stop counters [] w = .settled [] outcome v :=
  ⟨fun _ => run_bind_of_eq h, enumerateOnPool_of_over h []⟩

variable (counters) in
/-- **A number of workers that is refused** ends an enumeration of a graph with nodes after its root has
been split. -/
theorem enumerateInBranches_refused (hg : g.Steady I) (hstop : Query.Polls stop I) (hw : I w)
    (htabulate : (Subject.tabulate g settings).run w = (.ok s, v)) (hne : s.roster.vertices ≠ [])
    (hworkers : settings.requireWorkers = .error e) : ∃ branches u, ∀ stop',
      (∀ discipline, (enumerateInBranches g settings stop' discipline counters).run w
        = (.ofRefusedWorkers s counters branches e, u)) ∧
      enumerateOnPool g settings stop' counters [] w
        = .settled [] (.ofRefusedWorkers s counters branches e) u := by
  obtain ⟨hv, hs⟩ := Subject.surveys_of_tabulate hg hw htabulate
  obtain ⟨roots, u, -, -, hrefused, -⟩ :=
    prepareBranches_split counters hstop htabulate hs hv hne
  refine ⟨roots.length, u, fun stop' => over_of_prepareBranches ?_⟩
  rw [prepareBranches_congr stop' stop]
  exact hrefused e hworkers

/-- **What a rejected enumeration leaves behind.**  Take a graph that gives the same answers again, and a
stop check that answers every poll.  However its maximal cliques are enumerated, an enumeration that is
rejected has counted nothing and has made no poll, unless the number of workers is refused. -/
theorem enumeration_rejected (hg : g.Steady I) (hstop : Query.Polls stop I) (hw : I w)
    (settings : Settings) (counters : Counters) : Rejections g settings stop counters w where
  iterated _ _ _ hrun h := iterate_rejected hg hstop hw hrun h
  enumerated _ _ _ hrun h := enumerate_rejected hg hstop hw hrun h
  resumed _ _ _ _ hrun he hrejects := OpenEnumeration.resumption_rejected hstop hg hw hrun he hrejects
  inBranches _ _ _ _ hrun h := enumerateInBranches_rejected hg hstop hw hrun h
  onPool _ _ _ _ _ hsettled h := enumerateOnPool_rejected hg hstop hw hsettled h
  untabulated _ _ h := ⟨iterate_of_tabulate_error h,
    over_of_prepareBranches (prepareBranches_of_tabulate_error h)⟩
  withoutNodes _ _ h hempty := over_of_prepareBranches (prepareBranches_ofNothing h hempty)
  refused _ _ _ htabulate hne hworkers :=
    enumerateInBranches_refused counters hg hstop hw htabulate hne hworkers

theorem Thing.lopsided_steady : (Thing.lopsided.access {}).Steady fun _ => True := by
  refine Thing.steady (Base.tableGraph_steady 0 {} _ (by decide)) fun f hf x => ?_
  rw [List.mem_singleton.1 hf]
  refine Filter.rule_steadyAt 0 (fun y z hyz => ?_) _ x
  rw [Rule.verdict, Rule.verdict, BEq.congr_left hyz]

/-- No workers on a graph whose neighbour lists are of every kind, with counters that have counted before. -/
theorem enumeration_rejected_lopsided :
    (Thing.lopsided.access {}).Steady (fun _ => True) ∧
      Query.Polls (fun _ => pure true : Nat → Query World Bool) (fun _ => True) ∧
      Rejections (Thing.lopsided.access {}) { parallelWorkers := .integer 0 } (fun _ => pure true)
        { calls := 3 } {} :=
  have hstop : Query.Polls (fun _ => pure true : Nat → Query World Bool) fun _ => True :=
    fun _ v _ => ⟨true, v, trivial, rfl⟩
  ⟨Thing.lopsided_steady, hstop, enumeration_rejected Thing.lopsided_steady hstop trivial _ _⟩

/-- **No workers on a graph with one node**: the enumeration is rejected, and a call has been counted. -/
theorem enumerateInBranches_counts_lone : ∃ outcome v,
    (enumerateInBranches (Thing.lone.access {}) { parallelWorkers := .integer 0 } (fun _ => pure false)
      .dropWaiting {}).run ({} : World) = (outcome, v) ∧
    outcome.RejectedFor .noWorkers ∧ outcome.counters.calls = 1 ∧ outcome.counters ≠ {} := by
  have hsteady : (Thing.lone.access {}).Steady fun _ => True :=
    Base.tableGraph_steady 0 {} _ (by decide)
  have hfits : (Thing.lone.access {}).FitsIn { parallelWorkers := .integer 0 } :=
    Access.fitsIn_of_le rfl (by decide) (by decide) (by decide) (by decide)
  have hstop : Query.Polls (fun _ => pure false : Nat → Query World Bool) fun _ => True :=
    fun _ v _ => ⟨false, v, trivial, rfl⟩
  obtain ⟨o, -, htabulate⟩ := Subject.tabulate_answers (Thing.lone_orderly {}) hfits
  have hne : ((Thing.lone.access {}).roster {}).vertices ≠ [] :=
    fun h => absurd (Access.vertices_eq_nil_iff.1 h) (by decide)
  obtain ⟨branches, v, hrefused⟩ := enumerateInBranches_refused {} hsteady hstop trivial
    htabulate hne rfl
  have hcalls : ∀ c : Counters, c.calls = 1 → c ≠ {} := by
    rintro c hc rfl
    cases hc
  refine ⟨_, v, (hrefused _).1 _, ⟨rfl, fun found hfound => by cases hfound⟩, rfl, hcalls _ rfl⟩

end MaximalCliques
