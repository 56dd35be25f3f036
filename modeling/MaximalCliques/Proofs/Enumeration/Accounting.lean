import MaximalCliques.Proofs.Enumeration.Cancellation
import MaximalCliques.Proofs.Enumeration.Interruption
import MaximalCliques.Proofs.Search.Accounts

/-!
# Every call, branch, clique and poll is accounted for

* **`iterate_accounts`** — an enumeration is accounted for when it is over, and each time it is resumed.
* **`Task.polls`**, **`Pool.PollsAdd`** — the polls of a pool are those of its branches; every move keeps
  that.
* **`Branch.Sound.calls_eq`** — a branch that has started counts one call more than branches.
* **`Outcome.AccountsFor`** — an outcome that accounts for the branches on a pool.
* **`enumeration_accounts`** — both ways to enumerate account for what they do, whether or not they are
  cancelled.
-/

namespace MaximalCliques

variable {σ : Type} {g : Access σ} {w : σ} {o : Oracle} {settings : Settings}

/-! ### One after the other -/

/-- **What is delivered before a stop** is the beginning of what would be discovered without it. -/
theorem Subject.delivered_trail_prefix (g : Access σ) (w : σ) (o : Oracle) (settings : Settings)
    (answers : Nat → Bool) {trail : List (Event Vertex) × Option Unit}
    (htrail : (searchBelow settings (root ⟨o, g.roster w⟩)).trail (g.hoodAt w o) answers 0 = trail) :
    Event.delivered trail.1 <+: discoveries g w o settings := by
  rw [searchBelow_eq] at htrail
  obtain ⟨es, fs, hbegins, -, -, heq, -, hnone, -⟩ :=
    (plan settings).exists_trail_eq (g.hoodAt w o) (root ⟨o, g.roster w⟩) answers htrail
  rw [heq, Event.delivered_visit, Event.delivered_append, hnone, List.append_nil, discoveries,
    discoveriesBelow, historyBelow_eq]
  exact hbegins.filterMap Event.clique?

theorem Subject.delivered_trail_of_isSome (g : Access σ) (w : σ) (o : Oracle) (settings : Settings)
    (answers : Nat → Bool) {trail : List (Event Vertex) × Option Unit}
    (htrail : (searchBelow settings (root ⟨o, g.roster w⟩)).trail (g.hoodAt w o) answers 0 = trail)
    (hended : trail.2.isSome = true) : Event.delivered trail.1 = discoveries g w o settings := by
  rcases Run.trail_cases (g.hoodAt w o) (searchBelow settings (root ⟨o, g.roster w⟩)) answers with h | h
  · rw [← htrail, h]
    rfl
  · obtain ⟨_, _, _, _, _, _, _, -, h⟩ := h
    rw [← htrail, h] at hended
    exact Bool.noConfusion hended

/-- **An enumeration is accounted for** when it is over, whether or not it has been cancelled, and at each
clique that it delivers. -/
theorem Subject.trail_accounts (g : Access σ) (w : σ) (o : Oracle) (settings : Settings)
    (answers : Nat → Bool) (counters : Counters) {trail : List (Event Vertex) × Option Unit}
    (htrail : (searchBelow settings (root ⟨o, g.roster w⟩)).trail (g.hoodAt w o) answers 0 = trail) :
    counters.Accounts (counters + Event.tally trail.1) (Event.delivered trail.1).length
        (Event.polls trail.1) (if trail.2.isSome then 0 else 1) ∧
      ∀ k < (Event.delivered trail.1).length,
        counters.Accounts (counters + Event.tally (Event.through k trail.1)) (k + 1)
          (Event.polls (Event.through k trail.1)) 0 := by
  rw [searchBelow_eq] at htrail
  exact (plan settings).accounts_trail (g.hoodAt w o) _ answers counters htrail

/-! ### On a pool -/

namespace Run

/-- A request is stopped by a poll that is answered so, and by nothing else. -/
theorem stops_advance {α β : Type} (hoods : α → Hood α) (goOn : Bool) (run : Run α β) :
    Event.stops (run.advance hoods goOn).1 = if (run.advance hoods goOn).2.isSome then 0 else 1 := by
  cases run with
  | branch n v rest => cases goOn <;> rfl
  | _ => rfl

end Run

/-- How often a branch has polled: at each branch that it has counted, and once more if it has come to a
bad end. -/
def Task.polls (t : Task) : Int := t.progress.counters.branches + if t.isBad then 1 else 0

def Task.totalPolls (tasks : List Task) : Int := tasks.foldr (fun t n => t.polls + n) 0

/-- Replacing a branch changes the total by what the branch contributes. -/
theorem Task.totalPolls_set {tasks : List Task} {i : Nat} {t : Task} (ht : tasks[i]? = some t)
    (u : Task) : totalPolls (tasks.set i u) = totalPolls tasks + (u.polls - t.polls) := by
  induction tasks generalizing i with
  | nil => cases ht
  | cons t' tasks ih =>
    cases i with
    | zero =>
      cases ht
      show u.polls + totalPolls tasks = t.polls + totalPolls tasks + (u.polls - t.polls)
      omega
    | succ i =>
      show t'.polls + totalPolls (tasks.set i u) = t'.polls + totalPolls tasks + _
      rw [ih ht]
      omega

/-- The polls of a pool are those of its branches. -/
def Pool.PollsAdd (pool : Pool σ) : Prop := (pool.polls : Int) = Task.totalPolls pool.tasks

theorem Pool.ofBatch_pollsAdd (batch : Batch) (w : σ) : (Pool.ofBatch batch w).PollsAdd := by
  show 0 = Task.totalPolls (batch.roots.map _)
  induction batch.roots with
  | nil => rfl
  | cons root roots ih => exact ih.trans (Int.zero_add _).symm

/-- **Every move adds the polls of a branch to those of the pool.** -/
theorem Pool.PollsAdd.move {pool pool' : Pool σ} {roots : List (SearchNode Vertex)}
    {answers : Nat → Bool} (hg : g.Orderly w) (ho : o.Tabulates g w)
    (hpool : pool.Sound g w o settings answers roots) (h : pool.PollsAdd)
    (hmoves : pool.Moves ⟨o, g.roster w⟩ g settings (fun k => pure (answers k)) pool') :
    pool'.PollsAdd := by
  cases hmoves with
  | @start i t ht hstage | @finish i t ht hstage | @drop i t ht hstage =>
    show (pool.polls : Int) = Task.totalPolls (pool.tasks.set i _)
    rw [Task.totalPolls_set ht, h]
    simp [Task.polls, Task.isBad, hstage, Ending.isBad]
  | @request i t rest ht hstage =>
    obtain ⟨es, hsound⟩ := hpool.tasks t (List.mem_of_getElem? ht)
    obtain ⟨p, hstep, hfollows, -⟩ := Subject.step_conducted hg ho answers
      (hsound.events_of_running hstage).1 (p := { t.progress with polls := pool.polls })
      (hsound.hoods.of_hoods_eq rfl)
    have hpolls : p.polls = pool.polls
        + Event.polls (rest.advance (g.hoodAt w o) (!answers pool.polls)).1 := hfollows.polls
    have hbranches : p.counters.branches = t.progress.counters.branches
        + (Event.tally (rest.advance (g.hoodAt w o) (!answers pool.polls)).1).branches := by
      rw [hfollows.counters]
      rfl
    have hstops := rest.stops_advance (g.hoodAt w o) (!answers pool.polls)
    have hmade := Event.polls_eq (rest.advance (g.hoodAt w o) (!answers pool.polls)).1
    have hkept : t.polls = t.progress.counters.branches := by
      simp [Task.polls, Task.isBad, hstage]
    rw [request_eq hpool.world hstep]
    show (p.polls : Int) = Task.totalPolls (pool.tasks.set i _)
    rw [Task.totalPolls_set ht, ← h, hpolls, hkept, Int.natCast_add, hmade, hstops]
    cases (rest.advance (g.hoodAt w o) (!answers pool.polls)).2 with
    | some next =>
      show _ = _ + (p.counters.branches + 0 - t.progress.counters.branches)
      simp only [Option.isSome_some, if_true]
      omega
    | none =>
      show _ = _ + (p.counters.branches + 1 - t.progress.counters.branches)
      simp only [Option.isSome_none, Bool.false_eq_true, if_false]
      omega

/-! ### Branches that have ended -/

def Ending.isStopped : Ending → Bool
  | stopped => true
  | _ => false

def Ending.isDropped : Ending → Bool
  | dropped => true
  | _ => false

def Branch.total (branches : List Branch) : Counters := branches.foldr (fun b c => b.counters + c) {}

/-- **A branch that has started counts one call more than branches**; one that has not counts nothing. -/
theorem Branch.Sound.calls_eq {b : Branch} {es : List (Event Vertex)}
    (h : b.Sound g w o settings es) :
    b.counters.calls = b.counters.branches + if b.ending.isDropped then 0 else 1 := by
  obtain ⟨rest, hbelow, halternate⟩ :=
    ((Subject.plan settings).alternate_search (g.hoodAt w o)).1 b.root
  rw [← Subject.historyBelow_eq] at hbelow
  have hending := h.ending
  rw [h.counters]
  generalize b.ending = ending at hending ⊢
  cases hending with
  | finished =>
    rw [hbelow]
    exact halternate.calls_visit b.root
  | @stopped es n v hprefix =>
    obtain ⟨fs, hfs⟩ := hprefix
    rw [hbelow, List.append_assoc] at hfs
    cases es with
    | nil => cases (List.cons.inj hfs).1
    | cons e es =>
      obtain ⟨rfl, hrest⟩ := List.cons.inj hfs
      rw [← hrest] at halternate
      exact (halternate.of_append_poll.append (.stop .nil)).calls_visit b.root
  | dropped => rfl

/-- **What branches count together**: a branch for each call that is not the first one of a branch, and
the cliques that they have found. -/
theorem Branch.total_eq {branches : List Branch}
    (hsound : ∀ b ∈ branches, ∃ es, b.Sound g w o settings es) :
    (total branches).calls + branches.countP (·.ending.isDropped)
        = (total branches).branches + branches.length ∧
      (total branches).cliques = (branches.flatMap (·.found)).length := by
  induction branches with
  | nil => exact ⟨rfl, rfl⟩
  | cons b branches ih =>
    obtain ⟨es, hes⟩ := hsound b List.mem_cons_self
    obtain ⟨hcalls, hcliques⟩ := ih fun b' hb' => hsound b' (List.mem_cons_of_mem b hb')
    have hfirst := hes.calls_eq
    have hfound : b.counters.cliques = b.found.length := by
      rw [hes.counters, hes.found, Event.cliques_tally]
    constructor
    · show b.counters.calls + (total branches).calls + _
        = b.counters.branches + (total branches).branches + _
      rw [hfirst, List.countP_cons, List.length_cons]
      cases b.ending.isDropped <;> simp only [if_true, Bool.false_eq_true, if_false] <;> omega
    · show b.counters.cliques + (total branches).cliques = _
      rw [hcliques, hfound, List.flatMap_cons, List.length_append, Int.natCast_add]

/-- **The polls of branches that have ended** are the branches that they have counted, and one for each
that has been stopped. -/
theorem Branch.totalPolls_eq {tasks : List Task} {branches : List Branch}
    (h : tasks.map Task.branch? = branches.map some)
    (hfaults : ∀ b ∈ branches, ∀ fault, b.ending ≠ .failed fault) :
    Task.totalPolls tasks = (total branches).branches + branches.countP (·.ending.isStopped) := by
  induction tasks generalizing branches with
  | nil =>
    rw [List.map_eq_nil_iff.1 h.symm]
    rfl
  | cons t tasks ih =>
    cases branches with
    | nil => exact absurd h (by simp)
    | cons b branches =>
      obtain ⟨ht, hrest⟩ := List.cons.inj h
      have hsum := ih hrest fun b' hb' => hfaults b' (List.mem_cons_of_mem b hb')
      have hanswered := hfaults b List.mem_cons_self
      obtain ⟨ending, hstage, rfl⟩ := Task.branch?_eq_some.1 ht
      have hpolls : t.polls = t.progress.counters.branches + if ending.isStopped then 1 else 0 := by
        unfold Task.polls Task.isBad
        rw [hstage]
        cases ending with
        | failed fault => exact absurd rfl (hanswered fault)
        | _ => rfl
      rw [List.countP_cons]
      show t.polls + Task.totalPolls tasks = t.progress.counters.branches + (total branches).branches + _
      rw [hsum, hpolls]
      cases ending.isStopped <;> simp only [if_true, Bool.false_eq_true, if_false] <;> omega

/-- **An outcome that accounts for the branches on a pool.**  The calls that are missing are those of the
branches that never started, and there are none in an enumeration that has not been cancelled; the cliques
are those that are handed over, each once; and the polls are the branches that were expanded below the top
ones, and one for each branch that was stopped. -/
structure Outcome.AccountsFor (outcome : Outcome) (initial : Counters) (branches : List Branch) :
    Prop where
  calls : outcome.counters.branches - initial.branches + 1 - (outcome.counters.calls - initial.calls)
    = branches.countP (·.ending.isDropped)
  complete : outcome.fault = none → branches.countP (·.ending.isDropped) = 0
  cliques : outcome.counters.cliques - initial.cliques = outcome.cliques.length
  handed : outcome.fault = none ∨ outcome.fault = some (.cancelled (outcome.cliques.map Clique.nodes))
  once : outcome.cliques.Pairwise fun c d => Identifier.sameSet c.nodes d.nodes = false
  polls : (outcome.polls : Int) = outcome.counters.branches - initial.branches - branches.length
    + branches.countP (·.ending.isStopped)

theorem Outcome.ofNothing_accountsFor (s : Subject) (initial : Counters) :
    (Outcome.ofNothing s initial).AccountsFor initial [] where
  calls := by
    show initial.branches + 0 + 0 - initial.branches + 1 - (initial.calls + 1 + 0 - initial.calls) = 0
    omega
  complete _ := rfl
  cliques := by
    show initial.cliques + 0 + 1 - initial.cliques = 1
    omega
  handed := .inl rfl
  once := List.pairwise_singleton _ _
  polls := by
    show 0 = initial.branches + 0 + 0 - initial.branches - 0 + 0
    omega

section Settled

variable (hg : g.Orderly w) (ho : o.Tabulates g w)
variable (htabulate : (Subject.tabulate g settings).Answers w ⟨o, g.roster w⟩)
variable {answers : Nat → Bool} (hne : g.listed w ≠ []) (hwork : settings.AllowsWork)
variable {counters : Counters} {moves : List Move} {branches : List Branch} {outcome : Outcome}
variable {world : σ}
variable (h : enumerateOnPool g settings (fun k => pure (answers k)) counters moves w
  = .settled branches outcome world)
include hg ho htabulate hne hwork h

/-- **The polls of an enumeration that is over** are those of its branches. -/
theorem polls_of_settled : (outcome.polls : Int)
    = (Branch.total branches).branches + branches.countP (·.ending.isStopped) := by
  obtain ⟨pool, hpool, hbranches, -, houtcome⟩ :=
    exists_pool_of_settled hg ho htabulate answers counters hne hwork h
  have hsound : (Pool.ofBatch (Subject.batch g w o settings counters) w).Sound g w o settings answers
      (Subject.batch g w o settings counters).roots :=
    Pool.ofBatch_sound (Subject.topRoots_within hg ho)
  -- the invariant of the pool carries the total along
  have hmove : ∀ pool pool' : Pool σ, (pool.Sound g w o settings answers
        (Subject.topRoots g w o settings) ∧ pool.PollsAdd) →
      pool.Moves ⟨o, g.roster w⟩ g settings (fun k => pure (answers k)) pool' →
      (pool'.Sound g w o settings answers (Subject.topRoots g w o settings) ∧ pool'.PollsAdd) ∧
        pool'.left g w o settings < pool.left g w o settings := by
    intro pool pool' hinv hmove
    obtain ⟨hkept, hless⟩ := hinv.1.move hg ho hmove
    exact ⟨⟨hkept, hinv.2.move hg ho hinv.1 hmove⟩, hless⟩
  obtain ⟨⟨hsound, hadd⟩, -⟩ := Pool.perform_induction hmove
    ⟨hsound, Pool.ofBatch_pollsAdd _ w⟩ hpool
  have hfaults : ∀ b ∈ branches, ∀ fault, b.ending ≠ .failed fault := fun b hb =>
    ((hsound.branches hbranches).2.1 b hb).elim fun _ hes => hes.ne_failed
  rw [houtcome, Outcome.polls_ofBranches, hadd,
    Branch.totalPolls_eq (Pool.branches?_eq_some_iff.1 hbranches) hfaults]

/-- **What an enumeration that is over has counted**: a call and the top branches for the root, and what the
branches have counted. -/
theorem counters_of_settled : outcome.counters = (Subject.batch g w o settings counters).counters
    + Branch.total branches := by
  obtain ⟨-, -, hsound, -, -, houtcome⟩ :=
    enumerateOnPool_settled hg ho htabulate answers counters hne hwork h
  rw [houtcome]
  exact Outcome.counters_ofBranches _ _ _ fun b hb => (hsound b hb).elim fun _ hes => hes.ne_failed

/-- A branch has been left unstarted only if another one has been stopped. -/
theorem countP_isDropped_of_settled (hstopped : Branch.anyStopped branches ≠ true) :
    branches.countP (·.ending.isDropped) = 0 := by
  obtain ⟨-, -, -, -, hdropped, -⟩ :=
    enumerateOnPool_settled hg ho htabulate answers counters hne hwork h
  refine List.countP_eq_zero.2 fun b hb hdrop => hstopped (Branch.anyStopped_iff.2 ?_)
  refine hdropped ⟨b, hb, ?_⟩
  cases hending : b.ending with
  | dropped => rfl
  | _ => rw [hending] at hdrop; cases hdrop

/-- **An enumeration on a pool that is over accounts for its branches.** -/
theorem accountsFor_of_settled : outcome.AccountsFor counters branches := by
  obtain ⟨-, hroots, hsound, -, -, -⟩ :=
    enumerateOnPool_settled hg ho htabulate answers counters hne hwork h
  obtain ⟨hsublist, hperm, hfault⟩ := handed_of_settled hg ho htabulate hne hwork h
  obtain ⟨hcalls, hfound⟩ := Branch.total_eq hsound
  have hpolls := polls_of_settled hg ho htabulate hne hwork h
  have hcounters := counters_of_settled hg ho htabulate hne hwork h
  have htop : (Subject.topRoots g w o settings).length = branches.length := by
    rw [← hroots, List.length_map]
  have hcallsTotal : outcome.counters.calls = counters.calls + 1 + 0 + (Branch.total branches).calls := by
    rw [hcounters]
    rfl
  have hbranches : outcome.counters.branches
      = counters.branches + 0 + branches.length + (Branch.total branches).branches := by
    rw [hcounters, ← htop]
    rfl
  have hcliques : outcome.counters.cliques
      = counters.cliques + 0 + 0 + (Branch.total branches).cliques := by
    rw [hcounters]
    rfl
  refine ⟨by omega, fun hnone => ?_, ?_, ?_, ?_, by omega⟩
  · refine countP_isDropped_of_settled hg ho htabulate hne hwork h fun hany => ?_
    rw [hfault, if_pos hany] at hnone
    cases hnone
  · rw [hperm.length_eq]
    omega
  · by_cases hany : Branch.anyStopped branches = true
    · exact .inr (by rw [hfault, if_pos hany])
    · exact .inl (by rw [hfault, if_neg hany])
  · have honce := List.pairwise_map.1 (Subject.discoveries_enumerates hg ho settings).once
    exact (hperm.pairwise_iff fun hcd => (Identifier.sameSet_comm _ _).trans hcd).2
      (honce.sublist hsublist)

end Settled

/-! ### Both ways -/

/-- **An enumeration that is accounted for.**  When it is over, whether or not it has been cancelled, its
counters account for its cliques, which are pairwise distinct, and for its polls; the same cliques are
handed over as a set.  When it is resumed clique by clique, its counters account at each clique for the
cliques and the polls so far, and in the end they are the same. -/
structure Access.IsAccountedFor (g : Access σ) (settings : Settings) (stop : Nat → Query σ Bool)
    (counters : Counters) (w : σ) (outcome : Outcome) : Prop where
  ended : counters.Accounts outcome.counters outcome.cliques.length outcome.polls
    (if outcome.fault.isSome then 1 else 0)
  handed : outcome.fault = none ∨ outcome.fault = some (.cancelled [])
  once : outcome.cliques.Pairwise fun c d => Identifier.sameSet c.nodes d.nodes = false
  collected : ∃ v collected, (enumerate g settings stop counters).run w = (collected, v) ∧
    collected.cliques.Perm outcome.cliques ∧ collected.counters = outcome.counters ∧
    collected.polls = outcome.polls
  resumed : ∀ n, ∃ r v, (OpenEnumeration.resumption g settings stop n counters).run w = (r, v) ∧
    match outcome.cliques[n]? with
    | some c => r.answer = .ok (some c) ∧
      ∃ polls, r.state.polls = some polls ∧ counters.Accounts r.counters (n + 1) polls 0
    | none => r.counters = outcome.counters

section Polled

variable {stop : Nat → Query σ Bool} {states : Nat → σ} {answers : Nat → Bool}

/-- What is handed over as a set is collected from what has been delivered. -/
theorem Outcome.asSet_eq (outcome : Outcome) :
    outcome.asSet.cliques = Clique.collect outcome.cliques ∧
      outcome.asSet.counters = outcome.counters ∧ outcome.asSet.polls = outcome.polls := by
  unfold asSet
  cases outcome.fault with
  | none => exact ⟨rfl, rfl, rfl⟩
  | some e => cases e <;> exact ⟨rfl, rfl, rfl⟩

/-- **An enumeration whose polls are answered is accounted for.** -/
theorem iterate_accounts (hpolled : ∀ n, g.PolledBy stop states answers n)
    (hg : g.Orderly (states 0)) (ho : o.Tabulates g (states 0))
    (htabulate : (Subject.tabulate g settings).Answers (states 0) ⟨o, g.roster (states 0)⟩)
    (counters : Counters) :
    ∃ outcome v, (iterate g settings stop counters).run (states 0) = (outcome, v) ∧
      g.IsAccountedFor settings stop counters (states 0) outcome := by
  obtain ⟨trail, htrail⟩ : ∃ trail, (Subject.searchBelow settings
      (Subject.root ⟨o, g.roster (states 0)⟩)).trail (g.hoodAt (states 0) o) answers 0 = trail :=
    ⟨_, rfl⟩
  have hiterate := iterate_polled (hpolled _) hg ho htabulate counters htrail (Nat.le_refl _)
  obtain ⟨hended, hresumed⟩ :=
    Subject.trail_accounts g (states 0) o settings answers counters htrail
  have hsublist :=
    (Subject.delivered_trail_prefix g (states 0) o settings answers htrail).sublist
  obtain ⟨hcollect, hcounters, hpolls⟩ :=
    Outcome.asSet_eq (.ofTrail ⟨o, g.roster (states 0)⟩ counters trail)
  have hhanded := (Outcome.fault_ofTrail ⟨o, g.roster (states 0)⟩ counters trail).imp And.right And.right
  refine ⟨_, _, hiterate, ?_, hhanded, ?_, ?_, fun n => ?_⟩
  · have hstops : (if (Outcome.ofTrail ⟨o, g.roster (states 0)⟩ counters trail).fault.isSome then 1
        else 0) = if trail.2.isSome then 0 else 1 := by
      unfold Outcome.ofTrail
      cases trail.2.isSome <;> rfl
    rw [hstops]
    exact hended
  · exact (List.pairwise_map.1 (Subject.discoveries_enumerates hg ho settings).once).sublist hsublist
  · refine ⟨_, _, enumerate_of_iterate hiterate, ?_, hcounters, hpolls⟩
    rw [hcollect]
    exact Clique.collect_perm ((Subject.pairwise_discoveries hg ho settings).sublist hsublist)
  · obtain ⟨r, hrun, hshows⟩ := OpenEnumeration.resumption_polled (hpolled _) hg ho htabulate counters
      htrail (Nat.le_refl _) n
    refine ⟨r, _, hrun, ?_⟩
    rw [show (Outcome.ofTrail ⟨o, g.roster (states 0)⟩ counters trail).cliques
      = Event.delivered trail.1 from rfl]
    have hanswer := hshows.answer
    have hseen := hshows.polls
    by_cases hn : n < (Event.delivered trail.1).length
    · rw [List.getElem?_eq_getElem hn] at hanswer ⊢
      rw [if_pos hn, Nat.zero_add] at hseen
      refine ⟨hanswer, _, hseen, ?_⟩
      rw [hshows.counters]
      exact hresumed n hn
    · rw [List.getElem?_eq_none (Nat.le_of_not_lt hn), hshows.counters,
        Event.through_eq_self (Nat.le_of_not_lt hn)]
      rfl

end Polled

/-- **Every call, branch, clique and poll is accounted for**, whatever the settings, the counters to begin
with and the answers to the polls.

* One after the other: at each clique, and when the enumeration is over, complete or cancelled, it has
  counted one call more than branches, it has counted the cliques that it has delivered, which are
  pairwise distinct, and it has polled once for each branch, and once more if it has been cancelled.
* On a pool, with workers that can work: every schedule comes to an end, and then the calls that are
  missing are those of the top branches that never started, none unless the enumeration was cancelled;
  the cliques counted are those handed over; the polls are the branches below the top ones, and one for
  each of them that was stopped. -/
theorem enumeration_accounts {stop : Nat → Query σ Bool} {states : Nat → σ} {answers : Nat → Bool}
    (hg : g.Orderly (states 0)) (hfits : g.FitsIn settings)
    (hpolled : ∀ n, g.PolledBy stop states answers n) (counters : Counters) :
    (∃ outcome v, (iterate g settings stop counters).run (states 0) = (outcome, v) ∧
      g.IsAccountedFor settings stop counters (states 0) outcome) ∧
    (settings.AllowsWork →
      (Standing.Ends fun moves =>
        enumerateOnPool g settings (fun k => pure (answers k)) counters moves (states 0)) ∧
      ∀ moves branches outcome world,
        enumerateOnPool g settings (fun k => pure (answers k)) counters moves (states 0)
          = .settled branches outcome world →
        outcome.AccountsFor counters branches ∧
        ∀ batch v, (prepareBranches g settings (fun k => pure (answers k)) counters).run (states 0)
            = (.inr batch, v) → branches.map (·.root) = batch.roots) := by
  obtain ⟨o, ho, htabulate⟩ := Subject.tabulate_answers hg hfits
  refine ⟨iterate_accounts hpolled hg ho htabulate counters, fun hwork =>
    ⟨enumerateOnPool_ends hg ho htabulate answers counters hwork, ?_⟩⟩
  intro moves branches outcome world h
  by_cases hempty : g.listed (states 0) = []
  · have hprepare := prepareBranches_of_empty htabulate hempty (fun k => pure (answers k)) counters
    rw [enumerateOnPool_of_empty htabulate answers counters hempty] at h
    split at h
    case isTrue =>
      injection h with hbranches houtcome
      subst hbranches houtcome
      refine ⟨Outcome.ofNothing_accountsFor _ counters, fun batch v hbatch => ?_⟩
      rw [hprepare] at hbatch
      cases hbatch
    case isFalse => cases h
  · refine ⟨accountsFor_of_settled hg ho htabulate hempty hwork h, fun batch v hbatch => ?_⟩
    rw [prepareBranches_answers hg ho htabulate hempty hwork.accepted answers counters] at hbatch
    obtain ⟨-, hroots, -⟩ :=
      enumerateOnPool_settled hg ho htabulate answers counters hempty hwork h
    cases hbatch
    exact hroots

/-- An enumeration of an asymmetric graph whose third poll is answered by a stop, with a stop check that
changes the world, and two workers on the same graph. -/
theorem enumeration_accounts_lopsided :
    (Thing.lopsided.access {}).Orderly (World.polled 0) ∧
      (Thing.lopsided.access {}).FitsIn { parallelWorkers := .integer 2 } ∧
      (∀ n, (Thing.lopsided.access {}).PolledBy World.stopThird World.polled (fun k => k == 2) n) ∧
      Settings.AllowsWork { parallelWorkers := .integer 2 } ∧
      (∃ outcome v, (iterate (Thing.lopsided.access {}) { parallelWorkers := .integer 2 }
          World.stopThird {}).run (World.polled 0) = (outcome, v) ∧
        (Thing.lopsided.access {}).IsAccountedFor { parallelWorkers := .integer 2 } World.stopThird {}
          (World.polled 0) outcome) ∧
      (Standing.Ends fun moves => enumerateOnPool (Thing.lopsided.access {})
        { parallelWorkers := .integer 2 } (fun k => pure (k == 2)) {} moves (World.polled 0)) ∧
      ∀ moves branches outcome world,
        enumerateOnPool (Thing.lopsided.access {}) { parallelWorkers := .integer 2 }
          (fun k => pure (k == 2)) {} moves (World.polled 0) = .settled branches outcome world →
        outcome.AccountsFor {} branches ∧
        ∀ batch v, (prepareBranches (Thing.lopsided.access {}) { parallelWorkers := .integer 2 }
            (fun k => pure (k == 2)) {}).run (World.polled 0) = (.inr batch, v) →
          branches.map (·.root) = batch.roots :=
  have horderly : (Thing.lopsided.access {}).Orderly (World.polled 0) :=
    Thing.lopsided_orderly (World.polled 0)
  have hfits : (Thing.lopsided.access {}).FitsIn { parallelWorkers := .integer 2 } :=
    Thing.lopsided_fitsIn rfl
  have hwork : Settings.AllowsWork { parallelWorkers := .integer 2 } :=
    Settings.allowsWork_of_pos rfl (by decide)
  have haccounts := enumeration_accounts horderly hfits Thing.lopsided_polledBy {}
  ⟨horderly, hfits, Thing.lopsided_polledBy, hwork, haccounts.1, haccounts.2 hwork⟩

end MaximalCliques
