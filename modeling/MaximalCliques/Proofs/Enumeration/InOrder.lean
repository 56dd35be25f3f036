import MaximalCliques.Proofs.Enumeration.PoolRuns

/-!
# Branches in order are a schedule of the pool

* **`Pool.Reaches`** — what some schedule leads to.
* **`Pool.reaches_ended`** — a branch may be searched to its end without a break.
* **`Pool.reaches_runBranches`** — so may all branches, one after the other.
* **`enumerateInBranches_schedule`** — the enumeration in branches is the enumeration on a pool under
  some schedule.
-/

namespace MaximalCliques

/-! ### One request after the other -/

namespace Run

variable {α β τ : Type}

/-- Answering the first request of a search leaves what may be left of it. -/
theorem leaves_of_step {c : Conductor (Query τ) α} {run rest : Run α β} {v w : τ}
    (hrun : run.isDone = false) (h : (run.step c).run v = (.ok (some rest), w)) :
    run.Leaves rest := by
  cases run with
  | done b => exact absurd hrun (by simp [isDone])
  | ask u resume =>
    obtain ⟨hood, x, -, hk⟩ := Query.ok_of_run_bind h
    have hrest : (Except.ok (some (resume hood)), x) = (Except.ok (some rest), w) := hk
    cases hrest
    exact ⟨hood, rfl⟩
  | visit node next =>
    obtain ⟨a, x, -, hk⟩ := Query.ok_of_run_bind h
    have hrest : (Except.ok (some next), x) = (Except.ok (some rest), w) := hk
    cases hrest
    rfl
  | branch node u next =>
    obtain ⟨goOn, x, -, hk⟩ := Query.ok_of_run_bind h
    cases goOn with
    | false => cases hk
    | true =>
      have hrest : (Except.ok (some next), x) = (Except.ok (some rest), w) := hk
      cases hrest
      rfl
  | emit clique next =>
    obtain ⟨a, x, -, hk⟩ := Query.ok_of_run_bind h
    have hrest : (Except.ok (some next), x) = (Except.ok (some rest), w) := hk
    cases hrest
    rfl

end Run

namespace Pool

variable {σ : Type} {s : Subject} {g : Access σ} {settings : Settings} {stop : Nat → Query σ Bool}

/-! ### What a schedule leads to -/

def Reaches (s : Subject) (g : Access σ) (settings : Settings) (stop : Nat → Query σ Bool)
    (pool pool' : Pool σ) : Prop := ∃ moves, pool.perform s g settings stop moves = some pool'

theorem Reaches.refl (pool : Pool σ) : Reaches s g settings stop pool pool := ⟨[], rfl⟩

theorem Reaches.trans {pool pool' pool'' : Pool σ} (h : Reaches s g settings stop pool pool')
    (h' : Reaches s g settings stop pool' pool'') : Reaches s g settings stop pool pool'' := by
  obtain ⟨moves, hmoves⟩ := h
  obtain ⟨moves', hmoves'⟩ := h'
  refine ⟨moves ++ moves', ?_⟩
  rw [perform_append, hmoves, Option.bind_some, hmoves']

theorem Moves.reaches {pool pool' : Pool σ} (h : pool.Moves s g settings stop pool') :
    Reaches s g settings stop pool pool' := by
  obtain ⟨move, hmove⟩ := exists_step_iff.2 h
  refine ⟨[move], ?_⟩
  rw [perform, hmove]
  rfl

/-! ### One branch -/

theorem reaches_request (settings : Settings) {rest : Run Vertex Unit} {tasks : List Task}
    {i : Nat} {t : Task} (ht : tasks[i]? = some t) (hstage : t.stage = .running rest)
    (hdone : rest.isDone = false)
    {polls : Nat} {v w : σ} {answer : Except Fault (Option (Run Vertex Unit))} {p : Progress}
    (h : (rest.step (s.conductor g stop)).run ({ t.progress with polls }, v) = (answer, (p, w))) :
    Reaches s g settings stop ⟨tasks, polls, v⟩
      ⟨tasks.set i { t with stage := .after answer, progress := p }, p.polls, w⟩ := by
  have hmove : Moves s g settings stop ⟨tasks, polls, v⟩ _ := .request ht hstage hdone
  rw [request_eq rfl h] at hmove
  exact hmove.reaches

/-- **A branch may be searched to its end without a break.** -/
theorem reaches_ended (settings : Settings) (rest : Run Vertex Unit) {tasks : List Task} {i : Nat}
    {t : Task} (ht : tasks[i]? = some t) (hstage : t.stage = .running rest) {polls : Nat} {v w : σ}
    {answer : Except Fault (Option Unit)} {p : Progress}
    (h : (rest.finish (s.conductor g stop)).run ({ t.progress with polls }, v)
      = (answer, (p, w))) :
    ∃ u, Reaches s g settings stop ⟨tasks, polls, v⟩ ⟨tasks.set i u, p.polls, w⟩ ∧
      u.branch? = some { root := t.root, ending := .after answer, found := p.found.reverse
                         counters := p.counters } := by
  induction rest using Run.requestwise generalizing tasks t polls v with
  | h rest ih =>
    by_cases hdone : rest.isDone = true
    · cases rest with
      | done b =>
        injection h with hanswer hp
        injection hp with hp hw
        subst hanswer hp hw
        exact ⟨_, (Moves.finish ht hstage).reaches, rfl⟩
      | _ => exact absurd hdone (by simp [Run.isDone])
    · have hdone : rest.isDone = false := by simpa using hdone
      rw [Run.finish_eq_step _ hdone, Query.run_bind] at h
      split at h
      case h_1 next x hstep =>
        have hrequest := reaches_request settings ht hstage hdone hstep
        cases next with
        | none =>
          injection h with hanswer hp
          subst hanswer hp
          exact ⟨_, hrequest, rfl⟩
        | some next =>
          have ht' : (tasks.set i { t with stage := .running next, progress := x.1 })[i]?
              = some { t with stage := .running next, progress := x.1 } := by
            obtain ⟨hi, -⟩ := List.getElem?_eq_some_iff.1 ht
            exact List.getElem?_set_self hi
          have hnext : (next.finish (s.conductor g stop)).run
              ({ x.1 with polls := x.1.polls }, x.2) = (answer, (p, w)) := h
          obtain ⟨u, hreaches, hbranch⟩ := ih next (Run.leaves_of_step hdone hstep) ht' rfl hnext
          rw [List.set_set] at hreaches
          exact ⟨u, hrequest.trans hreaches, hbranch⟩
      case h_2 e x hstep =>
        have hrequest := reaches_request settings ht hstage hdone hstep
        injection h with hanswer hp
        subst hanswer hp
        exact ⟨_, hrequest, rfl⟩

/-! ### All branches -/

/-- A branch that waits where none is running may be searched to its end. -/
theorem reaches_runBranch (hroom : settings.hasRoom 0 = true) {before after : List Task}
    (hidle : ∀ t ∈ before ++ after, t.isRunning = false) {root : SearchNode Vertex}
    {polls polls' : Nat} {v w : σ} {b : Branch}
    (h : (s.runBranch g settings stop root polls).run v = ((b, polls'), w)) :
    ∃ u, Reaches s g settings stop ⟨before ++ { root } :: after, polls, v⟩
        ⟨before ++ u :: after, polls', w⟩ ∧ u.branch? = some b := by
  have hrunning : running ⟨before ++ { root } :: after, polls, v⟩ = 0 := by
    apply List.countP_eq_zero.2
    intro t ht
    rw [Bool.not_eq_true]
    simp only [List.mem_append, List.mem_cons] at ht
    rcases ht with ht | rfl | ht
    · exact hidle t (List.mem_append_left _ ht)
    · rfl
    · exact hidle t (List.mem_append_right _ ht)
  have ht : ∀ t : Task, (before ++ t :: after)[before.length]? = some t := by simp
  have hset : ∀ t u : Task, (before ++ t :: after).set before.length u = before ++ u :: after := by
    simp
  have hstart : Moves s g settings stop ⟨before ++ { root } :: after, polls, v⟩ _ :=
    .start (ht _) rfl (by rw [hrunning]; exact hroom)
  rw [put, hset] at hstart
  cases hfinish : ((Subject.searchBelow settings root).finish (s.conductor g stop)).run
    ({ polls }, v) with
  | mk answer x =>
    obtain ⟨u, hended, hbranch⟩ := reaches_ended settings (Subject.searchBelow settings root)
      (ht { root, stage := .running (Subject.searchBelow settings root) }) rfl hfinish
    rw [hset] at hended
    have hrun : (s.runBranch g settings stop root polls).run v = _ :=
      run_bind_of_eq (Searching.run_askFrom hfinish)
    rw [h] at hrun
    cases hrun
    exact ⟨u, hstart.reaches.trans hended, hbranch⟩

/-- A branch that waits may be dropped once another one has come to a bad end. -/
theorem reaches_drop {before after : List Task} (hbad : before.any Task.isBad = true)
    (root : SearchNode Vertex) (polls : Nat) (w : σ) :
    Reaches s g settings stop ⟨before ++ { root } :: after, polls, w⟩
      ⟨before ++ { root, stage := .ended .dropped } :: after, polls, w⟩ := by
  have ht : (before ++ { root } :: after)[before.length]? = some ({ root } : Task) := by simp
  have hdrop : Moves s g settings stop ⟨before ++ { root } :: after, polls, w⟩ _ :=
    .drop ht rfl (by simp [hbad])
  rw [put] at hdrop
  simpa using hdrop.reaches

/-- The first of several branches is searched or dropped, and then the others are run. -/
theorem reaches_first (hroom : settings.hasRoom 0 = true) {discipline : Discipline}
    {root : SearchNode Vertex} {roots : List (SearchNode Vertex)} {before after : List Task}
    (hidle : ∀ t ∈ before ++ after, t.isRunning = false) {dropping : Bool}
    (hbad : dropping = true → before.any Task.isBad = true) {polls polls' : Nat} {v w : σ}
    {branches : List Branch}
    (h : (s.runBranches g settings stop discipline (root :: roots) dropping polls).run v
      = ((branches, polls'), w)) :
    ∃ b rest u dropping' polls₁ w₁, branches = b :: rest ∧ u.branch? = some b ∧
      Reaches s g settings stop ⟨before ++ { root } :: after, polls, v⟩
        ⟨before ++ u :: after, polls₁, w₁⟩ ∧
      (dropping' = true → (before ++ [u]).any Task.isBad = true) ∧
      (s.runBranches g settings stop discipline roots dropping' polls₁).run w₁
        = ((rest, polls'), w) := by
  cases dropping with
  | true =>
    cases hrest : (s.runBranches g settings stop discipline roots true polls).run v with
    | mk result x =>
      have hrun : (s.runBranches g settings stop discipline (root :: roots) true polls).run v = _ :=
        run_bind_of_eq hrest
      rw [h] at hrun
      cases hrun
      refine ⟨_, _, { root, stage := .ended .dropped }, true, polls, v, rfl, rfl,
        reaches_drop (hbad rfl) root polls v, fun _ => ?_, hrest⟩
      simp [hbad rfl]
  | false =>
    cases hfirst : (s.runBranch g settings stop root polls).run v with
    | mk result x =>
      cases hrest : (s.runBranches g settings stop discipline roots
        (result.1.ending.isBad && discipline = .dropWaiting) result.2).run x with
      | mk result' y =>
        have hrun : (s.runBranches g settings stop discipline (root :: roots) false polls).run v = _ :=
          (run_bind_of_eq hfirst).trans (run_bind_of_eq hrest)
        rw [h] at hrun
        cases hrun
        obtain ⟨u, hreaches, hbranch⟩ := reaches_runBranch hroom hidle hfirst
        refine ⟨_, _, u, _, _, _, rfl, hbranch, hreaches, fun hdropping => ?_, hrest⟩
        obtain ⟨ending, hstage, heq⟩ := Task.branch?_eq_some.1 hbranch
        have hending : u.isBad = true := by
          simp only [heq, Bool.and_eq_true] at hdropping
          rw [Task.isBad, hstage]
          exact hdropping.1
        simp [hending]

/-- **The branches may be searched one after the other**, and once one has come to a bad end the others
may be dropped. -/
theorem reaches_runBranches (hroom : settings.hasRoom 0 = true) (discipline : Discipline)
    (roots : List (SearchNode Vertex)) {before : List Task}
    (hidle : ∀ t ∈ before, t.isRunning = false) {dropping : Bool}
    (hbad : dropping = true → before.any Task.isBad = true) {polls polls' : Nat} {v w : σ}
    {branches : List Branch}
    (h : (s.runBranches g settings stop discipline roots dropping polls).run v
      = ((branches, polls'), w)) :
    ∃ tasks, Reaches s g settings stop
        ⟨before ++ roots.map fun root => ({ root } : Task), polls, v⟩
        ⟨before ++ tasks, polls', w⟩ ∧ tasks.map Task.branch? = branches.map some := by
  induction roots generalizing before dropping polls v branches with
  | nil =>
    cases h
    exact ⟨[], .refl _, rfl⟩
  | cons root roots ih =>
    have hwaiting : ∀ t ∈ before ++ roots.map (fun root => ({ root } : Task)),
        t.isRunning = false := by
      intro t ht
      rcases List.mem_append.1 ht with ht | ht
      · exact hidle t ht
      · obtain ⟨n, -, rfl⟩ := List.mem_map.1 ht
        rfl
    obtain ⟨b, rest, u, dropping', polls₁, w₁, rfl, hbranch, hfirst, hbad', hrest⟩ :=
      reaches_first hroom hwaiting hbad h
    have hidle' : ∀ t ∈ before ++ [u], t.isRunning = false := by
      intro t ht
      rcases List.mem_append.1 ht with ht | ht
      · exact hidle t ht
      · obtain ⟨ending, hstage, -⟩ := Task.branch?_eq_some.1 hbranch
        rw [List.mem_singleton.1 ht, Task.isRunning, hstage]
    obtain ⟨tasks, hreaches, htasks⟩ := ih hidle' hbad' hrest
    rw [List.append_assoc, List.append_assoc, List.singleton_append, List.singleton_append]
      at hreaches
    refine ⟨u :: tasks, hfirst.trans hreaches, ?_⟩
    rw [List.map_cons, List.map_cons, hbranch, htasks]

end Pool

/-- **The enumeration in branches is an enumeration on a pool.**  Whatever the graph, the stop check and
what is done with waiting branches, some schedule comes to the same. -/
theorem enumerateInBranches_schedule {σ : Type} (g : Access σ) {settings : Settings}
    (hroom : settings.hasRoom 0 = true) (stop : Nat → Query σ Bool) (discipline : Discipline)
    (counters : Counters) (w : σ) :
    ∃ moves branches outcome world,
      (enumerateInBranches g settings stop discipline counters).run w = (outcome, world) ∧
      enumerateOnPool g settings stop counters moves w = .settled branches outcome world := by
  cases hprepare : (prepareBranches g settings stop counters).run w with
  | mk result v =>
    cases result with
    | inl outcome =>
      refine ⟨[], [], outcome, v, run_bind_of_eq hprepare, ?_⟩
      rw [enumerateOnPool, hprepare]
      rfl
    | inr batch =>
      cases hrun : (batch.subject.runBranches g settings stop discipline batch.roots false 0).run
        v with
      | mk result world =>
        have hnone : ∀ t ∈ ([] : List Task), t.isRunning = false := by simp
        obtain ⟨tasks, ⟨moves, hmoves⟩, htasks⟩ :=
          Pool.reaches_runBranches hroom discipline batch.roots hnone (by simp) hrun
        have hperform : (Pool.ofBatch batch v).perform batch.subject g settings stop moves
            = some ⟨tasks, result.2, world⟩ := hmoves
        refine ⟨moves, result.1, _, world, (run_bind_of_eq hprepare).trans (run_bind_of_eq hrun), ?_⟩
        rw [enumerateOnPool, hprepare]
        have hbranches : Pool.branches? ⟨tasks, result.2, world⟩ = some result.1 :=
          Pool.branches?_eq_some_iff.2 htasks
        simp only [hperform, Batch.standing, hbranches]

end MaximalCliques
