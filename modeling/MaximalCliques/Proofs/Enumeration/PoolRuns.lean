import MaximalCliques.Proofs.Enumeration.Batches
import MaximalCliques.Proofs.Enumeration.Schedules

/-!
# Schedules of a pool on an orderly graph

Whatever the schedule, each branch goes through a part of its own history, its progress is what this
part adds up to, and a branch has been stopped exactly if a poll has been answered by a stop.

* **`Stage.ReachedBy`** — the stages that a branch reaches by events of its history.
* **`Task.Sound`**, **`Pool.Sound`** — the invariant of a branch and of the pool.
* **`Pool.Sound.move`** — every move keeps the invariant and leaves less to be done.
* **`Pool.Sound.branches`** — what has become of the branches once all have ended.
-/

namespace MaximalCliques

variable {σ : Type}

/-! ### Branches -/

/-- The progress of a branch is what its events sum up to. -/
structure Progress.Sums (p : Progress) (es : List (Event Vertex)) : Prop where
  counters : p.counters = Event.tally es
  found : p.found = (Event.delivered es).reverse

theorem Progress.sums_empty : ({} : Progress).Sums [] := ⟨rfl, rfl⟩

theorem Progress.Sums.follows {p p' : Progress} {es fs : List (Event Vertex)} {polls : Nat}
    (h : p.Sums es) (hf : Progress.Follows { p with polls } fs p') : p'.Sums (es ++ fs) where
  counters := by
    rw [hf.counters, Event.tally_append, ← h.counters]
  found := by
    rw [hf.found, Event.delivered_append, List.reverse_append, ← h.found]

/-- **The stages that a branch reaches** by events, if `whole` is its history when nobody stops it.  A
branch that is stopped has made the next poll of its history. -/
inductive Stage.ReachedBy (S : Vertex → Prop) (hoods : Vertex → Hood Vertex)
    (whole : List (Event Vertex)) : Stage → List (Event Vertex) → Prop
  | waiting : ReachedBy S hoods whole .waiting []
  | running {rest : Run Vertex Unit} {es : List (Event Vertex)} (hrest : rest.Within S hoods)
      (h : whole = es ++ rest.events hoods) : ReachedBy S hoods whole (.running rest) es
  | finished : ReachedBy S hoods whole (.ended .finished) whole
  | stopped {es : List (Event Vertex)} {n : SearchNode Vertex} {v : Vertex}
      (h : es ++ [.poll n v true] <+: whole) :
      ReachedBy S hoods whole (.ended .stopped) (es ++ [.poll n v false])
  | dropped : ReachedBy S hoods whole (.ended .dropped) []

/-- **A branch that has ended has gone through the beginning of its history**, and through a poll that
delivers nothing if it was stopped. -/
theorem Stage.ReachedBy.exists_prefix {S : Vertex → Prop} {hoods : Vertex → Hood Vertex}
    {whole es : List (Event Vertex)} {ending : Ending}
    (h : ReachedBy S hoods whole (.ended ending) es) : ∃ fs, fs <+: whole ∧
      Event.delivered es = Event.delivered fs ∧ es.countP Event.isPassed = fs.countP Event.isPassed ∧
      (ending = .stopped → Event.polls whole ≠ 0) := by
  cases h with
  | finished => exact ⟨whole, List.prefix_refl _, rfl, rfl, fun h => by cases h⟩
  | @stopped fs n v hfs =>
    refine ⟨fs, (List.prefix_append _ _).trans hfs, ?_, ?_, fun _ => ?_⟩
    · rw [Event.delivered_append]
      exact List.append_nil _
    · rw [List.countP_append]
      rfl
    · obtain ⟨rest, rfl⟩ := hfs
      rw [Event.polls_append, Event.polls_append, Event.polls_poll]
      omega
  | dropped => exact ⟨[], List.nil_prefix, rfl, rfl, fun h => by cases h⟩

/-- The invariant of a branch that has gone through some events. -/
structure Task.Sound (g : Access σ) (w : σ) (o : Oracle) (settings : Settings) (t : Task)
    (es : List (Event Vertex)) : Prop where
  root : t.root.Within (g.Stands w)
  hoods : t.progress.Sound g w o
  sums : t.progress.Sums es
  stage : t.stage.ReachedBy (g.Stands w) (g.hoodAt w o)
    (Subject.historyBelow g w o settings t.root) es

namespace Task.Sound

variable {g : Access σ} {w : σ} {o : Oracle} {settings : Settings} {t : Task}
variable {es : List (Event Vertex)} (h : t.Sound g w o settings es)
include h

theorem events_of_waiting (hstage : t.stage = .waiting) : es = [] := by
  have hreached := h.stage
  rw [hstage] at hreached
  cases hreached
  rfl

theorem events_of_running {rest : Run Vertex Unit} (hstage : t.stage = .running rest) :
    rest.Within (g.Stands w) (g.hoodAt w o) ∧
      Subject.historyBelow g w o settings t.root = es ++ rest.events (g.hoodAt w o) := by
  have hreached := h.stage
  rw [hstage] at hreached
  cases hreached with
  | running hrest hwhole => exact ⟨hrest, hwhole⟩

/-- A branch of an orderly graph comes to a bad end only by being stopped. -/
theorem stopped_of_isBad (hbad : t.isBad = true) : t.stage = .ended .stopped := by
  have hreached := h.stage
  unfold Task.isBad at hbad
  cases hstage : t.stage with
  | waiting => simp [hstage] at hbad
  | running rest => simp [hstage] at hbad
  | ended ending =>
    rw [hstage] at hreached hbad
    cases hreached with
    | finished => exact absurd hbad (by simp [Ending.isBad])
    | stopped => rfl
    | dropped => exact absurd hbad (by simp [Ending.isBad])

end Task.Sound

/-- How much of a branch is left to be done. -/
def Task.left (g : Access σ) (w : σ) (o : Oracle) (settings : Settings) (t : Task) : Nat :=
  match t.stage with
  | .waiting => (Subject.searchBelow settings t.root).requests (g.hoodAt w o) + 2
  | .running rest => rest.requests (g.hoodAt w o) + 1
  | .ended _ => 0

/-! ### The pool -/

theorem exists_mem_set {l : List Task} {i : Nat} {t t' : Task} {p : Task → Prop} (ht : l[i]? = some t)
    (hp : ¬p t) : (∃ u ∈ l.set i t', p u) ↔ p t' ∨ ∃ u ∈ l, p u := by
  obtain ⟨hi, hti⟩ := List.getElem?_eq_some_iff.1 ht
  constructor
  · intro h
    obtain ⟨u, hu, hpu⟩ := h
    rcases List.mem_or_eq_of_mem_set hu with hu | rfl
    · exact .inr ⟨u, hu, hpu⟩
    · exact .inl hpu
  · rintro (hpt | ⟨u, hu, hpu⟩)
    · exact ⟨t', List.mem_set hi t', hpt⟩
    · obtain ⟨j, hj⟩ := List.getElem?_of_mem hu
      have hij : i ≠ j := by
        rintro rfl
        rw [ht] at hj
        exact hp (Option.some.inj hj ▸ hpu)
      refine ⟨u, List.mem_of_getElem? (i := j) ?_, hpu⟩
      rw [List.getElem?_set_ne hij, hj]

namespace Pool

/-- **The invariant of a pool** whose polls are answered by `answers`.  Branches are dropped only after
one has been stopped, and that happens only if a poll was answered so. -/
structure Sound (g : Access σ) (w : σ) (o : Oracle) (settings : Settings) (answers : Nat → Bool)
    (roots : List (SearchNode Vertex)) (pool : Pool σ) : Prop where
  world : pool.world = w
  roots : pool.tasks.map (·.root) = roots
  tasks : ∀ t ∈ pool.tasks, ∃ es, t.Sound g w o settings es
  stopped : (∃ t ∈ pool.tasks, t.stage = .ended .stopped) ↔ ∃ k < pool.polls, answers k = true
  dropped : (∃ t ∈ pool.tasks, t.stage = .ended .dropped) →
    ∃ t ∈ pool.tasks, t.stage = .ended .stopped

def left (g : Access σ) (w : σ) (o : Oracle) (settings : Settings) (pool : Pool σ) : Nat :=
  pool.tasks.foldr (fun t n => t.left g w o settings + n) 0

variable {g : Access σ} {w : σ} {o : Oracle} {settings : Settings} {answers : Nat → Bool}
variable {roots : List (SearchNode Vertex)} {pool : Pool σ}

theorem left_set {l : List Task} {i : Nat} {t u : Task} (ht : l[i]? = some t) (settings : Settings) :
    (l.set i u).foldr (fun t n => t.left g w o settings + n) 0 + t.left g w o settings
      = l.foldr (fun t n => t.left g w o settings + n) 0 + u.left g w o settings := by
  induction l generalizing i with
  | nil => exact absurd ht (by simp)
  | cons t' l ih =>
    cases i with
    | zero =>
      rw [List.getElem?_cons_zero, Option.some.injEq] at ht
      subst ht
      simp only [List.set_cons_zero, List.foldr_cons]
      omega
    | succ i =>
      rw [List.getElem?_cons_succ] at ht
      have h := ih ht
      simp only [List.set_cons_succ, List.foldr_cons]
      omega

/-- The branches of a batch, all of them waiting, fulfil the invariant. -/
theorem ofBatch_sound {batch : Batch} (hbatch : ∀ n ∈ batch.roots, n.Within (g.Stands w)) :
    (ofBatch batch w).Sound g w o settings answers batch.roots where
  world := rfl
  roots := by
    show (batch.roots.map fun root => ({ root } : Task)).map (·.root) = batch.roots
    rw [List.map_map]
    exact List.map_id _
  tasks := by
    intro t ht
    obtain ⟨n, hn, rfl⟩ := List.mem_map.1 ht
    exact ⟨[], hbatch n hn, Progress.sound_of_empty g w o rfl, Progress.sums_empty, .waiting⟩
  stopped := by
    constructor
    · intro h
      obtain ⟨t, ht, hstage⟩ := h
      obtain ⟨n, -, rfl⟩ := List.mem_map.1 ht
      cases hstage
    · intro h
      obtain ⟨k, hk, -⟩ := h
      exact absurd hk (Nat.not_lt_zero k)
  dropped := by
    intro h
    obtain ⟨t, ht, hstage⟩ := h
    obtain ⟨n, -, rfl⟩ := List.mem_map.1 ht
    cases hstage

/-- **A branch that has not ended may be replaced** by what it becomes, with less left to be done. -/
theorem Sound.replace (hpool : pool.Sound g w o settings answers roots) {i : Nat} {t u : Task}
    (ht : pool.tasks[i]? = some t) (hended : ∀ ending, t.stage ≠ .ended ending)
    (hroot : u.root = t.root) {es : List (Event Vertex)} (hu : u.Sound g w o settings es)
    {polls : Nat} (hstopped : (∃ k < polls, answers k = true) ↔
      u.stage = .ended .stopped ∨ ∃ k < pool.polls, answers k = true)
    (hdropped : u.stage = .ended .dropped → ∃ t ∈ pool.tasks, t.stage = .ended .stopped)
    (hleft : u.left g w o settings < t.left g w o settings) :
    Sound g w o settings answers roots ⟨pool.tasks.set i u, polls, w⟩ ∧
      left g w o settings ⟨pool.tasks.set i u, polls, w⟩ < pool.left g w o settings := by
  refine ⟨⟨rfl, ?_, ?_, ?_, ?_⟩, ?_⟩
  · obtain ⟨hi, hti⟩ := List.getElem?_eq_some_iff.1 ht
    show (pool.tasks.set i u).map (·.root) = roots
    rw [List.map_set, hroot, ← hti, ← List.map_set, List.set_getElem_self, hpool.roots]
  · intro t' ht'
    rcases List.mem_or_eq_of_mem_set ht' with ht' | rfl
    · exact hpool.tasks t' ht'
    · exact ⟨es, hu⟩
  · rw [exists_mem_set ht (hended _), hpool.stopped, hstopped]
  · rw [exists_mem_set ht (hended _), exists_mem_set ht (hended _)]
    rintro (h | h)
    · exact .inr (hdropped h)
    · exact .inr (hpool.dropped h)
  · have h := left_set (g := g) (w := w) (o := o) (u := u) ht settings
    show (pool.tasks.set i u).foldr (fun t n => t.left g w o settings + n) 0
      < pool.tasks.foldr (fun t n => t.left g w o settings + n) 0
    omega

/-- What the next request of a branch leads to, given what it is answered. -/
theorem request_eq {s : Subject} {stop : Nat → Query σ Bool} {i : Nat} {t : Task}
    {rest : Run Vertex Unit} {answer : Except Fault (Option (Run Vertex Unit))} {p : Progress}
    {v : σ} (hworld : pool.world = v)
    (h : (rest.step (s.conductor g stop)).run ({ t.progress with polls := pool.polls }, v)
      = (answer, (p, w))) :
    pool.request s g stop i t rest
      = ⟨pool.tasks.set i { t with stage := .after answer, progress := p }, p.polls, w⟩ := by
  have hasked := Searching.run_askFrom h
  simp only [request, hworld, hasked]

section Orderly

variable (hg : g.Orderly w) (ho : o.Tabulates g w)
include hg ho

/-- **A request keeps the invariant** and leaves less to be done. -/
theorem Sound.request (hpool : pool.Sound g w o settings answers roots) {i : Nat} {t : Task}
    {rest : Run Vertex Unit} (ht : pool.tasks[i]? = some t) (hstage : t.stage = .running rest)
    (hdone : rest.isDone = false) :
    let pool' := pool.request ⟨o, g.roster w⟩ g (fun k => pure (answers k)) i t rest
    pool'.Sound g w o settings answers roots ∧
      pool'.left g w o settings < pool.left g w o settings := by
  obtain ⟨es, hsound⟩ := hpool.tasks t (List.mem_of_getElem? ht)
  obtain ⟨hwithin, hwhole⟩ := hsound.events_of_running hstage
  have hended : ∀ ending, t.stage ≠ .ended ending := by simp [hstage]
  have hcache : Progress.Sound { t.progress with polls := pool.polls } g w o :=
    hsound.hoods.of_hoods_eq rfl
  obtain ⟨p, hstep, hfollows, hp⟩ := Subject.step_conducted hg ho answers hwithin hcache
  have hsums := hsound.sums.follows hfollows
  have hpolls : p.polls = pool.polls + Event.polls (rest.advance (g.hoodAt w o)
    (!answers pool.polls)).1 := hfollows.polls
  intro pool'
  rw [show pool' = _ from request_eq hpool.world hstep]
  cases hnext : (rest.advance (g.hoodAt w o) (!answers pool.polls)).2 with
  | some next =>
    have hevents := Run.events_advance hnext
    have hrequests := Run.requests_advance hdone hnext
    refine hpool.replace (u := { t with stage := .running next, progress := p }) ht hended rfl
      ⟨hsound.root, hp, hsums, .running (hwithin.advance hnext) ?_⟩ ?_ ?_ ?_
    · rw [hwhole, hevents, List.append_assoc]
    · rw [hpolls, or_iff_right (by simp)]
      rcases Run.polls_advance hnext with hnone | ⟨hone, hgoOn⟩
      · rw [hnone, Nat.add_zero]
      · rw [hone, Nat.exists_lt_succ_right, or_iff_left]
        simpa using hgoOn
    · intro h
      cases h
    · simp only [Task.left, hstage]
      omega
  | none =>
    obtain ⟨hgoOn, n, v, hpoll, hnextPoll⟩ := Run.advance_eq_none hnext
    rw [hpoll] at hsums hpolls
    refine hpool.replace (u := { t with stage := .ended .stopped, progress := p }) ht hended rfl
      ⟨hsound.root, hp, hsums, .stopped ?_⟩ ?_ ?_ ?_
    · rw [hwhole]
      exact (List.prefix_append_right_inj es).2 hnextPoll
    · have hone : p.polls = pool.polls + 1 := hpolls
      have hanswer : answers pool.polls = true := by simpa using hgoOn
      rw [hone, Nat.exists_lt_succ_right]
      exact ⟨fun _ => .inl rfl, fun _ => .inr hanswer⟩
    · intro h
      cases h
    · simp only [Task.left, hstage]
      omega

/-- **Every move keeps the invariant** and leaves less to be done. -/
theorem Sound.move (hpool : pool.Sound g w o settings answers roots) {pool' : Pool σ}
    (h : pool.Moves ⟨o, g.roster w⟩ g settings (fun k => pure (answers k)) pool') :
    pool'.Sound g w o settings answers roots ∧
      pool'.left g w o settings < pool.left g w o settings := by
  cases h with
  | @start i t ht hstage hroom =>
    obtain ⟨es, hsound⟩ := hpool.tasks t (List.mem_of_getElem? ht)
    have hes := hsound.events_of_waiting hstage
    rw [put, hpool.world]
    refine hpool.replace (u := { t with stage := .running (Subject.searchBelow settings t.root) }) ht
      (by simp [hstage]) rfl ⟨hsound.root, hsound.hoods, hsound.sums, .running ?_ ?_⟩ (by simp)
      (by simp) ?_
    · exact (Subject.searchBelow_mirrors hg ho settings hsound.root).within
    · rw [hes]
      rfl
    · simp only [Task.left, hstage]
      omega
  | @finish i t ht hstage =>
    obtain ⟨es, hsound⟩ := hpool.tasks t (List.mem_of_getElem? ht)
    obtain ⟨-, hwhole⟩ := hsound.events_of_running hstage
    rw [Run.events, List.append_nil] at hwhole
    rw [put, hpool.world]
    refine hpool.replace (u := { t with stage := .ended .finished }) ht (by simp [hstage]) rfl
      ⟨hsound.root, hsound.hoods, hsound.sums, ?_⟩ (by simp) (by simp) ?_
    · rw [← hwhole]
      exact .finished
    · simp [Task.left, hstage]
  | request ht hstage hrest => exact hpool.request hg ho ht hstage hrest
  | @drop i t ht hstage hbad =>
    obtain ⟨es, hsound⟩ := hpool.tasks t (List.mem_of_getElem? ht)
    have hes := hsound.events_of_waiting hstage
    obtain ⟨u, hu, hubad⟩ := List.any_eq_true.1 hbad
    obtain ⟨fs, husound⟩ := hpool.tasks u hu
    rw [put, hpool.world]
    refine hpool.replace (u := { t with stage := .ended .dropped }) ht (by simp [hstage]) rfl
      ⟨hsound.root, hsound.hoods, hsound.sums, ?_⟩ (by simp)
      (fun _ => ⟨u, hu, husound.stopped_of_isBad hubad⟩) ?_
    · rw [hes]
      exact .dropped
    · simp [Task.left, hstage]

end Orderly

end Pool

/-! ### What has become of the branches -/

/-- What is known of a branch that has ended and gone through some events. -/
structure Branch.Sound (g : Access σ) (w : σ) (o : Oracle) (settings : Settings) (b : Branch)
    (es : List (Event Vertex)) : Prop where
  root : b.root.Within (g.Stands w)
  counters : b.counters = Event.tally es
  found : b.found = Event.delivered es
  ending : Stage.ReachedBy (g.Stands w) (g.hoodAt w o) (Subject.historyBelow g w o settings b.root)
    (.ended b.ending) es

theorem Task.branch?_eq_some {t : Task} {b : Branch} : t.branch? = some b ↔
    ∃ ending, t.stage = .ended ending ∧ b = { root := t.root, ending, found := t.progress.found.reverse
                                              counters := t.progress.counters } := by
  unfold branch?
  cases hstage : t.stage with
  | ended ending => simp [eq_comm]
  | _ => simp

theorem Task.map_root {tasks : List Task} {branches : List Branch}
    (h : tasks.map branch? = branches.map some) :
    branches.map (·.root) = tasks.map (·.root) := by
  induction tasks generalizing branches with
  | nil => rw [List.map_eq_nil_iff.1 h.symm, List.map_nil, List.map_nil]
  | cons t tasks ih =>
    cases branches with
    | nil => exact absurd h (by simp)
    | cons b branches =>
      obtain ⟨ht, hrest⟩ := List.cons.inj h
      obtain ⟨ending, -, rfl⟩ := branch?_eq_some.1 ht
      rw [List.map_cons, List.map_cons, ih hrest]

theorem Pool.branches?_eq_some_iff {pool : Pool σ} {branches : List Branch} :
    pool.branches? = some branches ↔ pool.tasks.map Task.branch? = branches.map some := by
  have hknown : ∀ tasks : List Task, (∀ t ∈ tasks, t.branch?.isSome = true) →
      tasks.map Task.branch? = (tasks.filterMap Task.branch?).map some := by
    intro tasks hall
    induction tasks with
    | nil => rfl
    | cons t tasks ih =>
      obtain ⟨b, hb⟩ := Option.isSome_iff_exists.1 (hall t List.mem_cons_self)
      rw [List.filterMap_cons_some hb, List.map_cons, List.map_cons, hb,
        ih fun u hu => hall u (List.mem_cons_of_mem t hu)]
  unfold branches?
  constructor
  · intro h
    split at h
    case isTrue hall =>
      rw [← Option.some.inj h]
      exact hknown pool.tasks (List.all_eq_true.1 hall)
    case isFalse => exact absurd h (by simp)
  · intro h
    have hall : ∀ t ∈ pool.tasks, t.branch?.isSome = true := by
      intro t ht
      have hmem := List.mem_map_of_mem (f := Task.branch?) ht
      rw [h] at hmem
      obtain ⟨b, -, hb⟩ := List.mem_map.1 hmem
      rw [← hb]
      rfl
    rw [hknown pool.tasks hall] at h
    rw [if_pos (List.all_eq_true.2 hall), List.map_injective_iff.2 (Option.some_injective _) h]

theorem Pool.exists_task {pool : Pool σ} {branches : List Branch}
    (h : pool.branches? = some branches) : ∀ b ∈ branches, ∃ t ∈ pool.tasks, t.branch? = some b := by
  intro b hb
  have hmem := List.mem_map_of_mem (f := some) hb
  rw [← Pool.branches?_eq_some_iff.1 h] at hmem
  exact List.mem_map.1 hmem

/-- **What has become of the branches once all have ended.**  Each has gone through a part of its
history; one has been stopped exactly if a poll was answered so, and otherwise none was dropped. -/
theorem Pool.Sound.branches {g : Access σ} {w : σ} {o : Oracle} {settings : Settings}
    {answers : Nat → Bool} {roots : List (SearchNode Vertex)} {pool : Pool σ}
    (hpool : pool.Sound g w o settings answers roots) {branches : List Branch}
    (h : pool.branches? = some branches) :
    branches.map (·.root) = roots ∧ (∀ b ∈ branches, ∃ es, b.Sound g w o settings es) ∧
      ((∃ b ∈ branches, b.ending = .stopped) ↔ ∃ k < pool.polls, answers k = true) ∧
      ((∃ b ∈ branches, b.ending = .dropped) → ∃ b ∈ branches, b.ending = .stopped) := by
  have hknown := Pool.branches?_eq_some_iff.1 h
  have htask := Pool.exists_task h
  have hending : ∀ ending, (∃ b ∈ branches, b.ending = ending) ↔
      ∃ t ∈ pool.tasks, t.stage = .ended ending := by
    intro ending
    constructor
    · intro hbranch
      obtain ⟨b, hb, rfl⟩ := hbranch
      obtain ⟨t, ht, htb⟩ := htask b hb
      obtain ⟨ending, hstage, rfl⟩ := Task.branch?_eq_some.1 htb
      exact ⟨t, ht, hstage⟩
    · intro hstage
      obtain ⟨t, ht, hstage⟩ := hstage
      have hmem := List.mem_map_of_mem (f := Task.branch?) ht
      rw [hknown, Task.branch?_eq_some.2 ⟨ending, hstage, rfl⟩] at hmem
      obtain ⟨b, hb, heq⟩ := List.mem_map.1 hmem
      exact ⟨b, hb, by rw [Option.some.inj heq]⟩
  refine ⟨?_, ?_, ?_, ?_⟩
  · rw [← hpool.roots]
    exact Task.map_root hknown
  · intro b hb
    obtain ⟨t, ht, htb⟩ := htask b hb
    obtain ⟨ending, hstage, rfl⟩ := Task.branch?_eq_some.1 htb
    obtain ⟨es, hsound⟩ := hpool.tasks t ht
    refine ⟨es, hsound.root, hsound.sums.counters, ?_, ?_⟩
    · show t.progress.found.reverse = _
      rw [hsound.sums.found, List.reverse_reverse]
    · rw [← hstage]
      exact hsound.stage
  · rw [hending, hpool.stopped]
  · rw [hending, hending]
    exact hpool.dropped

end MaximalCliques
