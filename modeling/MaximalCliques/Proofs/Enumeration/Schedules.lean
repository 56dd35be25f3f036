import Mathlib.Data.List.Basic
import MaximalCliques.Enumeration.Pool
import MaximalCliques.Proofs.Search.Requests

/-!
# Schedules of a pool

* **`Pool.Moves`** — what a move can do, case by case; **`Pool.exists_step_iff`** ties it to `Pool.step`.
* **`Pool.perform_append`** — a schedule after another one.
* **`Pool.perform_keeps`**, **`Pool.perform_induction`** — what every move keeps, a schedule keeps.
* **`Settings.AllowsWork`** — settings with which a branch can run; any positive number of workers does.
* **`Pool.exists_step`** — as long as a branch has not ended, some move is possible.
-/

namespace MaximalCliques

variable {σ : Type}

/-! ### Workers -/

/-- The number of workers is accepted, and there is room for a branch where none is running. -/
structure Settings.AllowsWork (settings : Settings) : Prop where
  accepted : settings.requireWorkers = .ok ()
  room : settings.hasRoom 0 = true

theorem Settings.allowsWork_of_pos {settings : Settings} {n : Int}
    (h : settings.parallelWorkers = .integer n) (hn : 1 ≤ n) : settings.AllowsWork where
  accepted := by
    have hnot : ¬ n ≤ 0 := by omega
    simp [requireWorkers, h, Comparison.notAbove_holds_integer, hnot, bind, Except.bind, pure,
      Except.pure]
  room := by
    have hlt : (0 : Int) < n := by omega
    simp [hasRoom, h, Comparison.below_holds_integer, hlt]

namespace Pool

/-! ### Moves -/

section Moves

variable (s : Subject) (g : Access σ) (settings : Settings) (stop : Nat → Query σ Bool)

/-- What a move can do: a waiting branch starts or is dropped; a running one ends or makes a request. -/
inductive Moves (pool : Pool σ) : Pool σ → Prop
  | start {i : Nat} {t : Task} (ht : pool.tasks[i]? = some t) (hstage : t.stage = .waiting)
      (hroom : settings.hasRoom pool.running = true) :
      Moves pool (pool.put i { t with stage := .running (Subject.searchBelow settings t.root) })
  | finish {i : Nat} {t : Task} (ht : pool.tasks[i]? = some t)
      (hstage : t.stage = .running (.done ())) :
      Moves pool (pool.put i { t with stage := .ended .finished })
  | request {i : Nat} {t : Task} {rest : Run Vertex Unit} (ht : pool.tasks[i]? = some t)
      (hstage : t.stage = .running rest) (hrest : rest.isDone = false) :
      Moves pool (pool.request s g stop i t rest)
  | drop {i : Nat} {t : Task} (ht : pool.tasks[i]? = some t) (hstage : t.stage = .waiting)
      (hbad : pool.tasks.any Task.isBad = true) :
      Moves pool (pool.put i { t with stage := .ended .dropped })

variable {s g settings stop} {pool pool' : Pool σ}

theorem step_work {i : Nat} {t : Task} {rest : Run Vertex Unit} (ht : pool.tasks[i]? = some t)
    (hstage : t.stage = .running rest) : pool.step s g settings stop (.work i)
      = if rest.isDone then some (pool.put i { t with stage := .ended .finished })
        else some (pool.request s g stop i t rest) := by
  simp only [step, ht, Option.bind_eq_bind, Option.bind_some, hstage]
  cases rest <;> rfl

/-- **A move is possible exactly where it does something of the four kinds.** -/
theorem exists_step_iff :
    (∃ move, pool.step s g settings stop move = some pool') ↔ pool.Moves s g settings stop pool' := by
  constructor
  · intro hmove
    obtain ⟨move, h⟩ := hmove
    cases move with
    | start i =>
      obtain ⟨t, ht, h⟩ := Option.bind_eq_some_iff.1 h
      split at h
      case h_1 hstage =>
        split at h
        case isTrue hroom =>
          rw [← Option.some.inj h]
          exact .start ht hstage hroom
        case isFalse => exact absurd h (by simp)
      case h_2 => exact absurd h (by simp)
    | work i =>
      obtain ⟨t, ht, -⟩ := Option.bind_eq_some_iff.1 h
      cases hstage : t.stage with
      | running rest =>
        rw [step_work ht hstage] at h
        cases hrest : rest.isDone with
        | true =>
          rw [hrest, if_pos rfl] at h
          rw [← Option.some.inj h]
          cases rest with
          | done b => exact .finish ht hstage
          | _ => exact absurd hrest (by simp [Run.isDone])
        | false =>
          rw [hrest, if_neg Bool.false_ne_true] at h
          rw [← Option.some.inj h]
          exact .request ht hstage hrest
      | _ => simp [step, ht, hstage] at h
    | drop i =>
      obtain ⟨t, ht, h⟩ := Option.bind_eq_some_iff.1 h
      split at h
      case h_1 hstage =>
        split at h
        case isTrue hbad =>
          rw [← Option.some.inj h]
          exact .drop ht hstage hbad
        case isFalse => exact absurd h (by simp)
      case h_2 => exact absurd h (by simp)
  · intro h
    cases h with
    | @start i t ht hstage hroom => exact ⟨.start i, by simp [step, ht, hstage, hroom]⟩
    | @finish i t ht hstage => exact ⟨.work i, by rw [step_work ht hstage]; rfl⟩
    | @request i t rest ht hstage hrest =>
      exact ⟨.work i, by rw [step_work ht hstage, hrest]; rfl⟩
    | @drop i t ht hstage hbad => exact ⟨.drop i, by simp [step, ht, hstage, hbad]⟩

/-! ### Schedules -/

theorem perform_append (moves moves' : List Move) (pool : Pool σ) :
    pool.perform s g settings stop (moves ++ moves')
      = (pool.perform s g settings stop moves).bind
        fun pool => pool.perform s g settings stop moves' := by
  induction moves generalizing pool with
  | nil => rfl
  | cons move moves ih =>
    rw [List.cons_append, perform, perform]
    cases pool.step s g settings stop move with
    | none => rfl
    | some next => exact ih next

/-- **What every move keeps, a schedule keeps.** -/
theorem perform_keeps {Inv : Pool σ → Prop}
    (hmove : ∀ pool pool', Inv pool → pool.Moves s g settings stop pool' → Inv pool')
    {moves : List Move} (hpool : Inv pool)
    (h : pool.perform s g settings stop moves = some pool') : Inv pool' := by
  induction moves generalizing pool with
  | nil => rwa [← Option.some.inj h]
  | cons move moves ih =>
    obtain ⟨next, hstep, h⟩ := Option.bind_eq_some_iff.1 h
    exact ih (hmove pool next hpool (exists_step_iff.1 ⟨move, hstep⟩)) h

/-- **The same with a measure**: if every move lowers it, it bounds the length of the schedule. -/
theorem perform_induction {Inv : Pool σ → Prop} {left : Pool σ → Nat}
    (hmove : ∀ pool pool', Inv pool → pool.Moves s g settings stop pool' →
      Inv pool' ∧ left pool' < left pool)
    {moves : List Move} (hpool : Inv pool)
    (h : pool.perform s g settings stop moves = some pool') :
    Inv pool' ∧ moves.length + left pool' ≤ left pool := by
  induction moves generalizing pool with
  | nil =>
    rw [← Option.some.inj h, List.length_nil]
    exact ⟨hpool, by omega⟩
  | cons move moves ih =>
    obtain ⟨next, hstep, h⟩ := Option.bind_eq_some_iff.1 h
    obtain ⟨hnext, hlt⟩ := hmove pool next hpool (exists_step_iff.1 ⟨move, hstep⟩)
    obtain ⟨hinv, hlength⟩ := ih hnext h
    rw [List.length_cons]
    exact ⟨hinv, by omega⟩

/-- **As long as a branch has not ended, some move is possible.**  A running branch makes a request or
ends; if none is running, a waiting one may start. -/
theorem exists_step (hwork : settings.AllowsWork) (hpool : pool.branches? = none) :
    ∃ move pool', pool.step s g settings stop move = some pool' := by
  have hmoves : ∃ pool', pool.Moves s g settings stop pool' := by
    by_cases hrunning : ∃ t ∈ pool.tasks, ∃ rest, t.stage = .running rest
    · obtain ⟨t, ht, rest, hstage⟩ := hrunning
      obtain ⟨i, hi⟩ := List.getElem?_of_mem ht
      cases rest with
      | done b => exact ⟨_, .finish hi hstage⟩
      | _ => exact ⟨_, .request hi hstage rfl⟩
    · have hnone : pool.running = 0 := by
        refine List.countP_eq_zero.2 fun t ht hrun => hrunning ⟨t, ht, ?_⟩
        unfold Task.isRunning at hrun
        split at hrun
        case h_1 rest hstage => exact ⟨rest, hstage⟩
        case h_2 => exact absurd hrun Bool.false_ne_true
      have hwaiting : ∃ t ∈ pool.tasks, t.stage = .waiting := by
        by_contra hwaiting
        have hall : (pool.tasks.all fun t => t.branch?.isSome) = true := by
          refine List.all_eq_true.2 fun t ht => ?_
          cases hstage : t.stage with
          | waiting => exact absurd ⟨t, ht, hstage⟩ hwaiting
          | running rest => exact absurd ⟨t, ht, rest, hstage⟩ hrunning
          | ended ending => simp [Task.branch?, hstage]
        rw [branches?, hall] at hpool
        exact absurd hpool (by simp)
      obtain ⟨t, ht, hstage⟩ := hwaiting
      obtain ⟨i, hi⟩ := List.getElem?_of_mem ht
      exact ⟨_, .start hi hstage (by rw [hnone]; exact hwork.room)⟩
  obtain ⟨pool', h⟩ := hmoves
  obtain ⟨move, hmove⟩ := exists_step_iff.2 h
  exact ⟨move, pool', hmove⟩

end Moves

end Pool

end MaximalCliques
