import MaximalCliques.Proofs.Search.Mirror
import MaximalCliques.Search.Conductor

/-!
# One request after the other

* **`Run.advance`** — what the first request of a search does, given its answer.
* **`Run.events_advance`**, **`Run.trail_advance`** — the history and the trail of a search begin with it.
* **`Run.requestwise`** — induction over a search, one request after the other.
* **`Run.requests`** — how many requests a search makes; each one answered leaves one less.
* **`Run.finish_eq_step`** — conducting a search to its end answers one request after the other.
* **`Run.afterRequests`** — what is left of a search after a number of requests.
-/

namespace MaximalCliques.Run

variable {α β : Type}

/-- Is no request left? -/
def isDone : Run α β → Bool
  | done _ => true
  | _ => false

/-- The events of the first request of a search, and the rest of the search unless it is stopped. -/
def advance (hoods : α → Hood α) (goOn : Bool) : Run α β → List (Event α) × Option (Run α β)
  | done b => ([], some (done b))
  | ask v resume => ([], some (resume (hoods v)))
  | visit node rest => ([.visit node], some rest)
  | branch node v rest => ([.poll node v goOn], if goOn then some rest else none)
  | emit clique rest => ([.emit clique], some rest)

variable {hoods : α → Hood α}

/-- **The history of a search** begins with its first request, if that does not stop it. -/
theorem events_advance {goOn : Bool} {run rest : Run α β}
    (h : (run.advance hoods goOn).2 = some rest) :
    run.events hoods = (run.advance hoods goOn).1 ++ rest.events hoods := by
  cases run with
  | done b => rw [← Option.some.inj h]; rfl
  | ask v resume => rw [← Option.some.inj h]; rfl
  | visit node rest => rw [← Option.some.inj h]; rfl
  | branch node v rest =>
    cases goOn with
    | false => exact absurd h (by simp [advance])
    | true => rw [← Option.some.inj h]; rfl
  | emit clique rest => rw [← Option.some.inj h]; rfl

/-- A search is stopped by the answer to a poll only, and this poll comes next in its history. -/
theorem advance_eq_none {goOn : Bool} {run : Run α β} (h : (run.advance hoods goOn).2 = none) :
    goOn = false ∧ ∃ n v, (run.advance hoods goOn).1 = [.poll n v false] ∧
      [.poll n v true] <+: run.events hoods := by
  cases run with
  | branch n v rest =>
    cases goOn with
    | false => exact ⟨rfl, n, v, rfl, _, rfl⟩
    | true => exact absurd h (by simp [advance])
  | _ => exact absurd h (by simp [advance])

/-- A request that leaves something is no poll, or a poll that is answered by going on. -/
theorem polls_advance {goOn : Bool} {run rest : Run α β}
    (h : (run.advance hoods goOn).2 = some rest) :
    Event.polls (run.advance hoods goOn).1 = 0 ∨
      Event.polls (run.advance hoods goOn).1 = 1 ∧ goOn = true := by
  cases run with
  | branch n v rest =>
    cases goOn with
    | false => exact absurd h (by simp [advance])
    | true => exact .inr ⟨rfl, rfl⟩
  | _ => exact .inl rfl

theorem branches_tally_advance (run : Run α β) :
    (Event.tally (run.advance hoods false).1).branches = 0 := by
  cases run <;> rfl

/-- The rest of a search asks for vertices in `S` only, if the search does. -/
theorem Within.advance {S : α → Prop} {goOn : Bool} {run rest : Run α β}
    (hrun : run.Within S hoods) (h : (run.advance hoods goOn).2 = some rest) :
    rest.Within S hoods := by
  cases run with
  | done b => rw [← Option.some.inj h]; exact hrun
  | ask v resume => rw [← Option.some.inj h]; exact hrun.2
  | visit node rest => rw [← Option.some.inj h]; exact hrun
  | branch node v rest =>
    cases goOn with
    | false => exact absurd h (by simp [Run.advance])
    | true => rw [← Option.some.inj h]; exact hrun
  | emit clique rest => rw [← Option.some.inj h]; exact hrun

/-- **The trail of a search** begins with its first request. -/
theorem trail_advance {stop : Nat → Bool} {polls : Nat} {run : Run α β} (hrun : run.isDone = false) :
    run.trail hoods stop polls = match run.advance hoods (!stop polls) with
      | (es, some rest) =>
        let (events, result) := rest.trail hoods stop (polls + Event.polls es)
        (es ++ events, result)
      | (es, none) => (es, none) := by
  cases run with
  | done b => exact absurd hrun (by simp [isDone])
  | ask v resume => rfl
  | visit node rest => rfl
  | branch node v rest =>
    cases hstop : stop polls <;> simp [trail, advance, hstop, Event.polls, Event.isPoll]
  | emit clique rest => rfl

/-! ### What is left of a search -/

/-- What may be left of a search after its first request. -/
def Leaves : Run α β → Run α β → Prop
  | done _, _ => False
  | ask _ resume, rest => ∃ h, rest = resume h
  | visit _ next, rest => rest = next
  | branch _ _ next, rest => rest = next
  | emit _ next, rest => rest = next

/-- **Induction over a search**, one request after the other. -/
theorem requestwise {P : Run α β → Prop}
    (h : ∀ run : Run α β, (∀ rest, run.Leaves rest → P rest) → P run) (run : Run α β) : P run := by
  induction run with
  | done b => exact h _ fun rest hrest => hrest.elim
  | ask v resume ih =>
    apply h
    rintro rest ⟨hood, rfl⟩
    exact ih hood
  | visit node next ih =>
    apply h
    intro rest hrest
    rw [show rest = next from hrest]
    exact ih
  | branch node v next ih =>
    apply h
    intro rest hrest
    rw [show rest = next from hrest]
    exact ih
  | emit clique next ih =>
    apply h
    intro rest hrest
    rw [show rest = next from hrest]
    exact ih

/-! ### How many requests -/

/-- The number of requests of a search that nobody stops. -/
def requests (hoods : α → Hood α) : Run α β → Nat
  | done _ => 0
  | ask v resume => (resume (hoods v)).requests hoods + 1
  | visit _ rest => rest.requests hoods + 1
  | branch _ _ rest => rest.requests hoods + 1
  | emit _ rest => rest.requests hoods + 1

theorem requests_advance {goOn : Bool} {run rest : Run α β} (hrun : run.isDone = false)
    (h : (run.advance hoods goOn).2 = some rest) :
    rest.requests hoods + 1 = run.requests hoods := by
  cases run with
  | done b => exact absurd hrun (by simp [isDone])
  | ask v resume => rw [← Option.some.inj h]; rfl
  | visit node rest => rw [← Option.some.inj h]; rfl
  | branch node v rest =>
    cases goOn with
    | false => exact absurd h (by simp [advance])
    | true => rw [← Option.some.inj h]; rfl
  | emit clique rest => rw [← Option.some.inj h]; rfl

/-! ### Conducting a search -/

section Conductor

variable {m : Type → Type} [Monad m] [LawfulMonad m]

/-- **Conducting a search to its end** is answering its first request and then conducting the rest. -/
theorem finish_eq_step (c : Conductor m α) {run : Run α β} (hrun : run.isDone = false) :
    run.finish c = run.step c >>= fun
      | some rest => rest.finish c
      | none => pure none := by
  cases run with
  | done b => exact absurd hrun (by simp [isDone])
  | ask v resume => simp only [finish, step, bind_assoc, pure_bind]
  | visit node rest => simp only [finish, step, bind_assoc, pure_bind]
  | branch node v rest =>
    simp only [finish, step, bind_assoc]
    congr 1
    funext goOn
    cases goOn <;> simp
  | emit clique rest => simp only [finish, step, bind_assoc, pure_bind]

end Conductor

/-- Answers `n` requests of a search and leaves the rest, unless it is stopped. -/
def afterRequests {m : Type → Type} [Monad m] (c : Conductor m α) :
    Nat → Run α β → m (Option (Run α β))
  | 0, run => pure (some run)
  | n + 1, run => do
    match ← run.step c with
    | some rest => rest.afterRequests c n
    | none => pure none

end MaximalCliques.Run
