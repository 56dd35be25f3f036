import MaximalCliques.Proofs.Search.Mirror
import MaximalCliques.Search.Conductor

/-!
# Cutting a history

A stopped search goes through the beginning of the history that it has when nobody stops it, up to the
poll that is answered by a stop.  A search that is conducted from clique to clique goes through it leg
by leg.

* **`Event.before`** — the events before a given poll; **`Event.before_eq_of_append`** recognizes them.
* **`Run.trail_stopped`** — where a search is stopped by the first of its polls that is answered so.
* **`Event.through`** — the events through the delivery of a given clique.
* **`Run.leg`** — what happens up to the next clique; **`Run.trail_eq_leg`** and **`Run.through_leg`** say
  that the trail of a search begins with it.
-/

namespace MaximalCliques

variable {α β κ : Type}

namespace Event

/-! ### Before a poll -/

def before : Nat → List (Event α) → List (Event α)
  | _, [] => []
  | k, .visit n :: es => .visit n :: before k es
  | 0, .poll _ _ _ :: _ => []
  | k + 1, .poll n v goOn :: es => .poll n v goOn :: before k es
  | k, .emit c :: es => .emit c :: before k es

/-- Events with `k` polls among them, followed by a poll, are the events before it. -/
theorem before_eq_of_append (es fs : List (Event α)) (n : SearchNode α) (v : α) (goOn : Bool) :
    before (polls es) (es ++ .poll n v goOn :: fs) = es := by
  induction es with
  | nil => rfl
  | cons e es ih => cases e <;> simp [before, ih]

theorem exists_before {k : Nat} {es : List (Event α)} (h : k < polls es) :
    ∃ n v goOn fs, es = before k es ++ .poll n v goOn :: fs ∧ polls (before k es) = k := by
  induction es generalizing k with
  | nil => exact absurd h (Nat.not_lt_zero k)
  | cons e es ih =>
    cases e with
    | visit m =>
      obtain ⟨n, v, goOn, fs, hes, hk⟩ := ih (k := k) (by simpa using h)
      exact ⟨n, v, goOn, fs, congrArg (.visit m :: ·) hes, by simpa [before] using hk⟩
    | poll m u b =>
      cases k with
      | zero => exact ⟨m, u, b, es, rfl, rfl⟩
      | succ k =>
        obtain ⟨n, v, goOn, fs, hes, hk⟩ := ih (k := k) (by simpa using h)
        exact ⟨n, v, goOn, fs, congrArg (.poll m u b :: ·) hes, by simpa [before] using hk⟩
    | emit c =>
      obtain ⟨n, v, goOn, fs, hes, hk⟩ := ih (k := k) (by simpa using h)
      exact ⟨n, v, goOn, fs, congrArg (.emit c :: ·) hes, by simpa [before] using hk⟩

theorem before_prefix {k : Nat} {es : List (Event α)} (h : k < polls es) : before k es <+: es := by
  obtain ⟨n, v, goOn, fs, hes, -⟩ := exists_before h
  exact ⟨_, hes.symm⟩

end Event

namespace Run

/-- **A search is stopped by the first poll that is answered so**, and goes through the events before it
and the poll itself. -/
theorem trail_stopped {hoods : α → Hood α} {run : Run α β} {stop : Nat → Bool} {polls k : Nat}
    (hk : k < Event.polls (run.events hoods)) (hbefore : ∀ j < k, stop (polls + j) = false)
    (hstop : stop (polls + k) = true) : ∃ n v,
      run.trail hoods stop polls = (Event.before k (run.events hoods) ++ [.poll n v false], none) := by
  induction run generalizing polls k with
  | done b => exact absurd hk (Nat.not_lt_zero k)
  | ask v resume ih => exact ih (hoods v) hk hbefore hstop
  | visit m rest ih =>
    rw [events, Event.polls_visit] at hk
    obtain ⟨n, v, htrail⟩ := ih hk hbefore hstop
    exact ⟨n, v, by simp only [trail, htrail, events, Event.before, List.cons_append]⟩
  | branch m u rest ih =>
    cases k with
    | zero => exact ⟨m, u, by simp [trail, events, Event.before, show stop polls = true from hstop]⟩
    | succ k =>
      have hfirst : stop polls = false := hbefore 0 (by omega)
      have hshift : ∀ j, polls + 1 + j = polls + (j + 1) := by omega
      rw [events, Event.polls_poll] at hk
      obtain ⟨n, v, htrail⟩ := @ih (polls + 1) k (by omega)
        (fun j hj => by rw [hshift]; exact hbefore (j + 1) (by omega)) (by rw [hshift]; exact hstop)
      exact ⟨n, v, by simp [trail, hfirst, htrail, events, Event.before]⟩
  | emit c rest ih =>
    rw [events, Event.polls_emit] at hk
    obtain ⟨n, v, htrail⟩ := ih hk hbefore hstop
    exact ⟨n, v, by simp only [trail, htrail, events, Event.before, List.cons_append]⟩

end Run

/-! ### From clique to clique -/

namespace Event

/-- The events through the delivery of the clique that comes after `n` others; all events, if there is
no such clique. -/
def through : Nat → List (Event α) → List (Event α)
  | _, [] => []
  | n, .visit m :: es => .visit m :: through n es
  | n, .poll m v goOn :: es => .poll m v goOn :: through n es
  | 0, .emit c :: _ => [.emit c]
  | n + 1, .emit c :: es => .emit c :: through n es

theorem through_visit (n : Nat) (m : SearchNode α) (es : List (Event α)) :
    through n (.visit m :: es) = .visit m :: through n es := by
  cases n <;> rfl

theorem through_map (f : α → κ) (n : Nat) (es : List (Event α)) :
    through n (es.map (Event.map f)) = (through n es).map (Event.map f) := by
  induction es generalizing n with
  | nil => rfl
  | cons e es ih =>
    cases e with
    | visit m => exact congrArg (_ :: ·) (ih n)
    | poll m v goOn => exact congrArg (_ :: ·) (ih n)
    | emit c =>
      cases n with
      | zero => rfl
      | succ n => exact congrArg (_ :: ·) (ih n)

theorem through_eq_self {n : Nat} {es : List (Event α)} (h : (delivered es).length ≤ n) :
    through n es = es := by
  induction es generalizing n with
  | nil => cases n <;> rfl
  | cons e es ih =>
    cases e with
    | visit m => simp only [through, ih h]
    | poll m v goOn => simp only [through, ih h]
    | emit c =>
      cases n with
      | zero => exact absurd h (by simp)
      | succ n =>
        rw [delivered_emit, List.length_cons] at h
        simp only [through, ih (Nat.le_of_succ_le_succ h)]

end Event

def Pause.trail (hoods : α → Hood α) (stop : Nat → Bool) (polls : Nat) :
    Pause α β → List (Event α) × Option β
  | clique _ rest => rest.trail hoods stop polls
  | done b => ([], some b)
  | stopped => ([], none)

def Pause.clique? : Pause α β → Option (List α)
  | clique c _ => some c
  | _ => none

namespace Run

/-- What happens up to the next clique, and where the search then stands. -/
def leg (hoods : α → Hood α) (stop : Nat → Bool) (polls : Nat) :
    Run α β → List (Event α) × Pause α β
  | done b => ([], .done b)
  | ask v resume => (resume (hoods v)).leg hoods stop polls
  | visit node rest =>
    let (events, pause) := rest.leg hoods stop polls
    (.visit node :: events, pause)
  | branch node v rest =>
    if stop polls then ([.poll node v false], .stopped)
    else
      let (events, pause) := rest.leg hoods stop (polls + 1)
      (.poll node v true :: events, pause)
  | emit clique rest => ([.emit clique], .clique clique rest)

variable {hoods : α → Hood α} {stop : Nat → Bool}

/-- **A trail begins with a leg.** -/
theorem trail_eq_leg (run : Run α β) (polls : Nat) : run.trail hoods stop polls
    = let after := (run.leg hoods stop polls).2.trail hoods stop
        (polls + Event.polls (run.leg hoods stop polls).1)
      ((run.leg hoods stop polls).1 ++ after.1, after.2) := by
  induction run generalizing polls with
  | done b => rfl
  | ask v resume ih => exact ih (hoods v) polls
  | visit node rest ih =>
    simp only [trail, leg, ih polls, Event.polls_visit, List.cons_append]
  | branch node v rest ih =>
    cases hstop : stop polls with
    | true => simp [trail, leg, hstop, Pause.trail]
    | false =>
      have hshift : ∀ k, polls + 1 + k = polls + (k + 1) := by omega
      simp [trail, leg, hstop, ih (polls + 1), hshift]
  | emit clique rest => simp [trail, leg, Pause.trail]

theorem delivered_leg (run : Run α β) (polls : Nat) :
    Event.delivered (run.leg hoods stop polls).1 = (run.leg hoods stop polls).2.clique?.toList := by
  induction run generalizing polls with
  | done b => rfl
  | ask v resume ih => exact ih (hoods v) polls
  | visit node rest ih => exact ih polls
  | branch node v rest ih =>
    cases hstop : stop polls with
    | true => simp [leg, hstop, Pause.clique?]
    | false => simpa [leg, hstop] using ih (polls + 1)
  | emit clique rest => rfl

/-- **What happens through a later clique** happens after the first leg, which ends with a clique. -/
theorem through_leg {run : Run α β} {polls : Nat} {c : List α} {rest : Run α β}
    (h : (run.leg hoods stop polls).2 = .clique c rest) (fs : List (Event α)) :
    Event.through 0 ((run.leg hoods stop polls).1 ++ fs) = (run.leg hoods stop polls).1 ∧
      ∀ n, Event.through (n + 1) ((run.leg hoods stop polls).1 ++ fs)
        = (run.leg hoods stop polls).1 ++ Event.through n fs := by
  induction run generalizing polls with
  | done b => cases h
  | ask v resume ih => exact ih (hoods v) h
  | visit node next ih =>
    obtain ⟨hzero, hsucc⟩ := ih h
    refine ⟨?_, fun n => ?_⟩
    · simp only [leg, List.cons_append, Event.through, hzero]
    · simp only [leg, List.cons_append, Event.through, hsucc]
  | branch node v next ih =>
    cases hstop : stop polls with
    | true => simp [leg, hstop] at h
    | false =>
      simp only [leg, hstop, Bool.false_eq_true, if_false] at h ⊢
      obtain ⟨hzero, hsucc⟩ := ih h
      refine ⟨?_, fun n => ?_⟩
      · simp only [List.cons_append, Event.through, hzero]
      · simp only [List.cons_append, Event.through, hsucc]
  | emit clique next => exact ⟨rfl, fun n => rfl⟩

/-- What is left after a leg asks for vertices in `S` only, if the search does. -/
theorem Within.leg {S : α → Prop} {run : Run α β} (hrun : run.Within S hoods) {polls : Nat}
    {c : List α} {rest : Run α β} (h : (run.leg hoods stop polls).2 = .clique c rest) :
    rest.Within S hoods := by
  induction run generalizing polls with
  | done b => cases h
  | ask v resume ih => exact ih (hoods v) hrun.2 h
  | visit node next ih => exact ih hrun h
  | branch node v next ih =>
    cases hstop : stop polls with
    | true => simp [Run.leg, hstop] at h
    | false =>
      simp only [Run.leg, hstop, Bool.false_eq_true, if_false] at h
      exact ih hrun h
  | emit clique next =>
    cases h
    exact hrun

end Run

end MaximalCliques
