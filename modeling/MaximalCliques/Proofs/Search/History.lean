import MaximalCliques.Counters
import MaximalCliques.Search.Plan

/-!
# The history of a search that nobody stops

Given the neighbourhoods, a search that nobody stops has one history.  The history of the search below
a node consists of the node itself, the polls before its branches, and the histories below these.

* **`SearchNode.induction`** — induction over the search tree: a node from the loops over its
  candidates, a loop from the nodes below its first candidate and from the loop over the others.
* **`Run.events`**, **`Run.result`** — the history of a search and its result.
* **`Run.trail_unstopped`** — they are what happens if no poll is answered by a stop.
* **`Plan.below`**, **`Plan.along`** — the histories below a node and along a list of candidates;
  **`Plan.below_cases`** says how a history begins.
* **`Event.delivered`**, **`Event.tally`**, **`Event.polls`** — what events deliver, what they add to
  the counters, and how many of them are polls.
-/

namespace MaximalCliques

variable {α β γ : Type}

/-! ### Induction over the search tree -/

/-- **Induction over the search tree.**  The neighbourhoods are left open, and so is how the candidates
of a node are parted. -/
theorem SearchNode.induction {N : SearchNode α → Prop}
    {L : List α → List α → List α → List α → Prop}
    (node : ∀ n : SearchNode α,
      (∀ s : Split n.candidates, L n.committed s.todo s.kept n.excluded) → N n)
    (nil : ∀ R kept X, L R [] kept X)
    (cons : ∀ R v rest kept X, (∀ h, N (.child R v (rest ++ kept) X h)) →
      L R rest kept (v :: X) → L R (v :: rest) kept X) :
    (∀ n, N n) ∧ ∀ R todo kept X, L R todo kept X := by
  have loops : ∀ k R todo kept X, todo.length + kept.length ≤ k → L R todo kept X := by
    intro k
    induction k with
    | zero =>
      intro R todo kept X hk
      have htodo : todo = [] := List.length_eq_zero_iff.1 (by omega)
      rw [htodo]
      exact nil R kept X
    | succ k ih =>
      intro R todo
      induction todo with
      | nil => intro kept X _; exact nil R kept X
      | cons v rest ihrest =>
        intro kept X hk
        rw [List.length_cons] at hk
        refine cons R v rest kept X (fun h => node _ fun s => ih _ _ _ _ ?_)
          (ihrest kept (v :: X) (by omega))
        have hc : (SearchNode.child R v (rest ++ kept) X h).candidates.length
            ≤ (rest ++ kept).length := SearchNode.length_candidates_child ..
        rw [List.length_append] at hc
        have hs := s.length_eq
        omega
  exact ⟨fun n => node n fun s => loops _ _ _ _ _ (Nat.le_refl _),
    fun R todo kept X => loops _ R todo kept X (Nat.le_refl _)⟩

/-! ### What events add up to -/

namespace Event

def clique? : Event α → Option (List α)
  | emit clique => some clique
  | _ => none

/-- What an event adds to the counters. -/
def count : Event α → Counters
  | visit _ => { calls := 1 }
  | poll _ _ goOn => { branches := if goOn then 1 else 0 }
  | emit _ => { cliques := 1 }

def isPoll : Event α → Bool
  | poll .. => true
  | _ => false

/-- Is the event a poll that is answered by going on? -/
def isPassed : Event α → Bool
  | poll _ _ goOn => goOn
  | _ => false

def delivered (es : List (Event α)) : List (List α) := es.filterMap clique?

def tally (es : List (Event α)) : Counters := es.foldr (fun e c => e.count + c) {}

def polls (es : List (Event α)) : Nat := es.countP isPoll

@[simp] theorem delivered_nil : delivered ([] : List (Event α)) = [] := rfl

@[simp] theorem delivered_visit (n : SearchNode α) (es : List (Event α)) :
    delivered (.visit n :: es) = delivered es := rfl

@[simp] theorem delivered_poll (n : SearchNode α) (v : α) (goOn : Bool) (es : List (Event α)) :
    delivered (.poll n v goOn :: es) = delivered es := rfl

@[simp] theorem delivered_emit (c : List α) (es : List (Event α)) :
    delivered (.emit c :: es) = c :: delivered es := rfl

@[simp] theorem delivered_append (es fs : List (Event α)) :
    delivered (es ++ fs) = delivered es ++ delivered fs := List.filterMap_append

@[simp] theorem polls_nil : polls ([] : List (Event α)) = 0 := rfl

@[simp] theorem polls_visit (n : SearchNode α) (es : List (Event α)) :
    polls (.visit n :: es) = polls es := List.countP_cons_of_neg Bool.false_ne_true

@[simp] theorem polls_poll (n : SearchNode α) (v : α) (goOn : Bool) (es : List (Event α)) :
    polls (.poll n v goOn :: es) = polls es + 1 := List.countP_cons_of_pos rfl

@[simp] theorem polls_emit (c : List α) (es : List (Event α)) :
    polls (.emit c :: es) = polls es := List.countP_cons_of_neg Bool.false_ne_true

theorem polls_append (es fs : List (Event α)) : polls (es ++ fs) = polls es + polls fs :=
  List.countP_append

@[simp] theorem tally_nil : tally ([] : List (Event α)) = {} := rfl

theorem tally_cons (e : Event α) (es : List (Event α)) : tally (e :: es) = e.count + tally es := rfl

theorem tally_singleton (e : Event α) : tally [e] = e.count := Counters.add_zero e.count

theorem tally_append (es fs : List (Event α)) : tally (es ++ fs) = tally es + tally fs := by
  induction es with
  | nil => rw [List.nil_append, tally_nil, Counters.add_comm, Counters.add_zero]
  | cons e es ih => rw [List.cons_append, tally_cons, tally_cons, ih, Counters.add_assoc]

theorem branches_tally (es : List (Event α)) : (tally es).branches = es.countP isPassed := by
  induction es with
  | nil => rfl
  | cons e es ih =>
    rw [tally_cons, List.countP_cons, Int.natCast_add, ← ih, Int.add_comm]
    cases e with
    | poll n v goOn => cases goOn <;> rfl
    | _ => rfl

end Event

/-! ### Histories -/

namespace Run

/-- The events of a search that nobody stops, given the neighbourhoods. -/
def events (hoods : α → Hood α) : Run α β → List (Event α)
  | done _ => []
  | ask v resume => (resume (hoods v)).events hoods
  | visit node rest => .visit node :: rest.events hoods
  | branch node v rest => .poll node v true :: rest.events hoods
  | emit clique rest => .emit clique :: rest.events hoods

/-- The result of a search that nobody stops. -/
def result (hoods : α → Hood α) : Run α β → β
  | done b => b
  | ask v resume => (resume (hoods v)).result hoods
  | visit _ rest => rest.result hoods
  | branch _ _ rest => rest.result hoods
  | emit _ rest => rest.result hoods

/-- **A search that no poll stops** passes through all its events. -/
theorem trail_unstopped {hoods : α → Hood α} {run : Run α β} {stop : Nat → Bool} {polls : Nat}
    (h : ∀ k < Event.polls (run.events hoods), stop (polls + k) = false) :
    run.trail hoods stop polls = (run.events hoods, some (run.result hoods)) := by
  induction run generalizing polls with
  | done b => rfl
  | ask v resume ih => exact ih (hoods v) h
  | visit node rest ih => simp only [trail, ih h, events, result]
  | branch node v rest ih =>
    rw [events, Event.polls_poll] at h
    have hfirst : stop polls = false := h 0 (by omega)
    have hrest : rest.trail hoods stop (polls + 1)
        = (rest.events hoods, some (rest.result hoods)) := ih fun k hk => by
      rw [Nat.add_assoc, Nat.add_comm 1]
      exact h (k + 1) (by omega)
    simp [trail, hfirst, hrest, events, result]
  | emit clique rest ih => simp only [trail, ih h, events, result]

theorem trail_never (hoods : α → Hood α) (run : Run α β) (polls : Nat) :
    run.trail hoods (fun _ => false) polls = (run.events hoods, some (run.result hoods)) :=
  trail_unstopped fun _ _ => rfl

theorem events_askAll (hoods : α → Hood α) (us : List α) (k : List (Hood α) → Run α β) :
    (askAll us k).events hoods = (k (us.map hoods)).events hoods := by
  induction us generalizing k with
  | nil => rfl
  | cons u us ih => exact ih _

theorem result_askAll (hoods : α → Hood α) (us : List α) (k : List (Hood α) → Run α β) :
    (askAll us k).result hoods = (k (us.map hoods)).result hoods := by
  induction us generalizing k with
  | nil => rfl
  | cons u us ih => exact ih _

end Run

/-! ### Histories of the recursive search -/

namespace Plan

/-- How a plan parts candidates, given the neighbourhoods. -/
def parted (plan : Plan α) (hoods : α → Hood α) (P X : List α) : Split P :=
  if plan.pivot && !P.isEmpty then
    match widest P ((plan.ordered (P ++ X)).map hoods) with
    | some h => plan.outside h P
    | none => plan.everyone P
  else plan.everyone P

theorem parted_of_not_pivot {plan : Plan α} (hpivot : plan.pivot = false) (hoods : α → Hood α)
    (P X : List α) : plan.parted hoods P X = plan.everyone P := by
  simp [parted, hpivot]

theorem events_choose (plan : Plan α) (hoods : α → Hood α) (P X : List α)
    (k : Split P → Run α β) :
    (plan.choose P X k).events hoods = (k (plan.parted hoods P X)).events hoods := by
  unfold choose parted
  split
  · rw [Run.events_askAll]
    cases widest P ((plan.ordered (P ++ X)).map hoods) <;> rfl
  · rfl

theorem result_choose (plan : Plan α) (hoods : α → Hood α) (P X : List α)
    (k : Split P → Run α β) :
    (plan.choose P X k).result hoods = (k (plan.parted hoods P X)).result hoods := by
  unfold choose parted
  split
  · rw [Run.result_askAll]
    cases widest P ((plan.ordered (P ++ X)).map hoods) <;> rfl
  · rfl

/-- Going through a candidate is searching below it and then going through the others. -/
theorem explore_cons (plan : Plan α) (R : List α) (v : α) (rest kept X : List α) (next : Run α β) :
    plan.explore R (v :: rest) kept X next = .branch ⟨R, v :: rest ++ kept, X⟩ v (.ask v fun h =>
      plan.expand (.child R v (rest ++ kept) X h) (plan.explore R rest kept (v :: X) next)) := by
  rw [explore]
  rfl

@[simp] theorem explore_nil (plan : Plan α) (R kept X : List α) (next : Run α β) :
    plan.explore R [] kept X next = next := by
  rw [explore]

/-- What happens below a node. -/
def below (plan : Plan α) (hoods : α → Hood α) (n : SearchNode α) : List (Event α) :=
  (plan.expand n (.done ())).events hoods

/-- What happens while the candidates `todo` of a node are gone through. -/
def along (plan : Plan α) (hoods : α → Hood α) (R todo kept X : List α) : List (Event α) :=
  (plan.explore R todo kept X (.done ())).events hoods

/-- What happens at a leaf of the search tree, or else along the candidates of a node. -/
theorem events_enter (plan : Plan α) (hoods : α → Hood α) (n : SearchNode α) (next : Run α β)
    (loop : Split n.candidates → Run α β) :
    (plan.enter n next loop).events hoods = .visit n :: if n.isMaximal
      then .emit n.committed :: next.events hoods
      else (loop (plan.parted hoods n.candidates n.excluded)).events hoods := by
  unfold enter
  split
  · rfl
  · rw [Run.events, events_choose]

/-- **A search and what comes after it** happen one after the other, and so do the loop over the
candidates of a node and what comes after it. -/
theorem events_search (plan : Plan α) (hoods : α → Hood α) :
    (∀ n : SearchNode α, ∀ {β : Type} (next : Run α β),
      (plan.expand n next).events hoods = plan.below hoods n ++ next.events hoods) ∧
    ∀ R todo kept X : List α, ∀ {β : Type} (next : Run α β),
      (plan.explore R todo kept X next).events hoods
        = plan.along hoods R todo kept X ++ next.events hoods := by
  apply SearchNode.induction
  case node =>
    intro n hloop β next
    simp only [below, expand, events_enter]
    split
    · rfl
    · rw [hloop, hloop, Run.events, List.append_nil, List.cons_append]
  case nil =>
    intro R kept X β next
    simp [along, Run.events]
  case cons =>
    intro R v rest kept X hchild hrest β next
    rw [along, explore_cons, explore_cons]
    simp only [Run.events]
    rw [hchild, hchild, hrest, hrest, Run.events]
    simp only [List.append_nil, List.cons_append, List.append_assoc]

theorem events_expand (plan : Plan α) (hoods : α → Hood α) (n : SearchNode α) (next : Run α β) :
    (plan.expand n next).events hoods = plan.below hoods n ++ next.events hoods :=
  (plan.events_search hoods).1 n next

/-- **The history below a node.** -/
theorem below_eq (plan : Plan α) (hoods : α → Hood α) (n : SearchNode α) :
    plan.below hoods n = .visit n :: if n.isMaximal then [.emit n.committed]
      else let s := plan.parted hoods n.candidates n.excluded
        plan.along hoods n.committed s.todo s.kept n.excluded := by
  simp only [below, expand, events_enter, Run.events, along]

@[simp] theorem along_nil (plan : Plan α) (hoods : α → Hood α) (R kept X : List α) :
    plan.along hoods R [] kept X = [] := by
  simp [along, Run.events]

/-- **The history along candidates**: below the first one, then along the others. -/
theorem along_cons (plan : Plan α) (hoods : α → Hood α) (R : List α) (v : α)
    (rest kept X : List α) :
    plan.along hoods R (v :: rest) kept X = .poll ⟨R, v :: rest ++ kept, X⟩ v true ::
      (plan.below hoods (.child R v (rest ++ kept) X (hoods v))
        ++ plan.along hoods R rest kept (v :: X)) := by
  simp only [along, explore_cons, Run.events, events_expand]

/-- **Below a node the first thing after the node itself is a poll**, unless there is no poll at all; then
no clique is delivered but that of the node. -/
theorem below_cases (plan : Plan α) (hoods : α → Hood α) (n : SearchNode α) :
    (n.candidates ≠ [] ∧ ∃ m v es, plan.below hoods n = .visit n :: .poll m v true :: es) ∨
      (Event.polls (plan.below hoods n) = 0 ∧
        ∀ c ∈ Event.delivered (plan.below hoods n), c = n.committed) := by
  rw [below_eq]
  cases hmaximal : n.isMaximal with
  | true => exact .inr ⟨rfl, fun c hc => List.mem_singleton.1 hc⟩
  | false =>
    rw [if_neg Bool.false_ne_true]
    have hlength := (plan.parted hoods n.candidates n.excluded).length_eq
    cases htodo : (plan.parted hoods n.candidates n.excluded).todo with
    | nil =>
      simp only [htodo, along_nil]
      exact .inr ⟨rfl, fun c hc => absurd hc List.not_mem_nil⟩
    | cons v rest =>
      simp only [htodo, along_cons]
      refine .inl ⟨fun hnone => ?_, _, _, _, rfl⟩
      rw [htodo, List.length_cons] at hlength
      have hzero := List.length_eq_zero_iff.2 hnone
      omega

end Plan

end MaximalCliques
