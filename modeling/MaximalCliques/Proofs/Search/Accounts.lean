import Mathlib.Data.Nat.Find
import MaximalCliques.Proofs.Search.Cutting

/-!
# What the counters of a search account for

Below a node the search announces the node itself, and then one node after each poll that it passes and
no other.  So however the search is cut short, the calls that it counts are one more than the branches,
and the branches are the polls that it has passed.

* **`Event.visited`** — the committed vertices of the nodes that events announce.
* **`Event.stops`** — how many polls are answered by a stop.
* **`Event.calls_tally`**, **`Event.cliques_tally`**, **`Event.polls_eq`** — what the counters and the
  polls are, in terms of these.
* **`Event.Alternate`** — after each poll that is passed, and nowhere else, a node is announced.
* **`Plan.alternate_search`** — below a node, the node comes first and the rest alternates.
* **`Counters.Accounts`** — counters that account for the cliques and for the polls.
* **`Plan.accounts_trail`** — a search is accounted for at each clique and at its end.
-/

namespace MaximalCliques

variable {α κ : Type}

namespace Event

/-! ### What is counted -/

/-- The committed vertices of the node that an event announces, if it does. -/
def visited? : Event α → Option (List α)
  | visit n => some n.committed
  | _ => none

/-- The committed vertices of the nodes that events announce, in order. -/
def visited (es : List (Event α)) : List (List α) := es.filterMap visited?

def isStop : Event α → Bool
  | poll _ _ goOn => !goOn
  | _ => false

def stops (es : List (Event α)) : Nat := es.countP isStop

@[simp] theorem visited_nil : visited ([] : List (Event α)) = [] := rfl

@[simp] theorem visited_visit (n : SearchNode α) (es : List (Event α)) :
    visited (.visit n :: es) = n.committed :: visited es := rfl

@[simp] theorem visited_poll (n : SearchNode α) (v : α) (goOn : Bool) (es : List (Event α)) :
    visited (.poll n v goOn :: es) = visited es := rfl

@[simp] theorem visited_emit (c : List α) (es : List (Event α)) :
    visited (.emit c :: es) = visited es := rfl

@[simp] theorem visited_append (es fs : List (Event α)) :
    visited (es ++ fs) = visited es ++ visited fs := List.filterMap_append

theorem visited_map (f : α → κ) (es : List (Event α)) :
    visited (es.map (Event.map f)) = (visited es).map (List.map f) := by
  induction es with
  | nil => rfl
  | cons e es ih => cases e <;> simp [Event.map, SearchNode.map, ih]

@[simp] theorem stops_nil : stops ([] : List (Event α)) = 0 := rfl

@[simp] theorem stops_visit (n : SearchNode α) (es : List (Event α)) :
    stops (.visit n :: es) = stops es := List.countP_cons_of_neg Bool.false_ne_true

theorem stops_append (es fs : List (Event α)) : stops (es ++ fs) = stops es + stops fs :=
  List.countP_append

theorem calls_tally (es : List (Event α)) : (tally es).calls = (visited es).length := by
  induction es with
  | nil => rfl
  | cons e es ih =>
    show e.count.calls + (tally es).calls = _
    rw [ih]
    cases e <;> simp [count, Int.add_comm]

theorem cliques_tally (es : List (Event α)) : (tally es).cliques = (delivered es).length := by
  induction es with
  | nil => rfl
  | cons e es ih =>
    show e.count.cliques + (tally es).cliques = _
    rw [ih]
    cases e <;> simp [count, Int.add_comm]

/-- **The polls are the branches that are counted** and the polls that are answered by a stop. -/
theorem polls_eq (es : List (Event α)) : (polls es : Int) = (tally es).branches + stops es := by
  rw [branches_tally, ← Int.natCast_add]
  congr 1
  induction es with
  | nil => rfl
  | cons e es ih =>
    simp only [polls, stops, List.countP_cons] at ih ⊢
    rw [ih]
    cases e with
    | poll n v goOn =>
      cases goOn <;> simp only [isPoll, isPassed, isStop, Bool.not_true, Bool.not_false, if_true,
        Bool.false_eq_true, if_false] <;> omega
    | _ => simp [isPoll, isPassed, isStop]

/-! ### Polls and nodes alternate -/

/-- **After each poll that is passed a node is announced**, and no other node is announced. -/
inductive Alternate : List (Event α) → Prop
  | nil : Alternate []
  | descend {n m : SearchNode α} {v : α} {es : List (Event α)} (h : Alternate es) :
      Alternate (.poll n v true :: .visit m :: es)
  | stop {n : SearchNode α} {v : α} {es : List (Event α)} (h : Alternate es) :
      Alternate (.poll n v false :: es)
  | emit {c : List α} {es : List (Event α)} (h : Alternate es) : Alternate (.emit c :: es)

namespace Alternate

variable {es fs : List (Event α)}

theorem append (h : Alternate es) (h' : Alternate fs) : Alternate (es ++ fs) := by
  induction h with
  | nil => exact h'
  | descend _ ih => exact .descend ih
  | stop _ ih => exact .stop ih
  | emit _ ih => exact .emit ih

theorem of_append_poll {n : SearchNode α} {v : α} {goOn : Bool}
    (h : Alternate (es ++ .poll n v goOn :: fs)) : Alternate es := by
  generalize hall : es ++ .poll n v goOn :: fs = all at h
  induction h generalizing es with
  | nil => exact absurd hall (by simp)
  | @descend n' m v' rest h ih =>
    match es, hall with
    | [], _ => exact .nil
    | [_], hall => simp at hall
    | _ :: _ :: es, hall =>
      obtain ⟨rfl, rfl, hrest⟩ : _ ∧ _ ∧ _ := by simpa using hall
      exact .descend (ih hrest)
  | stop h ih =>
    cases es with
    | nil => exact .nil
    | cons e es =>
      obtain ⟨rfl, hrest⟩ := List.cons.inj hall
      exact .stop (ih hrest)
  | emit h ih =>
    cases es with
    | nil => exact .nil
    | cons e es =>
      obtain ⟨rfl, hrest⟩ := List.cons.inj hall
      exact .emit (ih hrest)

theorem through (h : Alternate es) (n : Nat) : Alternate (through n es) := by
  induction h generalizing n with
  | nil => rw [through_eq_self (Nat.zero_le n)]; exact .nil
  | descend _ ih => cases n <;> exact .descend (ih _)
  | stop _ ih => cases n <;> exact .stop (ih _)
  | emit _ ih =>
    cases n with
    | zero => exact .emit .nil
    | succ n => exact .emit (ih n)

/-- **There are as many calls as branches** among events that alternate. -/
theorem calls_eq (h : Alternate es) : (tally es).calls = (tally es).branches := by
  induction h with
  | nil => rfl
  | @descend n m v es _ ih =>
    show 0 + (1 + (tally es).calls) = 1 + (0 + (tally es).branches)
    omega
  | @stop n v es _ ih =>
    show 0 + (tally es).calls = 0 + (tally es).branches
    omega
  | @emit c es _ ih =>
    show 0 + (tally es).calls = 0 + (tally es).branches
    omega

/-- A node followed by events that alternate counts for one call more. -/
theorem calls_visit (h : Alternate es) (n : SearchNode α) :
    (tally (.visit n :: es)).calls = (tally (.visit n :: es)).branches + 1 := by
  show 1 + (tally es).calls = 0 + (tally es).branches + 1
  rw [h.calls_eq]
  omega

end Alternate

theorem length_delivered_through (n : Nat) (es : List (Event α)) :
    (delivered (through n es)).length = min (n + 1) (delivered es).length := by
  induction es generalizing n with
  | nil => cases n <;> simp [through]
  | cons e es ih =>
    cases e with
    | visit m => simpa [through] using ih n
    | poll m v goOn => simpa [through] using ih n
    | emit c =>
      cases n with
      | zero => simp [through]
      | succ n => simp [through, ih]

theorem through_append {n : Nat} {es : List (Event α)} (h : n < (delivered es).length)
    (fs : List (Event α)) : through n (es ++ fs) = through n es := by
  induction es generalizing n with
  | nil => exact absurd h (Nat.not_lt_zero n)
  | cons e es ih =>
    cases e with
    | visit m => simp only [List.cons_append, through, ih (by simpa using h)]
    | poll m v goOn => simp only [List.cons_append, through, ih (by simpa using h)]
    | emit c =>
      cases n with
      | zero => rfl
      | succ n => simp only [List.cons_append, through, ih (by simpa using h)]

theorem through_prefix (n : Nat) (es : List (Event α)) : through n es <+: es := by
  induction es generalizing n with
  | nil => cases n <;> exact List.nil_prefix
  | cons e es ih =>
    cases e with
    | visit m => cases n <;> exact (List.prefix_cons_inj _).2 (ih _)
    | poll m v goOn => cases n <;> exact (List.prefix_cons_inj _).2 (ih _)
    | emit c =>
      cases n with
      | zero => exact ⟨es, rfl⟩
      | succ n => exact (List.prefix_cons_inj _).2 (ih n)

/-- Where no poll is answered by a stop, none of the first ones is. -/
theorem stops_of_prefix {es fs : List (Event α)} (h : es <+: fs) (hfs : stops fs = 0) :
    stops es = 0 :=
  Nat.eq_zero_of_le_zero (hfs ▸ h.sublist.countP_le)

end Event

/-! ### Searches -/

/-- The nodes that a mirrored search announces commit to vertices in `S`. -/
theorem Run.Mirrors.visited {β δ : Type} {f : α → κ} {S : α → Prop} {hoods : α → Hood α}
    {hoods' : κ → Hood κ} {q : β → δ → Prop} {run : Run α β} {run' : Run κ δ}
    (h : run.Mirrors f S hoods hoods' q run') :
    ∀ c ∈ Event.visited (run.events hoods), ∀ u ∈ c, S u := by
  induction h with
  | done => intro c hc; exact absurd hc List.not_mem_nil
  | ask _ _ ih => exact ih
  | visit hn _ ih =>
    intro c hc
    rcases List.mem_cons.1 hc with rfl | hc
    · exact hn.committed
    · exact ih c hc
  | branch _ _ _ ih => exact ih
  | emit _ _ ih => exact ih

theorem Run.stops_events {β : Type} (hoods : α → Hood α) (run : Run α β) :
    Event.stops (run.events hoods) = 0 := by
  induction run with
  | done b => rfl
  | ask v resume ih => exact ih (hoods v)
  | visit n rest ih => simpa [events, Event.stops, Event.isStop] using ih
  | branch n v rest ih => simpa [events, Event.stops, Event.isStop] using ih
  | emit c rest ih => simpa [events, Event.stops, Event.isStop] using ih

/-- **A search goes through its history**, or through the events before one of its polls and a poll that
stops it. -/
theorem Run.trail_cases {β : Type} (hoods : α → Hood α) (run : Run α β) (stop : Nat → Bool) :
    run.trail hoods stop 0 = (run.events hoods, some (run.result hoods)) ∨
      ∃ es n v goOn fs m u, run.events hoods = es ++ .poll n v goOn :: fs ∧
        run.trail hoods stop 0 = (es ++ [.poll m u false], none) := by
  by_cases hstop : ∃ k, k < Event.polls (run.events hoods) ∧ stop k = true
  · obtain ⟨hmade, hfirst⟩ := Nat.find_spec hstop
    have hbefore : ∀ j < Nat.find hstop, stop (0 + j) = false := by
      intro j hj
      rw [Nat.zero_add, ← Bool.not_eq_true]
      exact fun h => Nat.find_min hstop hj ⟨by omega, h⟩
    obtain ⟨n, v, goOn, fs, hevents, -⟩ := Event.exists_before hmade
    obtain ⟨m, u, htrail⟩ := trail_stopped hmade hbefore (by rw [Nat.zero_add]; exact hfirst)
    exact .inr ⟨_, n, v, goOn, fs, m, u, hevents, htrail⟩
  · refine .inl (trail_unstopped fun k hk => ?_)
    rw [Nat.zero_add, ← Bool.not_eq_true]
    exact fun h => hstop ⟨k, hk, h⟩

namespace Plan

variable (plan : Plan α) (hoods : α → Hood α)

/-- **Below a node the node comes first** and the rest alternates; so does what happens along candidates. -/
theorem alternate_search :
    (∀ n : SearchNode α, ∃ es, plan.below hoods n = .visit n :: es ∧ Event.Alternate es) ∧
    ∀ R todo kept X : List α, Event.Alternate (plan.along hoods R todo kept X) := by
  apply SearchNode.induction
  case node =>
    intro n hloop
    rw [below_eq]
    refine ⟨_, rfl, ?_⟩
    split
    · exact .emit .nil
    · exact hloop _
  case nil =>
    intro R kept X
    rw [along_nil]
    exact .nil
  case cons =>
    intro R v rest kept X hchild hrest
    obtain ⟨es, hes, halternate⟩ := hchild (hoods v)
    rw [along_cons, hes]
    exact .descend (halternate.append hrest)

/-- **A search below a node announces the node and goes on alternating**: through events of which no poll
is a stop, and then, if it is stopped, through the poll that stops it. -/
theorem exists_trail_eq (n : SearchNode α) (stop : Nat → Bool)
    {trail : List (Event α) × Option Unit}
    (htrail : (plan.expand n (.done ())).trail hoods stop 0 = trail) :
    ∃ es fs, .visit n :: es <+: plan.below hoods n ∧ Event.Alternate es ∧ Event.stops es = 0 ∧
      trail.1 = .visit n :: (es ++ fs) ∧ Event.Alternate fs ∧ Event.delivered fs = [] ∧
      Event.stops fs = if trail.2.isSome then 0 else 1 := by
  obtain ⟨rest, hbelow, halternate⟩ := (plan.alternate_search hoods).1 n
  have hstops : Event.stops (plan.below hoods n) = 0 := Run.stops_events hoods _
  rcases Run.trail_cases hoods (plan.expand n (.done ())) stop with h | h
  · rw [← htrail, h]
    rw [hbelow] at hstops ⊢
    exact ⟨rest, [], List.prefix_refl _, halternate, hstops, by rw [List.append_nil, ← hbelow]; rfl,
      .nil, rfl, rfl⟩
  · obtain ⟨es, m, v, goOn, gs, m', v', hcut, h⟩ := h
    have hall : .visit n :: rest = es ++ .poll m v goOn :: gs := hbelow.symm.trans hcut
    cases es with
    | nil => cases (List.cons.inj hall).1
    | cons e es =>
      obtain ⟨rfl, rfl⟩ := List.cons.inj hall
      have hbegins : .visit n :: es <+: plan.below hoods n := ⟨_, hcut.symm⟩
      rw [← htrail, h]
      exact ⟨es, [.poll m' v' false], hbegins, halternate.of_append_poll,
        (Event.stops_visit n es).symm.trans (Event.stops_of_prefix hbegins hstops), rfl, .stop .nil, rfl,
        rfl⟩

end Plan

/-! ### Counters that account for what has happened -/

/-- **Counters that account for cliques and polls** since they stood at `initial`: the calls are one more
than the branches, and the branches are the polls that have been passed. -/
structure Counters.Accounts (initial c : Counters) (cliques polls stops : Nat) : Prop where
  calls : c.calls - initial.calls = c.branches - initial.branches + 1
  cliques : c.cliques - initial.cliques = cliques
  polls : (polls : Int) = c.branches - initial.branches + stops

/-- A node followed by events that alternate is accounted for by what they add to the counters. -/
theorem Event.Alternate.accounts {es : List (Event α)} (h : Alternate es) (n : SearchNode α)
    (initial : Counters) : initial.Accounts (initial + Event.tally (.visit n :: es))
      (Event.delivered es).length (Event.polls es) (Event.stops es) where
  calls := by
    show initial.calls + (Event.tally (.visit n :: es)).calls - initial.calls
      = initial.branches + (Event.tally (.visit n :: es)).branches - initial.branches + 1
    rw [h.calls_visit]
    omega
  cliques := by
    show initial.cliques + (0 + (Event.tally es).cliques) - initial.cliques = _
    rw [Event.cliques_tally]
    omega
  polls := by
    show _ = initial.branches + (0 + (Event.tally es).branches) - initial.branches + _
    rw [Event.polls_eq]
    omega

/-- **A search below a node is accounted for** when it ends, and at each clique that it delivers. -/
theorem Plan.accounts_trail (plan : Plan α) (hoods : α → Hood α) (n : SearchNode α)
    (stop : Nat → Bool) (initial : Counters) {trail : List (Event α) × Option Unit}
    (htrail : (plan.expand n (.done ())).trail hoods stop 0 = trail) :
    initial.Accounts (initial + Event.tally trail.1) (Event.delivered trail.1).length
        (Event.polls trail.1) (if trail.2.isSome then 0 else 1) ∧
      ∀ k < (Event.delivered trail.1).length,
        initial.Accounts (initial + Event.tally (Event.through k trail.1)) (k + 1)
          (Event.polls (Event.through k trail.1)) 0 := by
  obtain ⟨es, fs, -, hes, hpassed, heq, hfs, hnone, hstops⟩ := plan.exists_trail_eq hoods n stop htrail
  rw [heq]
  constructor
  · have haccounts := (hes.append hfs).accounts n initial
    rw [Event.stops_append, hpassed, hstops, Nat.zero_add] at haccounts
    rw [Event.delivered_visit, Event.polls_visit]
    exact haccounts
  · intro k hk
    rw [Event.delivered_visit, Event.delivered_append, hnone, List.append_nil] at hk
    have haccounts := (hes.through k).accounts n initial
    rw [Event.stops_of_prefix (Event.through_prefix k es) hpassed, Event.length_delivered_through,
      Nat.min_eq_left hk] at haccounts
    rw [Event.through_visit, Event.through_append hk, Event.polls_visit]
    exact haccounts

end MaximalCliques
