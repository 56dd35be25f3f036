import MaximalCliques.Enumeration.Resumable
import MaximalCliques.Proofs.Enumeration.Exactness
import MaximalCliques.Proofs.Search.Cutting

/-!
# Enumerations that are resumed time and again

An enumeration that is held open goes through the trail of its search leg by leg: each time it is
resumed it delivers the next clique, until it comes to the end of the trail.

* **`OpenEnumeration.resumption`** — the resumption that comes after a number of others.
* **`Resumption.Shows`** — what is seen of it: its answer, its counters, and how often the stop check
  has been polled.
* **`OpenEnumeration.resumption_polled`** — what is seen of the resumptions of an orderly graph.
-/

namespace MaximalCliques

variable {σ β : Type}

/-! ### Conducting a leg -/

namespace Subject

variable {g : Access σ} {stop : Nat → Query σ Bool} {states : Nat → σ} {answers : Nat → Bool}
variable {polls : Nat} {o : Oracle}

/-- **Conducting a search up to its next clique** on an orderly graph takes it through a leg. -/
theorem next_polled (hpolled : g.PolledBy stop states answers polls) (hg : g.Orderly (states 0))
    (ho : o.Tabulates g (states 0)) {run : Run Vertex β}
    (hrun : run.Within (g.Stands (states 0)) (g.hoodAt (states 0) o)) {p : Progress}
    (hp : p.Sound g (states 0) o)
    (hpolls : p.polls + Event.polls (run.leg (g.hoodAt (states 0) o) answers p.polls).1 ≤ polls) :
    ∃ p', (run.next (conductor ⟨o, g.roster (states 0)⟩ g stop)).run (p, states p.polls)
        = (.ok (run.leg (g.hoodAt (states 0) o) answers p.polls).2, (p', states p'.polls)) ∧
      p.Follows (run.leg (g.hoodAt (states 0) o) answers p.polls).1 p' ∧
      p'.Sound g (states 0) o := by
  induction run generalizing p with
  | done b => exact ⟨p, rfl, .nil p p.hoods, hp⟩
  | ask v resume ih =>
    obtain ⟨hoods, hasked, hsound⟩ := hoodOf_run hpolled hg ho hrun.1 hp (by omega)
    obtain ⟨p', hnext, hfollows, hsound'⟩ := ih _ hrun.2 hsound hpolls
    exact ⟨p', (Query.run_bind_of_ok hasked).trans hnext,
      (Progress.Follows.nil p hoods).trans hfollows, hsound'⟩
  | visit n rest ih =>
    have hvisit := Progress.Follows.visit p n
    rw [Run.leg, Event.polls_visit] at hpolls
    have hcounted : Progress.Sound { p with
        counters := { p.counters with calls := p.counters.calls + 1 } } g (states 0) o :=
      hp.of_hoods_eq rfl
    obtain ⟨p', hnext, hfollows, hsound'⟩ := ih hrun hcounted hpolls
    exact ⟨p', hnext, hvisit.trans hfollows, hsound'⟩
  | branch n v rest ih =>
    have hone : p.polls + 1 ≤ polls := by
      rw [Run.leg] at hpolls
      split at hpolls <;> simp only [Event.polls_poll] at hpolls <;> omega
    obtain ⟨p₁, hmay, hpoll, hhoods⟩ :=
      mayBranch_run ⟨o, g.roster (states 0)⟩ g n v (hpolled.polled p.polls hone)
    have hp₁ : p₁.polls = p.polls + 1 := hpoll.polls
    rw [Run.next, Query.run_bind_of_ok hmay]
    cases hstop : answers p.polls with
    | true =>
      rw [hstop] at hpoll
      simp only [Run.leg, hstop, if_true]
      rw [← hp₁]
      exact ⟨p₁, rfl, hpoll, hp.of_hoods_eq hhoods⟩
    | false =>
      rw [hstop] at hpoll
      simp only [Run.leg, hstop, Bool.false_eq_true, if_false, Event.polls_poll] at hpolls ⊢
      obtain ⟨p', hnext, hfollows, hsound'⟩ :=
        ih (p := p₁) hrun (hp.of_hoods_eq hhoods) (by rw [hp₁]; omega)
      rw [hp₁] at hnext hfollows
      exact ⟨p', hnext, hpoll.trans hfollows, hsound'⟩
  | emit clique rest => exact ⟨_, rfl, .emit p clique, hp.of_hoods_eq rfl⟩

end Subject

/-! ### Resumptions -/

namespace OpenEnumeration

section Resumption

variable (g : Access σ) (settings : Settings) (stop : Nat → Query σ Bool)

/-- Resumes an enumeration `n` more times and lets each resumption count on. -/
def again : Nat → Resumption → StateM σ Resumption
  | 0, r => pure r
  | n + 1, r => do again n (← resume g settings stop r.counters r.state)

/-- The resumption of an enumeration that comes after `n` others. -/
def resumption (n : Nat) (counters : Counters) : StateM σ Resumption := do
  again g settings stop n (← resume g settings stop counters .notStarted)

end Resumption

/-- How often the stop check of a suspended enumeration has been polled. -/
def polls : OpenEnumeration → Option Nat
  | suspended _ _ p => some p.polls
  | _ => none

end OpenEnumeration

/-- **What is seen of a resumption** that comes after `n` others, of an enumeration that goes on from `p`
through a trail: the clique, or that there is none; the end of a trail without a result is seen once. -/
structure Resumption.Shows (r : Resumption) (p : Progress) (n : Nat)
    (trail : List (Event Vertex) × Option Unit) : Prop where
  answer : r.answer = match (Event.delivered trail.1)[n]? with
    | some c => .ok (some c)
    | none => if n = (Event.delivered trail.1).length ∧ trail.2 = none then .error (.cancelled [])
      else .ok none
  counters : r.counters = p.counters + Event.tally (Event.through n trail.1)
  polls : r.state.polls = if n < (Event.delivered trail.1).length
    then some (p.polls + Event.polls (Event.through n trail.1)) else none

namespace Resumption

variable {r : Resumption} {p p' : Progress} {n : Nat} {es : List (Event Vertex)}

/-- A resumption after the first leg, which has delivered a clique. -/
theorem Shows.of_leg {c : Clique} {trail : List (Event Vertex) × Option Unit}
    (h : r.Shows p' n trail) (hp : p.Follows es p') (hes : Event.delivered es = [c])
    (hthrough : Event.through (n + 1) (es ++ trail.1) = es ++ Event.through n trail.1) :
    r.Shows p (n + 1) (es ++ trail.1, trail.2) where
  answer := by
    simp only [Event.delivered_append, hes, List.singleton_append, List.getElem?_cons_succ,
      List.length_cons, Nat.add_right_cancel_iff]
    exact h.answer
  counters := by
    rw [h.counters, hp.counters, hthrough, Event.tally_append, Counters.add_assoc]
  polls := by
    rw [h.polls, hp.polls, hthrough, Event.polls_append, Nat.add_assoc]
    simp only [Event.delivered_append, hes, List.singleton_append, List.length_cons,
      Nat.add_lt_add_iff_right]

theorem shows_clique {s : Subject} {rest : Run Vertex Unit} {reports : List Report} {c : Clique}
    {trail : List (Event Vertex) × Option Unit} (hp : p.Follows es p')
    (hes : Event.delivered es = [c]) (hthrough : Event.through 0 (es ++ trail.1) = es) :
    Shows { answer := .ok (some c), state := .suspended s rest p', counters := p'.counters, reports }
      p 0 (es ++ trail.1, trail.2) where
  answer := by simp [hes]
  counters := by rw [hthrough, hp.counters]
  polls := by simp [hes, hthrough, OpenEnumeration.polls, hp.polls]

theorem shows_close {reports : List Report} {result : Option Unit} (hp : p.Follows es p')
    (hes : Event.delivered es = []) :
    (OpenEnumeration.close reports p' (.ok result)).Shows p 0 (es, result) where
  answer := by
    rw [hes]
    cases result <;> rfl
  counters := by
    rw [Event.through_eq_self (by rw [hes]; exact Nat.le_refl 0), ← hp.counters]
    cases result <;> rfl
  polls := by
    rw [hes]
    cases result <;> rfl

theorem Shows.of_ended {result : Option Unit} (h : r.Shows p 0 (es, result)) (n : Nat)
    (hes : Event.delivered es = []) :
    Shows { answer := .ok none, state := .ended, counters := r.counters } p (n + 1) (es, result) where
  answer := by simp [hes]
  counters := by
    have hall : ∀ k, Event.through k es = es := fun k => Event.through_eq_self (by simp [hes])
    have hcounters := h.counters
    rw [hall] at hcounters ⊢
    exact hcounters
  polls := by simp [hes, OpenEnumeration.polls]

end Resumption

namespace OpenEnumeration

variable {g : Access σ} {settings : Settings} {stop : Nat → Query σ Bool} {w : σ}

theorem again_of_ended {r : Resumption} (h : r.state = .ended) (n : Nat) :
    (again g settings stop (n + 1) r).run w
      = ({ answer := .ok none, state := .ended, counters := r.counters }, w) := by
  induction n generalizing r with
  | zero =>
    rw [again, h]
    rfl
  | succ n ih =>
    rw [again, h]
    exact ih (r := { answer := .ok none, state := .ended, counters := r.counters }) rfl

/-- What is seen of the resumptions of an enumeration whose last leg delivers nothing. -/
theorem again_close {p p' : Progress} {es : List (Event Vertex)} (hfollows : p.Follows es p')
    (hes : Event.delivered es = []) (reports : List Report) (result : Option Unit) (n : Nat) :
    ∃ r, (again g settings stop n (close reports p' (.ok result))).run w = (r, w) ∧
      r.Shows p n (es, result) := by
  have hfirst : (close reports p' (.ok result)).Shows p 0 (es, result) :=
    Resumption.shows_close hfollows hes
  cases n with
  | zero => exact ⟨_, rfl, hfirst⟩
  | succ n =>
    have hended : (close reports p' (.ok result)).state = .ended := by cases result <;> rfl
    exact ⟨_, again_of_ended hended n, hfirst.of_ended n hes⟩

variable {states : Nat → σ} {answers : Nat → Bool} {polls : Nat} {o : Oracle}
variable (hpolled : g.PolledBy stop states answers polls) (hg : g.Orderly (states 0))
variable (ho : o.Tabulates g (states 0))
include hpolled hg ho

/-- **Going on with the rest of a search** takes it through a leg: to a clique, with the rest of the trail
still to come, or to the end of the trail. -/
theorem proceed_polled {rest : Run Vertex Unit}
    (hrest : rest.Within (g.Stands (states 0)) (g.hoodAt (states 0) o)) {p : Progress}
    (hp : p.Sound g (states 0) o) {trail : List (Event Vertex) × Option Unit}
    (htrail : rest.trail (g.hoodAt (states 0) o) answers p.polls = trail)
    (hpolls : p.polls + Event.polls trail.1 ≤ polls) (reports : List Report) :
    (∃ c rest' es p',
      (proceed ⟨o, g.roster (states 0)⟩ g stop reports rest p).run (states p.polls)
        = ({ answer := .ok (some c), state := .suspended ⟨o, g.roster (states 0)⟩ rest' p'
             counters := p'.counters, reports }, states p'.polls) ∧
      p.Follows es p' ∧ p'.Sound g (states 0) o ∧
      rest'.Within (g.Stands (states 0)) (g.hoodAt (states 0) o) ∧
      trail = (es ++ (rest'.trail (g.hoodAt (states 0) o) answers p'.polls).1,
        (rest'.trail (g.hoodAt (states 0) o) answers p'.polls).2) ∧
      Event.delivered es = [c] ∧ ∀ fs, Event.through 0 (es ++ fs) = es ∧
        ∀ n, Event.through (n + 1) (es ++ fs) = es ++ Event.through n fs) ∨
    ∃ p', (proceed ⟨o, g.roster (states 0)⟩ g stop reports rest p).run (states p.polls)
        = (close reports p' (.ok trail.2), states p'.polls) ∧
      p.Follows trail.1 p' ∧ Event.delivered trail.1 = [] := by
  rw [Run.trail_eq_leg] at htrail
  have hdelivered : Event.delivered (rest.leg (g.hoodAt (states 0) o) answers p.polls).1
      = (rest.leg (g.hoodAt (states 0) o) answers p.polls).2.clique?.toList :=
    Run.delivered_leg rest p.polls
  have hle : p.polls + Event.polls (rest.leg (g.hoodAt (states 0) o) answers p.polls).1 ≤ polls := by
    rw [← htrail, Event.polls_append] at hpolls
    omega
  obtain ⟨p', hnext, hfollows, hsound⟩ := Subject.next_polled hpolled hg ho hrest hp hle
  cases hpause : (rest.leg (g.hoodAt (states 0) o) answers p.polls).2 with
  | clique c rest' =>
    rw [hpause, ← hfollows.polls] at htrail
    rw [hpause] at hnext hdelivered
    exact .inl ⟨c, rest', _, p', run_bind_of_eq (Searching.run_askFrom hnext), hfollows, hsound,
      hrest.leg hpause, htrail.symm, hdelivered, Run.through_leg hpause⟩
  | done b =>
    simp only [hpause, Pause.trail, List.append_nil] at htrail
    rw [hpause] at hnext hdelivered
    rw [← htrail]
    exact .inr ⟨p', run_bind_of_eq (Searching.run_askFrom hnext), hfollows, hdelivered⟩
  | stopped =>
    simp only [hpause, Pause.trail, List.append_nil] at htrail
    rw [hpause] at hnext hdelivered
    rw [← htrail]
    exact .inr ⟨p', run_bind_of_eq (Searching.run_askFrom hnext), hfollows, hdelivered⟩

variable (settings) in
/-- **What is seen of the resumptions** that follow when the rest of a search is gone on with. -/
theorem again_proceed (n : Nat) (reports : List Report) {rest : Run Vertex Unit}
    (hrest : rest.Within (g.Stands (states 0)) (g.hoodAt (states 0) o)) {p : Progress}
    (hp : p.Sound g (states 0) o) {trail : List (Event Vertex) × Option Unit}
    (htrail : rest.trail (g.hoodAt (states 0) o) answers p.polls = trail)
    (hpolls : p.polls + Event.polls trail.1 ≤ polls) :
    ∃ r, (proceed ⟨o, g.roster (states 0)⟩ g stop reports rest p >>= again g settings stop n).run
          (states p.polls)
        = (r, states (p.polls + Event.polls (Event.through n trail.1))) ∧ r.Shows p n trail := by
  induction n generalizing reports rest p trail with
  | zero =>
    rcases proceed_polled hpolled hg ho hrest hp htrail hpolls reports with
      ⟨c, rest', es, p', hproceed, hfollows, -, -, rfl, hes, hthrough⟩ | ⟨p', hproceed, hfollows, hes⟩
    · rw [run_bind_of_eq hproceed, (hthrough _).1, ← hfollows.polls]
      exact ⟨_, rfl, Resumption.shows_clique hfollows hes (hthrough _).1⟩
    · rw [run_bind_of_eq hproceed, Event.through_eq_self (by simp [hes]), ← hfollows.polls]
      exact again_close hfollows hes reports trail.2 0
  | succ n ih =>
    rcases proceed_polled hpolled hg ho hrest hp htrail hpolls reports with
      ⟨c, rest', es, p', hproceed, hfollows, hsound, hrest', rfl, hes, hthrough⟩ |
      ⟨p', hproceed, hfollows, hes⟩
    · rw [Event.polls_append, ← Nat.add_assoc, ← hfollows.polls] at hpolls
      obtain ⟨r, hagain, hshows⟩ := ih [] hrest' hsound rfl hpolls
      rw [run_bind_of_eq hproceed, (hthrough _).2, Event.polls_append, ← Nat.add_assoc,
        ← hfollows.polls]
      exact ⟨r, hagain, hshows.of_leg hfollows hes ((hthrough _).2 n)⟩
    · rw [run_bind_of_eq hproceed, Event.through_eq_self (by simp [hes]), ← hfollows.polls]
      exact again_close hfollows hes reports trail.2 (n + 1)

/-- **What is seen of the resumptions of an orderly graph**: the enumeration goes through its trail leg by
leg and leaves the states that its polls lead to. -/
theorem resumption_polled (htabulate : (Subject.tabulate g settings).Answers (states 0)
      ⟨o, g.roster (states 0)⟩) (counters : Counters) {trail : List (Event Vertex) × Option Unit}
    (htrail : (Subject.searchBelow settings (Subject.root ⟨o, g.roster (states 0)⟩)).trail
      (g.hoodAt (states 0) o) answers 0 = trail) (hpolls : Event.polls trail.1 ≤ polls) (n : Nat) :
    ∃ r, (resumption g settings stop n counters).run (states 0)
        = (r, states (Event.polls (Event.through n trail.1))) ∧ r.Shows { counters } n trail := by
  have hwithin : (Subject.searchBelow settings (Subject.root ⟨o, g.roster (states 0)⟩)).Within
      (g.Stands (states 0)) (g.hoodAt (states 0) o) :=
    (Subject.searchBelow_mirrors hg ho settings (Subject.root_within g (states 0) o)).within
  obtain ⟨r, hagain, hshows⟩ := again_proceed settings hpolled hg ho n
    [Subject.report ⟨o, g.roster (states 0)⟩] hwithin (p := { counters })
    (Progress.sound_of_empty g (states 0) o rfl) htrail (by rw [Nat.zero_add]; exact hpolls)
  rw [Nat.zero_add] at hagain
  refine ⟨r, ?_, hshows⟩
  have htab : (Subject.tabulate g settings).run.run (states 0)
      = (.ok ⟨o, g.roster (states 0)⟩, states 0) := htabulate
  have hresume : (resume g settings stop counters .notStarted).run (states 0)
      = (proceed ⟨o, g.roster (states 0)⟩ g stop [Subject.report ⟨o, g.roster (states 0)⟩]
        (Subject.search ⟨o, g.roster (states 0)⟩ settings) { counters }).run (states 0) :=
    run_bind_of_eq htab
  rw [← hagain]
  exact congrArg (fun x => (again g settings stop n x.1).run x.2) hresume

end OpenEnumeration

end MaximalCliques
