import MaximalCliques.Proofs.Enumeration.Discovery
import MaximalCliques.Proofs.Graph.Unchanged
import MaximalCliques.Proofs.Search.Requests

/-!
# Conducting a search on an orderly graph

The conductor of a search answers from the graph, or from the neighbourhoods that it has asked for
already.  On an orderly graph both give the neighbourhood of the vertex, so the events of a search are
those of its trail, and the progress adds them up.  Polls may change the state as long as the graph
notices nothing of it: after `k` polls a search stands in the `k`-th of the states that they lead
through.

* **`Access.PolledBy`** — a stop check, the states that it leads through and its answers.
* **`Progress.Follows`** — the progress that events make.
* **`Progress.Sound`** — the neighbourhoods asked for are those of their vertices.
* **`Subject.step_polled`** — what answering one request does.
* **`Subject.finish_polled`** — what conducting a search to its end does.
* **`Subject.step_conducted`**, **`Subject.finish_conducted`** — the same when polls change nothing.
-/

namespace MaximalCliques

variable {σ α β : Type}

/-! ### Questions that change the progress -/

theorem Query.run_during {q : Query σ α} {v w : σ} {a : α} {p : Progress}
    (h : q.run w = (.ok a, v)) : (Query.during q : Searching σ α).run (p, w) = (.ok a, (p, v)) := by
  show ((q.run w).1, (p, (q.run w).2)) = _
  rw [h]

/-! ### Stop checks -/

/-- **The first `n` polls of a stop check** lead through `states` and are answered by `answers`; the
graph notices nothing of them. -/
structure Access.PolledBy (g : Access σ) (stop : Nat → Query σ Bool) (states : Nat → σ)
    (answers : Nat → Bool) (n : Nat) : Prop where
  polled : ∀ k < n, (stop k).run (states k) = (.ok (answers k), states (k + 1))
  unchanged : ∀ k ≤ n, g.Unchanged (states 0) (states k)

theorem Access.polledBy_pure (g : Access σ) (w : σ) (answers : Nat → Bool) (n : Nat) :
    g.PolledBy (fun k => pure (answers k)) (fun _ => w) answers n where
  polled k _ := Query.answers_pure w (answers k)
  unchanged _ _ := .refl g w

/-- A graph that notices no change answers with the same neighbourhoods. -/
theorem Access.Unchanged.neighbourhood_answers {g : Access σ} {v w : σ} {o : Oracle}
    (h : g.Unchanged w v) (hg : g.Orderly w) (ho : o.Tabulates g w) {u : Vertex} (hu : g.Stands w u) :
    (neighbourhood g o (g.roster w) u).Answers v (g.hoodAt w o u) := by
  have hplaces : g.places v = g.places w := by rw [places, places, h.listed hg]
  have hroster : g.roster v = g.roster w := by rw [roster, roster, hplaces]
  have hstands : g.Stands v u := by
    refine ⟨(h.names_iff hg u.node).2 hu.named, ?_, hu.index⟩
    rw [hplaces]
    exact hu.place
  have hanswers := Access.neighbourhood_answers (h.orderly hg) (h.tabulates hg ho) hstands
  rw [hoodAt, members, hroster, h.reported hg hu.named hu.isIn_listed] at hanswers
  exact hanswers

namespace Progress

/-- What progress has been made from `p` to `p'` by events. -/
structure Follows (p : Progress) (es : List (Event Vertex)) (p' : Progress) : Prop where
  counters : p'.counters = p.counters + Event.tally es
  polls : p'.polls = p.polls + Event.polls es
  found : p'.found = (Event.delivered es).reverse ++ p.found

namespace Follows

variable {p p' p'' : Progress} {es fs : List (Event Vertex)}

theorem nil (p : Progress) (hoods : Std.HashMap Nat (Hood Vertex)) :
    p.Follows [] { p with hoods } where
  counters := (Counters.add_zero _).symm
  polls := rfl
  found := rfl

theorem trans (h : p.Follows es p') (h' : p'.Follows fs p'') : p.Follows (es ++ fs) p'' where
  counters := by rw [h'.counters, h.counters, Event.tally_append, Counters.add_assoc]
  polls := by
    rw [h'.polls, h.polls, Event.polls_append]
    omega
  found := by
    rw [h'.found, h.found, Event.delivered_append, List.reverse_append, List.append_assoc]

theorem visit (p : Progress) (n : SearchNode Vertex) : p.Follows [.visit n]
    { p with counters := { p.counters with calls := p.counters.calls + 1 } } where
  counters := by
    rw [Event.tally_singleton]
    exact (Counters.add_calls p.counters 1).symm
  polls := rfl
  found := rfl

theorem emit (p : Progress) (clique : Clique) : p.Follows [.emit clique] { p with
    counters := { p.counters with cliques := p.counters.cliques + 1 }
    found := clique :: p.found } where
  counters := by
    rw [Event.tally_singleton]
    exact (Counters.add_cliques p.counters 1).symm
  polls := rfl
  found := rfl

end Follows

/-- Every neighbourhood that has been asked for is that of the vertices at its place. -/
def Sound (p : Progress) (g : Access σ) (w : σ) (o : Oracle) : Prop :=
  ∀ v, g.Stands w v → ∀ h, p.hoods[v.place]? = some h → h = g.hoodAt w o v

theorem Sound.of_hoods_eq {p p' : Progress} {g : Access σ} {w : σ} {o : Oracle}
    (h : p.Sound g w o) (hp : p'.hoods = p.hoods) : p'.Sound g w o := by
  unfold Sound
  rw [hp]
  exact h

theorem sound_of_empty {p : Progress} (g : Access σ) (w : σ) (o : Oracle) (hp : p.hoods = ∅) :
    p.Sound g w o := by
  intro v _ h hv
  rw [hp] at hv
  simp at hv

end Progress

/-! ### Answering requests -/

namespace Subject

theorem mayBranch_run (s : Subject) (g : Access σ) {stop : Nat → Query σ Bool}
    (n : SearchNode Vertex) (v : Vertex) {p : Progress} {w w' : σ} {answer : Bool}
    (h : (stop p.polls).run w = (.ok answer, w')) :
    ∃ p', ((s.conductor g stop).mayBranch n v).run (p, w) = (.ok (!answer), (p', w')) ∧
      p.Follows [.poll n v (!answer)] p' ∧ p'.hoods = p.hoods := by
  have hrun : ((s.conductor g stop).mayBranch n v).run (p, w)
      = (if answer then pure false else do
          modify fun s => ({ s.1 with
            counters := { s.1.counters with branches := s.1.counters.branches + 1 } }, s.2)
          return true : Searching σ Bool).run ({ p with polls := p.polls + 1 }, w') := by
    unfold conductor
    refine (Query.run_bind_of_ok (v := (p, w)) (a := (p, w)) rfl).trans ?_
    refine (Query.run_bind_of_ok (v := ({ p with polls := p.polls + 1 }, w)) (a := ()) rfl).trans ?_
    exact Query.run_bind_of_ok (Query.run_during h)
  rw [hrun]
  cases answer with
  | true =>
    refine ⟨{ p with polls := p.polls + 1 }, rfl, ⟨?_, rfl, rfl⟩, rfl⟩
    exact (Counters.add_zero p.counters).symm
  | false =>
    refine ⟨{ p with
      polls := p.polls + 1
      counters := { p.counters with branches := p.counters.branches + 1 } }, rfl, ⟨?_, rfl, rfl⟩, rfl⟩
    rw [Event.tally_singleton]
    exact (Counters.add_branches p.counters 1).symm

section Asking

variable {s : Subject} {g : Access σ} {v : Vertex} {p : Progress} {h : Hood Vertex} {w w' : σ}

theorem hoodOf_run_kept (hkept : p.hoods[v.place]? = some h) :
    (s.hoodOf g v).run (p, w) = (.ok h, (p, w)) := by
  refine (Query.run_bind_of_ok (a := (p, w)) rfl).trans ?_
  simp only [hkept]
  rfl

theorem hoodOf_run_asked (hnew : p.hoods[v.place]? = none)
    (hrun : (neighbourhood g s.oracle s.roster v).run w = (.ok h, w')) :
    (s.hoodOf g v).run (p, w) = (.ok h, ({ p with hoods := p.hoods.insert v.place h }, w')) := by
  refine (Query.run_bind_of_ok (a := (p, w)) rfl).trans ?_
  simp only [hnew]
  refine (Query.run_bind_of_ok (Query.run_during hrun)).trans ?_
  exact Query.run_bind_of_ok (a := ()) rfl

end Asking

section Polled

variable {g : Access σ} {stop : Nat → Query σ Bool} {states : Nat → σ} {answers : Nat → Bool}
variable {polls : Nat} {o : Oracle}
variable (hpolled : g.PolledBy stop states answers polls)
variable (hg : g.Orderly (states 0)) (ho : o.Tabulates g (states 0))
include hpolled hg ho

/-- The subject of an orderly graph answers for a vertex with its neighbourhood, and keeps it. -/
theorem hoodOf_run {v : Vertex} (hv : g.Stands (states 0) v) {p : Progress}
    (hp : p.Sound g (states 0) o) (hpolls : p.polls ≤ polls) :
    ∃ hoods, (hoodOf ⟨o, g.roster (states 0)⟩ g v).run (p, states p.polls)
        = (.ok (g.hoodAt (states 0) o v), ({ p with hoods }, states p.polls)) ∧
      Progress.Sound { p with hoods } g (states 0) o := by
  cases hasked : p.hoods[v.place]? with
  | some h =>
    refine ⟨p.hoods, ?_, hp⟩
    rw [hoodOf_run_kept hasked, hp v hv h hasked]
  | none =>
    refine ⟨p.hoods.insert v.place (g.hoodAt (states 0) o v), ?_, ?_⟩
    · exact hoodOf_run_asked hasked
        ((hpolled.unchanged p.polls hpolls).neighbourhood_answers hg ho hv)
    · intro u hu h hget
      rw [Std.HashMap.getElem?_insert] at hget
      split at hget
      case isTrue hplace =>
        rw [← Option.some.inj hget]
        exact Access.hoodAt_congr hg hv hu (eq_of_beq hplace)
      case isFalse => exact hp u hu h hget

/-- **Answering one request** of a search on an orderly graph takes it one event further. -/
theorem step_polled {run : Run Vertex β}
    (hrun : run.Within (g.Stands (states 0)) (g.hoodAt (states 0) o)) {p : Progress}
    (hp : p.Sound g (states 0) o)
    (hpolls : p.polls + Event.polls (run.advance (g.hoodAt (states 0) o) (!answers p.polls)).1
      ≤ polls) :
    ∃ p', (run.step (conductor ⟨o, g.roster (states 0)⟩ g stop)).run (p, states p.polls)
        = (.ok (run.advance (g.hoodAt (states 0) o) (!answers p.polls)).2, (p', states p'.polls)) ∧
      p.Follows (run.advance (g.hoodAt (states 0) o) (!answers p.polls)).1 p' ∧
      p'.Sound g (states 0) o := by
  cases run with
  | done b => exact ⟨p, rfl, .nil p p.hoods, hp⟩
  | ask v resume =>
    obtain ⟨hoods, hrun', hsound⟩ := hoodOf_run hpolled hg ho hrun.1 hp hpolls
    exact ⟨{ p with hoods }, Query.run_bind_of_ok hrun', .nil p hoods, hsound⟩
  | visit n rest => exact ⟨_, rfl, .visit p n, hp.of_hoods_eq rfl⟩
  | branch n v rest =>
    obtain ⟨p', hmay, hfollows, hhoods⟩ :=
      mayBranch_run ⟨o, g.roster (states 0)⟩ g n v (hpolled.polled p.polls hpolls)
    refine ⟨p', (Query.run_bind_of_ok hmay).trans ?_, hfollows, hp.of_hoods_eq hhoods⟩
    rw [show p'.polls = p.polls + 1 from hfollows.polls]
    cases answers p.polls <;> rfl
  | emit clique rest => exact ⟨_, rfl, .emit p clique, hp.of_hoods_eq rfl⟩

/-- **Conducting a search to its end** on an orderly graph takes it through its trail. -/
theorem finish_polled {run : Run Vertex β}
    (hrun : run.Within (g.Stands (states 0)) (g.hoodAt (states 0) o)) {p : Progress}
    (hp : p.Sound g (states 0) o)
    (hpolls : p.polls + Event.polls (run.trail (g.hoodAt (states 0) o) answers p.polls).1 ≤ polls) :
    ∃ p', (run.finish (conductor ⟨o, g.roster (states 0)⟩ g stop)).run (p, states p.polls)
        = (.ok (run.trail (g.hoodAt (states 0) o) answers p.polls).2, (p', states p'.polls)) ∧
      p.Follows (run.trail (g.hoodAt (states 0) o) answers p.polls).1 p' ∧
      p'.Sound g (states 0) o := by
  induction hn : run.requests (g.hoodAt (states 0) o) generalizing run p with
  | zero =>
    cases run with
    | done b => exact ⟨p, rfl, .nil p p.hoods, hp⟩
    | _ => exact absurd hn (by simp [Run.requests])
  | succ n ih =>
    have hdone : run.isDone = false := by
      cases run with
      | done b => exact absurd hn (by simp [Run.requests])
      | _ => rfl
    have hstep := step_polled hpolled hg ho hrun hp
    rw [Run.trail_advance hdone] at hpolls
    rw [Run.finish_eq_step _ hdone, Run.trail_advance hdone]
    rcases hadvance : run.advance (g.hoodAt (states 0) o) (!answers p.polls) with ⟨es, _ | rest⟩
    · rw [hadvance] at hpolls hstep
      obtain ⟨p', hstep, hfollows, hsound⟩ := hstep hpolls
      rw [Query.run_bind_of_ok hstep]
      exact ⟨p', rfl, hfollows, hsound⟩
    · have hrest := congrArg Prod.snd hadvance
      have hrequests := Run.requests_advance hdone hrest
      rw [hadvance] at hpolls hstep
      simp only [Event.polls_append] at hpolls
      obtain ⟨p', hstep, hfollows, hsound⟩ := hstep (by show _ + Event.polls es ≤ _; omega)
      rw [Query.run_bind_of_ok hstep]
      have hpolls' : p'.polls = p.polls + Event.polls es := hfollows.polls
      rw [← Nat.add_assoc, ← hpolls'] at hpolls
      obtain ⟨p'', hfinish, hfollows', hsound'⟩ :=
        ih (hrun.advance hrest) hsound hpolls (by omega)
      simp only [← hpolls']
      exact ⟨p'', hfinish, hfollows.trans hfollows', hsound'⟩

end Polled

/-! ### Polls that change nothing -/

variable {g : Access σ} {w : σ} {o : Oracle} (hg : g.Orderly w) (ho : o.Tabulates g w)
include hg ho

/-- **Answering one request** of a search on an orderly graph takes it one event further. -/
theorem step_conducted (answers : Nat → Bool) {run : Run Vertex β}
    (hrun : run.Within (g.Stands w) (g.hoodAt w o)) {p : Progress} (hp : p.Sound g w o) :
    ∃ p', (run.step (conductor ⟨o, g.roster w⟩ g fun k => pure (answers k))).run (p, w)
        = (.ok (run.advance (g.hoodAt w o) (!answers p.polls)).2, (p', w)) ∧
      p.Follows (run.advance (g.hoodAt w o) (!answers p.polls)).1 p' ∧ p'.Sound g w o :=
  step_polled (g.polledBy_pure w answers _) hg ho hrun hp (Nat.le_refl _)

/-- **Conducting a search to its end** on an orderly graph takes it through its trail. -/
theorem finish_conducted (answers : Nat → Bool) {run : Run Vertex β}
    (hrun : run.Within (g.Stands w) (g.hoodAt w o)) {p : Progress} (hp : p.Sound g w o) :
    ∃ p', (run.finish (conductor ⟨o, g.roster w⟩ g fun k => pure (answers k))).run (p, w)
        = (.ok (run.trail (g.hoodAt w o) answers p.polls).2, (p', w)) ∧
      p.Follows (run.trail (g.hoodAt w o) answers p.polls).1 p' ∧ p'.Sound g w o :=
  finish_polled (g.polledBy_pure w answers _) hg ho hrun hp (Nat.le_refl _)

end Subject

end MaximalCliques
