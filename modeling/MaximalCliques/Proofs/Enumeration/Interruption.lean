import MaximalCliques.Proofs.Enumeration.CliqueSets
import MaximalCliques.Proofs.Enumeration.Resumptions

/-!
# Stopping an enumeration

An enumeration that a poll stops has gone as far as the enumeration that nobody stops had gone just
before this poll, and no further.

* **`Subject.StandsBefore`** — where the search that nobody stops stands just before a poll.
* **`Subject.StandsBefore.follows`** — it has gone through the events before the poll.
* **`Access.StopsAt`** — an enumeration that a poll has stopped, at a given progress: delivered in the
  order of discovery, handed over as a set, and resumed clique by clique.
* **`iterate_interrupted`** — an enumeration is stopped by the first poll that is answered so, and by
  none if there is no such poll.
-/

namespace MaximalCliques

variable {σ β : Type}

/-! ### Just before a poll -/

namespace Subject

section Requests

section Polled

variable {g : Access σ} {stop : Nat → Query σ Bool} {states : Nat → σ} {answers : Nat → Bool} {o : Oracle}
variable (hpolled : ∀ n, g.PolledBy stop states answers n) (hg : g.Orderly (states 0))
variable (ho : o.Tabulates g (states 0))
include hpolled hg ho

/-- **Answering some requests** of a search takes it through the events before those that are left, however
the polls are answered, and the neighbourhoods that it has asked for are those of the graph. -/
theorem afterRequests_sound (n : Nat) {run : Run Vertex β}
    (hrun : run.Within (g.Stands (states 0)) (g.hoodAt (states 0) o)) {p : Progress}
    (hp : p.Sound g (states 0) o) : ∃ left p' es,
      (run.afterRequests (conductor ⟨o, g.roster (states 0)⟩ g stop) n).run (p, states p.polls)
        = (.ok left, (p', states p'.polls)) ∧ p.Follows es p' ∧ p'.Sound g (states 0) o ∧
      ∀ rest, left = some rest →
        run.events (g.hoodAt (states 0) o) = es ++ rest.events (g.hoodAt (states 0) o) := by
  induction n generalizing run p with
  | zero =>
    refine ⟨some run, p, [], rfl, .nil p p.hoods, hp, fun rest hrest => ?_⟩
    rw [Option.some.inj hrest]
    rfl
  | succ n ih =>
    obtain ⟨p₁, hstep, hfollows, hsound⟩ := step_polled (hpolled _) hg ho hrun hp (Nat.le_refl _)
    rw [Run.afterRequests, Query.run_bind_of_ok hstep]
    cases hnext : (run.advance (g.hoodAt (states 0) o) (!answers p.polls)).2 with
    | none => exact ⟨none, p₁, _, rfl, hfollows, hsound, fun rest hrest => by cases hrest⟩
    | some next =>
      obtain ⟨left, p', es, hleft, hfollows', hsound', hes⟩ := ih (hrun.advance hnext) hsound
      refine ⟨left, p', _, hleft, hfollows.trans hfollows', hsound', fun rest hrest => ?_⟩
      rw [Run.events_advance hnext, hes rest hrest, List.append_assoc]

/-- **Answering some requests** of a search takes it through the events before those that are left. -/
theorem afterRequests_polled (n : Nat) {run : Run Vertex β}
    (hrun : run.Within (g.Stands (states 0)) (g.hoodAt (states 0) o)) {p : Progress}
    (hp : p.Sound g (states 0) o) : ∃ left p' es,
      (run.afterRequests (conductor ⟨o, g.roster (states 0)⟩ g stop) n).run (p, states p.polls)
        = (.ok left, (p', states p'.polls)) ∧ p.Follows es p' ∧
      ∀ rest, left = some rest →
        run.events (g.hoodAt (states 0) o) = es ++ rest.events (g.hoodAt (states 0) o) := by
  obtain ⟨left, p', es, hleft, hfollows, -, hes⟩ := afterRequests_sound hpolled hg ho n hrun hp
  exact ⟨left, p', es, hleft, hfollows, hes⟩

end Polled

variable {g : Access σ} {w : σ} {o : Oracle} (hg : g.Orderly w) (ho : o.Tabulates g w)
include hg ho

/-- **Every poll of a search is come to**: some number of requests leaves the search just before it. -/
theorem exists_afterRequests {run : Run Vertex β}
    (hrun : run.Within (g.Stands w) (g.hoodAt w o)) {p : Progress} (hp : p.Sound g w o) {k : Nat}
    (hk : k < Event.polls (run.events (g.hoodAt w o))) :
    ∃ n node v rest p',
      (run.afterRequests (conductor ⟨o, g.roster w⟩ g fun _ => pure false) n).run (p, w)
        = (.ok (some (.branch node v rest)), (p', w)) ∧ p'.polls = p.polls + k := by
  induction hn : run.requests (g.hoodAt w o) generalizing run p k with
  | zero =>
    cases run with
    | done b => exact absurd hk (Nat.not_lt_zero k)
    | _ => exact absurd hn (by simp [Run.requests])
  | succ n ih =>
    by_cases hhere : k = 0 ∧ ∃ node v rest, run = .branch node v rest
    · obtain ⟨rfl, node, v, rest, rfl⟩ := hhere
      exact ⟨0, node, v, rest, p, rfl, rfl⟩
    · -- the first request is not the poll in question, so one more request leads on
      have hdone : run.isDone = false := by
        cases run with
        | done b => exact absurd hn (by simp [Run.requests])
        | _ => rfl
      have hfirst : Event.polls (run.advance (g.hoodAt w o) (!false)).1 ≤ k := by
        cases run with
        | branch node v rest =>
          have hpos : k ≠ 0 := fun h => hhere ⟨h, node, v, rest, rfl⟩
          exact Nat.one_le_iff_ne_zero.2 hpos
        | _ => exact Nat.zero_le k
      obtain ⟨p₁, hstep, hfollows, hsound⟩ := step_conducted hg ho (fun _ => false) hrun hp
      cases hnext : (run.advance (g.hoodAt w o) (!false)).2 with
      | none => exact absurd (Run.advance_eq_none hnext).1 (by decide)
      | some next =>
        have hrequests := Run.requests_advance hdone hnext
        rw [Run.events_advance hnext, Event.polls_append] at hk
        rw [hnext] at hstep
        obtain ⟨m, node, v, rest, p', hafter, hpolls⟩ := ih (hrun.advance hnext) hsound
          (k := k - Event.polls (run.advance (g.hoodAt w o) (!false)).1) (by omega) (by omega)
        refine ⟨m + 1, node, v, rest, p', (Query.run_bind_of_ok hstep).trans hafter, ?_⟩
        have hp₁ : p₁.polls = p.polls + Event.polls (run.advance (g.hoodAt w o) (!false)).1 :=
          hfollows.polls
        omega

end Requests

/-- **Just before a poll**: the search that nobody stops is about to make the poll that comes after `k`
others, with the progress `p`. -/
def StandsBefore (s : Subject) (g : Access σ) (settings : Settings) (counters : Counters) (w : σ)
    (k : Nat) (p : Progress) : Prop :=
  ∃ n node v rest, ((s.search settings).afterRequests (s.conductor g fun _ => pure false) n).run
      ({ counters }, w) = (.ok (some (.branch node v rest)), (p, w)) ∧ p.polls = k

variable {g : Access σ} {w : σ} {o : Oracle} {settings : Settings} {counters : Counters}
variable (hg : g.Orderly w) (ho : o.Tabulates g w)
include hg ho

theorem search_within (settings : Settings) :
    (search ⟨o, g.roster w⟩ settings).Within (g.Stands w) (g.hoodAt w o) :=
  (searchBelow_mirrors hg ho settings (root_within g w o)).within

omit hg ho in
theorem trail_stopped {answers : Nat → Bool} {k : Nat}
    (hk : k < Event.polls (history g w o settings)) (hbefore : ∀ j < k, answers j = false)
    (hstop : answers k = true) : ∃ node v,
      (search ⟨o, g.roster w⟩ settings).trail (g.hoodAt w o) answers 0
        = (Event.before k (history g w o settings) ++ [.poll node v false], none) := by
  refine Run.trail_stopped hk (fun j hj => ?_) ?_
  · rw [Nat.zero_add]
    exact hbefore j hj
  · rw [Nat.zero_add]
    exact hstop

/-- Just before a poll the search has gone through the events before it. -/
theorem StandsBefore.follows {k : Nat} {p : Progress}
    (h : StandsBefore ⟨o, g.roster w⟩ g settings counters w k p) :
    Progress.Follows { counters } (Event.before k (history g w o settings)) p := by
  obtain ⟨n, node, v, rest, hafter, rfl⟩ := h
  obtain ⟨left, p', es, hleft, hfollows, hrest⟩ := afterRequests_polled
    (fun n => g.polledBy_pure w (fun _ => false) n) hg ho n (search_within hg ho settings)
    (p := { counters }) (Progress.sound_of_empty g w o rfl)
  obtain ⟨hsome, hpair⟩ := Prod.mk.inj (hafter.symm.trans hleft)
  obtain rfl : p = p' := (Prod.mk.inj hpair).1
  have hes := hrest _ (Except.ok.inj hsome).symm
  have hpolls : p.polls = Event.polls es := by
    rw [hfollows.polls]
    exact Nat.zero_add _
  have hbefore : Event.before p.polls (history g w o settings) = es := by
    rw [hpolls]
    exact (congrArg (Event.before (Event.polls es)) hes).trans
      (Event.before_eq_of_append es _ node v true)
  rw [hbefore]
  exact hfollows

theorem exists_standsBefore {k : Nat} (hk : k < Event.polls (history g w o settings)) :
    ∃ p, StandsBefore ⟨o, g.roster w⟩ g settings counters w k p := by
  obtain ⟨n, node, v, rest, p, hafter, hpolls⟩ := exists_afterRequests hg ho
    (search_within hg ho settings) (p := { counters }) (Progress.sound_of_empty g w o rfl) hk
  exact ⟨p, n, node, v, rest, hafter, hpolls.trans (Nat.zero_add k)⟩

end Subject

/-! ### Where a poll stops an enumeration -/

/-- **An enumeration that a poll has stopped** in the state `w'`, with the progress `p` made before: its
cliques have been delivered in their order and the fault hands nothing over; or the fault hands them
over as a set; or the resumptions deliver them one after the other, then the fault, then nothing. -/
structure Access.StopsAt (g : Access σ) (settings : Settings) (stop : Nat → Query σ Bool)
    (counters : Counters) (w w' : σ) (p : Progress) : Prop where
  delivered : ∃ outcome, (iterate g settings stop counters).run w = (outcome, w') ∧
    outcome.cliques = p.found.reverse ∧ outcome.fault = some (.cancelled []) ∧
    outcome.counters = p.counters ∧ outcome.polls = p.polls + 1
  collected : ∃ outcome, (enumerate g settings stop counters).run w = (outcome, w') ∧
    outcome.cliques.Perm p.found.reverse ∧
    outcome.fault = some (.cancelled (outcome.cliques.map Clique.nodes)) ∧
    outcome.counters = p.counters ∧ outcome.polls = p.polls + 1
  resumed : ∀ n, ∃ r v, (OpenEnumeration.resumption g settings stop n counters).run w = (r, v) ∧
    r.answer = (match p.found.reverse[n]? with
      | some c => .ok (some c)
      | none => if n = p.found.length then .error (.cancelled []) else .ok none) ∧
    (p.found.length ≤ n → r.counters = p.counters ∧ v = w')

/-- **An enumeration that no poll has stopped** is like one that is never polled, whatever is seen of it,
but leaves the state `w'`. -/
structure Access.RunsFreely (g : Access σ) (settings : Settings) (stop : Nat → Query σ Bool)
    (counters : Counters) (w w' : σ) : Prop where
  delivered : ∃ outcome, (iterate g settings stop counters).run w = (outcome, w') ∧
    (iterate g settings (fun _ => pure false) counters).run w = (outcome, w)
  collected : ∃ outcome, (enumerate g settings stop counters).run w = (outcome, w') ∧
    (enumerate g settings (fun _ => pure false) counters).run w = (outcome, w)
  resumed : ∀ n, ∃ r v r', (OpenEnumeration.resumption g settings stop n counters).run w = (r, v) ∧
    (OpenEnumeration.resumption g settings (fun _ => pure false) n counters).run w = (r', w) ∧
    r.answer = r'.answer ∧ r.counters = r'.counters ∧ r.state.polls = r'.state.polls

section Stopped

variable {g : Access σ} {settings : Settings} {stop : Nat → Query σ Bool} {states : Nat → σ}
variable {answers : Nat → Bool} {polls : Nat} {o : Oracle} {counters : Counters}
variable (hpolled : g.PolledBy stop states answers polls) (hg : g.Orderly (states 0))
variable (ho : o.Tabulates g (states 0))
variable (htabulate : (Subject.tabulate g settings).Answers (states 0) ⟨o, g.roster (states 0)⟩)
include hpolled hg ho htabulate

/-- **The first poll that is answered by a stop** stops the enumeration at the progress made before. -/
theorem stopsAt_of_stop {k : Nat} (hk : k < polls)
    (hmade : k < Event.polls (Subject.history g (states 0) o settings))
    (hbefore : ∀ j < k, answers j = false) (hstop : answers k = true) {p : Progress}
    (hp : Subject.StandsBefore ⟨o, g.roster (states 0)⟩ g settings counters (states 0) k p) :
    g.StopsAt settings stop counters (states 0) (states (k + 1)) p := by
  have hfollows := hp.follows hg ho
  have hpk : p.polls = k := by
    obtain ⟨n, node, v, rest, -, hpk⟩ := hp
    exact hpk
  obtain ⟨node, v, htrail⟩ := Subject.trail_stopped hmade hbefore hstop
  have hmadeBefore : Event.polls (Event.before k (Subject.history g (states 0) o settings)) = k := by
    obtain ⟨_, _, _, _, -, h⟩ := Event.exists_before hmade
    exact h
  have hdiscoveries := Subject.pairwise_discoveries hg ho settings
  have hprefix := (Event.before_prefix hmade).filterMap Event.clique?
  generalize Event.before k (Subject.history g (states 0) o settings) = es
    at hfollows htrail hmadeBefore hprefix
  -- the poll that stops the search delivers nothing and counts for nothing
  have hdelivered : p.found.reverse = Event.delivered es := by
    rw [hfollows.found, List.append_nil, List.reverse_reverse]
  have hfound : p.found.reverse = Event.delivered (es ++ [.poll node v false]) := by
    rw [hdelivered, Event.delivered_append]
    exact (List.append_nil _).symm
  have hcounters : p.counters = counters + Event.tally (es ++ [.poll node v false]) := by
    rw [hfollows.counters, Event.tally_append, Event.tally_singleton]
    exact congrArg (counters + ·) (Counters.add_zero _).symm
  have hpolls : Event.polls (es ++ [.poll node v false]) = k + 1 := by
    rw [Event.polls_append, hmadeBefore]
    rfl
  have hiterate := iterate_polled hpolled hg ho htabulate counters htrail
    (by show Event.polls (es ++ [.poll node v false]) ≤ polls; omega)
  rw [Outcome.ofTrail, hpolls, ← hcounters, ← hfound] at hiterate
  have hdistinct : p.found.reverse.Pairwise fun c d => c.places ≠ d.places := by
    rw [hdelivered]
    exact hdiscoveries.sublist hprefix.sublist
  refine ⟨⟨_, hiterate, rfl, rfl, rfl, ?_⟩, ⟨_, enumerate_of_iterate hiterate, ?_, rfl, rfl, ?_⟩, ?_⟩
  · rw [hpk]
  · exact Clique.collect_perm hdistinct
  · rw [hpk]
    rfl
  · intro n
    obtain ⟨r, hrun, hshows⟩ := OpenEnumeration.resumption_polled hpolled hg ho htabulate counters
      htrail (by show Event.polls (es ++ [.poll node v false]) ≤ polls; omega) n
    refine ⟨r, _, hrun, ?_, fun hn => ?_⟩
    · rw [hshows.answer, ← hfound, List.length_reverse]
      simp only [and_true]
      rfl
    · have hall : Event.through n (es ++ [.poll node v false]) = es ++ [.poll node v false] :=
        Event.through_eq_self (by rw [← hfound, List.length_reverse]; exact hn)
      rw [hshows.counters, hall, hpolls]
      exact ⟨hcounters.symm, rfl⟩

/-- **An enumeration that no poll stops** is like one that is never polled. -/
theorem runsFreely_of_unstopped
    (hmade : Event.polls (Subject.history g (states 0) o settings) ≤ polls)
    (hgo : ∀ k < Event.polls (Subject.history g (states 0) o settings), answers k = false) :
    g.RunsFreely settings stop counters (states 0)
      (states (Event.polls (Subject.history g (states 0) o settings))) := by
  have htrail : (Subject.searchBelow settings (Subject.root ⟨o, g.roster (states 0)⟩)).trail
      (g.hoodAt (states 0) o) answers 0 = (_, some _) :=
    Run.trail_unstopped fun k hk => by rw [Nat.zero_add]; exact hgo k hk
  have hnever := Run.trail_never (g.hoodAt (states 0) o)
    (Subject.searchBelow settings (Subject.root ⟨o, g.roster (states 0)⟩)) 0
  have hpure := fun n => g.polledBy_pure (states 0) (fun _ => false) n
  have hiterate := iterate_polled hpolled hg ho htabulate counters htrail hmade
  have hiterate' := iterate_polled (hpure _) hg ho htabulate counters hnever (Nat.le_refl _)
  refine ⟨⟨_, hiterate, hiterate'⟩,
    ⟨_, enumerate_of_iterate hiterate, enumerate_of_iterate hiterate'⟩, fun n => ?_⟩
  obtain ⟨r, hrun, hshows⟩ :=
    OpenEnumeration.resumption_polled hpolled hg ho htabulate counters htrail hmade n
  obtain ⟨r', hrun', hshows'⟩ :=
    OpenEnumeration.resumption_polled (hpure _) hg ho htabulate counters hnever (Nat.le_refl _) n
  refine ⟨r, _, r', hrun, hrun', ?_, ?_, ?_⟩
  · rw [hshows.answer, hshows'.answer]
  · rw [hshows.counters, hshows'.counters]
  · rw [hshows.polls, hshows'.polls]

end Stopped

/-- **An enumeration is stopped exactly by the first poll that is answered so.**  Take an orderly graph
that fits, and a stop check whose first `polls` polls lead through `states`.  If all polls that the
enumeration makes are answered by going on, it is like an enumeration that is never polled.  If the poll
after `k` others is the first one that is answered by a stop, the enumeration has delivered the beginning
of what it would deliver, with the progress of the unstopped search just before this poll, and polls no
more. -/
theorem iterate_interrupted {g : Access σ} {settings : Settings} {stop : Nat → Query σ Bool}
    {states : Nat → σ} {answers : Nat → Bool} {polls : Nat} (hg : g.Orderly (states 0))
    (hfits : g.FitsIn settings) (hpolled : g.PolledBy stop states answers polls)
    (counters : Counters) :
    ∃ s unstopped, (Subject.tabulate g settings).Answers (states 0) s ∧
      (iterate g settings (fun _ => pure false) counters).run (states 0) = (unstopped, states 0) ∧
      unstopped.fault = none ∧
      (unstopped.polls ≤ polls → (∀ k < unstopped.polls, answers k = false) →
        g.RunsFreely settings stop counters (states 0) (states unstopped.polls)) ∧
      ∀ k < polls, k < unstopped.polls → (∀ j < k, answers j = false) → answers k = true →
        (∃ p, s.StandsBefore g settings counters (states 0) k p) ∧
        ∀ p, s.StandsBefore g settings counters (states 0) k p →
          p.found.reverse <+: unstopped.cliques ∧
          g.StopsAt settings stop counters (states 0) (states (k + 1)) p := by
  obtain ⟨o, ho, htabulate⟩ := Subject.tabulate_answers hg hfits
  refine ⟨_, _, htabulate, iterate_unstopped hg ho htabulate counters, rfl,
    runsFreely_of_unstopped hpolled hg ho htabulate, ?_⟩
  intro k hk hmade hbefore hstop
  refine ⟨Subject.exists_standsBefore hg ho hmade, fun p hp => ⟨?_, ?_⟩⟩
  · rw [(hp.follows hg ho).found, List.append_nil, List.reverse_reverse]
    exact (Event.before_prefix hmade).filterMap Event.clique?
  · exact stopsAt_of_stop hpolled hg ho htabulate hk hmade hbefore hstop hp

/-! ### A stop check that counts its polls -/

/-- The world after some polls, each of which has left a note. -/
def World.polled : Nat → World
  | 0 => { traces := #[#[]] }
  | k + 1 => (polled k).note 0 (.truth true)

/-- A stop check that leaves a note at each poll and stops the search at the third one only. -/
def World.stopThird (_ : Nat) : Query World Bool := do
  let made := ((← get).trace 0).length
  modify (·.note 0 (.truth true))
  return made == 2

theorem World.length_trace_polled (k : Nat) : ((polled k).trace 0).length = k := by
  have hsize : ∀ k, (polled k).traces.size = 1 := by
    intro k
    induction k with
    | zero => rfl
    | succ k ih => simp [polled, note, ih]
  induction k with
  | zero => rfl
  | succ k ih =>
    have hnote : ((polled k).note 0 (.truth true)).trace 0 = (polled k).trace 0 ++ [.truth true] :=
      trace_note (by rw [hsize]; decide) (.truth true)
    rw [polled, hnote, List.length_append, ih]
    rfl

theorem Thing.lopsided_unchanged (w v : World) : (Thing.lopsided.access {}).Unchanged w v where
  admits _ _ h := h.of_stateless fun _ => rfl
  neighbours x items h := by
    have hrun : ∀ w, ((Thing.lopsided.access {}).neighbours x).run w
        = ((TableGraph.lopsided.neighbours x).map fun items =>
          if !(x == .integer 4) then items else [], w) := by
      intro w
      show (Query.ofExcept (TableGraph.lopsided.neighbours x) >>= fun items =>
        (pure (if !(x == .integer 4) then items else []) : Query World _)).run w = _
      cases TableGraph.lopsided.neighbours x <;> rfl
    exact h.of_stateless hrun

theorem Thing.lopsided_polledBy (n : Nat) :
    (Thing.lopsided.access {}).PolledBy World.stopThird World.polled (fun k => k == 2) n where
  polled k _ := by
    show (Except.ok (((World.polled k).trace 0).length == 2), World.polled (k + 1)) = _
    rw [World.length_trace_polled]
  unchanged k _ := Thing.lopsided_unchanged _ _

/-- An enumeration with a pivot and a stack that is stopped at its third poll, by a stop check that
changes the world at each poll. -/
theorem iterate_interrupted_lopsided :
    (Thing.lopsided.access {}).Orderly (World.polled 0) ∧
      (Thing.lopsided.access {}).FitsIn { iterative := .truth true } ∧
      (Thing.lopsided.access {}).PolledBy World.stopThird World.polled (fun k => k == 2) 3 ∧
      ∃ s unstopped,
        (Subject.tabulate (Thing.lopsided.access {}) { iterative := .truth true }).Answers
          (World.polled 0) s ∧
        (iterate (Thing.lopsided.access {}) { iterative := .truth true } (fun _ => pure false)
          {}).run (World.polled 0) = (unstopped, World.polled 0) ∧
        unstopped.fault = none ∧
        (unstopped.polls ≤ 3 → (∀ k < unstopped.polls, (k == 2) = false) →
          (Thing.lopsided.access {}).RunsFreely { iterative := .truth true } World.stopThird {}
            (World.polled 0) (World.polled unstopped.polls)) ∧
        ∀ k < 3, k < unstopped.polls → (∀ j < k, (j == 2) = false) → (k == 2) = true →
          (∃ p, s.StandsBefore (Thing.lopsided.access {}) { iterative := .truth true } {}
            (World.polled 0) k p) ∧
          ∀ p, s.StandsBefore (Thing.lopsided.access {}) { iterative := .truth true } {}
              (World.polled 0) k p →
            p.found.reverse <+: unstopped.cliques ∧
            (Thing.lopsided.access {}).StopsAt { iterative := .truth true } World.stopThird {}
              (World.polled 0) (World.polled (k + 1)) p :=
  have horderly : (Thing.lopsided.access {}).Orderly (World.polled 0) :=
    Thing.lopsided_orderly (World.polled 0)
  have hfits : (Thing.lopsided.access {}).FitsIn { iterative := .truth true } :=
    Thing.lopsided_fitsIn rfl
  ⟨horderly, hfits, Thing.lopsided_polledBy 3,
    iterate_interrupted horderly hfits (Thing.lopsided_polledBy 3) {}⟩

end MaximalCliques
