import MaximalCliques.Proofs.Enumeration.Announcements

/-!
# The number of cliques that a cancelled enumeration announces

* **`Resumption.Told`** — what has come of a resumption: a clique that has been counted and the rest of the
  search, or the end and its announcement.
* **`OpenEnumeration.resumption_told`** — the invariant of an enumeration that is resumed time and again.
* **`cancellation_announced`** — the number announced by each way of enumerating.
-/

namespace MaximalCliques

variable {σ : Type} {g : Access σ} {settings : Settings} {stop : Nat → Query σ Bool}
variable {counters : Counters} {s : Subject} {v w : σ} {own : Prop} {n : Int} {k : Nat}

/-! ### Clique by clique -/

def Resumption.fault? (r : Resumption) : Option Fault :=
  match r.answer with
  | .error e => some e
  | .ok _ => none

/-- **What has come of a resumption** before which `k` cliques have been delivered, and `n` had been counted
before the first one: another clique, which has been counted, and a search that delivers others; or the end,
with the announcement of the count if there has been a cancellation. -/
inductive Resumption.Told (g : Access σ) (stop : Nat → Query σ Bool) (own : Prop) (n : Int) (k : Nat) :
    Resumption → Prop
  | delivered {c : Clique} {s : Subject} {rest : Run Vertex Unit} {p : Progress} {reports : List Report}
      (hs : s.Reports g stop own) (hrest : rest.Fresh Vertex.place p.Seen) (hp : p.Tells n)
      (hlength : p.found.length = k + 1) (hreports : Report.announced reports = []) :
      Told g stop own n k
        { answer := .ok (some c), state := .suspended s rest p, counters := p.counters, reports }
  | closed {r : Resumption} (hstate : r.state = .ended)
      (h : Announces own r.reports (n + k) (r.fault?.bind Fault.handedOver?) 0) : Told g stop own n k r

theorem Resumption.Told.announces {r : Resumption} (h : r.Told g stop own n k) :
    Announces own r.reports (n + k) (r.fault?.bind Fault.handedOver?) 0 := by
  cases h with
  | delivered hs hrest hp hlength hreports =>
    exact announces_nothing hreports fun _ e he => by cases he
  | closed hstate h => exact h

theorem Resumption.Told.exists_clique {r : Resumption} (h : r.Told g stop own n k)
    (hstate : r.state ≠ .ended) : ∃ c, r.answer = .ok (some c) := by
  cases h with
  | delivered => exact ⟨_, rfl⟩
  | closed hended => exact absurd hended hstate

namespace OpenEnumeration

/-- **Going on with a search.** -/
theorem proceed_told (hs : s.Reports g stop own) {rest : Run Vertex Unit} {p : Progress}
    (hrest : rest.Fresh Vertex.place p.Seen) (hp : p.Tells n) {reports : List Report}
    (hreports : Report.announced reports = []) (w : σ) :
    ((proceed s g stop reports rest p).run w).1.Told g stop own n p.found.length := by
  have hled := hs.next_leads hrest hp w
  cases hnext : (rest.next (s.conductor g stop)).run (p, w) with
  | mk answer state =>
    obtain ⟨p', v⟩ := state
    rw [hnext] at hled
    rw [show (proceed s g stop reports rest p).run w = _ from
      run_bind_of_eq (Searching.run_askFrom hnext)]
    cases answer with
    | error e =>
      exact .closed rfl (announces_nothing hreports fun how => (hled.2 how).of_some)
    | ok pause =>
      obtain ⟨hp', hcontinues⟩ := hled
      cases pause with
      | clique c rest' => exact .delivered hs hcontinues.1 hp' hcontinues.2 hreports
      | done b => exact .closed rfl (announces_nothing hreports fun _ e he => by cases he)
      | stopped =>
        have hlength : p'.found.length = p.found.length := hcontinues
        have hcounted : Report.announced (reports ++ [.cancelled p'.counters.cliques])
            = [n + p.found.length] := by
          rw [Report.announced_append, hreports, hp'.counted, hlength]
          rfl
        exact .closed rfl (announces_one hcounted rfl rfl)

theorem again_succ (k : Nat) (r : Resumption) : again g settings stop (k + 1) r
    = again g settings stop k r >>= fun r => resume g settings stop r.counters r.state := by
  induction k generalizing r with
  | zero => simp [again]
  | succ k ih =>
    rw [again, again, bind_assoc]
    exact bind_congr ih

theorem resumption_succ (k : Nat) (counters : Counters) : resumption g settings stop (k + 1) counters
    = resumption g settings stop k counters >>= fun r => resume g settings stop r.counters r.state := by
  rw [resumption, resumption, bind_assoc]
  exact bind_congr (again_succ k)

theorem resumption_zero (counters : Counters) : resumption g settings stop 0 counters
    = resume g settings stop counters .notStarted := bind_pure _

theorem resume_of_ended {state : OpenEnumeration} (h : state = .ended) :
    (resume g settings stop counters state).run w
      = ({ answer := .ok none, state := .ended, counters }, w) := by
  rw [h]
  rfl

variable (g settings stop) in
/-- **What comes of an enumeration that is resumed time and again.** -/
theorem resumption_told (k : Nat) (counters : Counters) (w : σ) :
    ((resumption g settings stop k counters).run w).1.Told g stop (g.NeverCancelsWith stop)
      counters.cliques k := by
  induction k with
  | zero =>
    rw [resumption_zero]
    cases htabulate : (Subject.tabulate g settings).run w with
    | mk answer u =>
      rw [show (resume g settings stop counters .notStarted).run w = _ from run_bind_of_eq htabulate]
      cases answer with
      | error e =>
        exact .closed rfl (announces_nothing rfl fun how =>
          (how.graph.tabulate settings w e (congrArg Prod.fst htabulate)).of_some)
      | ok s =>
        exact proceed_told (Subject.reports_of_tabulate htabulate stop)
          (Subject.search_fresh htabulate fun _ => List.not_mem_nil) (Progress.tells_start counters) rfl u
  | succ k ih =>
    rw [resumption_succ]
    cases hrun : (resumption g settings stop k counters).run w with
    | mk r u =>
      rw [hrun] at ih
      rw [run_bind_of_eq hrun]
      cases ih with
      | delivered hs hrest hp hlength hreports =>
        have h := proceed_told hs hrest hp (show Report.announced [] = [] from rfl) u
        rw [hlength] at h
        exact h
      | closed hstate h =>
        rw [resume_of_ended hstate]
        exact .closed rfl (announces_nothing rfl fun _ e he => by cases he)

/-- **Before a resumption that announces something**, and before one that delivers a clique, all have
delivered cliques. -/
theorem resumption_delivers {r : Resumption} (hrun : (resumption g settings stop k counters).run w = (r, v))
    (h : r.state ≠ .ended ∨ Report.announced r.reports ≠ []) {j : Nat} (hj : j < k) :
    ∃ c, ((resumption g settings stop j counters).run w).1.answer = .ok (some c) := by
  induction k generalizing r v with
  | zero => exact absurd hj (Nat.not_lt_zero j)
  | succ k ih =>
    have htold := resumption_told g settings stop k counters w
    cases hbefore : (resumption g settings stop k counters).run w with
    | mk r' u =>
      rw [hbefore] at htold
      rw [resumption_succ, run_bind_of_eq hbefore] at hrun
      have hgoesOn : r'.state ≠ .ended := by
        intro hended
        rw [resume_of_ended hended] at hrun
        obtain ⟨rfl, -⟩ := Prod.mk.inj hrun
        exact h.elim (fun h => h rfl) fun h => h rfl
      rcases Nat.lt_succ_iff_lt_or_eq.1 hj with hj | rfl
      · exact ih hbefore (.inl hgoesOn) hj
      · rw [hbefore]
        exact htold.exists_clique hgoesOn

end OpenEnumeration

/-! ### All together -/

/-- **The numbers of cliques after which enumerations of a graph are said to be cancelled.**  One after the
other, handed over as a set or resumed time and again, the number is what the counters that were given had
counted already, and the cliques that have been delivered on top of that; it is the size of the set that is
handed over only if nothing had been counted before.  In branches, on a pool or not, it is the size of that
set, whatever had been counted.

Each number is announced once, and it is announced whenever an enumeration is cancelled, as long as neither
the graph nor the stop check raises a cancellation. -/
structure CancellationsAnnounced (g : Access σ) (settings : Settings) (stop : Nat → Query σ Bool)
    (counters : Counters) (w : σ) : Prop where
  iterated : ∀ o v, (iterate g settings stop counters).run w = (o, v) →
    Announces (g.NeverCancelsWith stop) o.reports (counters.cliques + o.cliques.length)
      (o.fault.bind Fault.handedOver?) 0
  enumerated : ∀ o v, (enumerate g settings stop counters).run w = (o, v) →
    Announces (g.NeverCancelsWith stop) o.reports (counters.cliques + o.cliques.length)
      (o.fault.bind Fault.handedOver?) o.cliques.length
  resumed : ∀ k r v, (OpenEnumeration.resumption g settings stop k counters).run w = (r, v) →
    Announces (g.NeverCancelsWith stop) r.reports (counters.cliques + k)
      (r.fault?.bind Fault.handedOver?) 0
  yielded : ∀ k r v, (OpenEnumeration.resumption g settings stop k counters).run w = (r, v) →
    Report.announced r.reports ≠ [] → ∀ j < k, ∃ c,
      ((OpenEnumeration.resumption g settings stop j counters).run w).1.answer = .ok (some c)
  inBranches : ∀ discipline o v,
    (enumerateInBranches g settings stop discipline counters).run w = (o, v) →
    Announces (g.NeverCancelsWith stop) o.reports o.cliques.length (o.fault.bind Fault.handedOver?)
      o.cliques.length
  onPool : ∀ moves branches o v,
    enumerateOnPool g settings stop counters moves w = .settled branches o v →
    Announces (g.NeverCancelsWith stop) o.reports o.cliques.length (o.fault.bind Fault.handedOver?)
      o.cliques.length

/-- **What a cancelled enumeration announces**, for every graph, settings, stop check, schedule and counters:
the number of its own cliques in branches, and what has been counted in all one after the other. -/
theorem cancellation_announced (g : Access σ) (settings : Settings) (stop : Nat → Query σ Bool)
    (counters : Counters) (w : σ) : CancellationsAnnounced g settings stop counters w where
  iterated _ _ hrun := iterate_announces hrun
  enumerated _ _ hrun := enumerate_announces hrun
  resumed k r v hrun := by
    have h := OpenEnumeration.resumption_told g settings stop k counters w
    rw [hrun] at h
    exact h.announces
  yielded _ _ _ hrun h _ hj := OpenEnumeration.resumption_delivers hrun (.inr h) hj
  inBranches _ _ _ hrun := enumerateInBranches_announces hrun
  onPool _ _ _ _ hsettled := enumerateOnPool_announces hsettled

/-- **Counters that are used again**: an enumeration that is stopped at once announces the five cliques that
had been counted before, and hands over none. -/
theorem cancellation_announced_again : ∃ o,
    (enumerate (Thing.lone.access {}) {} (fun _ => pure true) { cliques := 5 }).run ({} : World) = (o, {}) ∧
      o.fault = some (.cancelled []) ∧ Report.announced o.reports = [5] := by
  have hfits : (Thing.lone.access {}).FitsIn {} :=
    Access.fitsIn_of_le rfl (by decide) (by decide) (by decide) (by decide)
  obtain ⟨o, hiterate, hcliques, hfault, -⟩ := iterate_stopped_at_once (Thing.lone_orderly {}) hfits
    (by decide) { cliques := 5 }
  have hcollect : Clique.collect [] = [] := (Clique.collect_perm List.Pairwise.nil).eq_nil
  have hset : o.asSet.cliques = [] ∧ o.asSet.fault = some (.cancelled []) := by
    simp [Outcome.asSet, hcliques, hfault, hcollect]
  have hnever : (Thing.lone.access {}).NeverCancelsWith fun _ => pure true :=
    ⟨Base.access_neverCancels {} (.tableGraph 0 .lone), fun _ => Query.neverCancels_pure true⟩
  have hrun := enumerate_of_iterate hiterate
  refine ⟨_, hrun, hset.2, ?_⟩
  rw [(enumerate_announces hrun).always hnever (by rw [hset.2]; rfl), hset.1]
  rfl

end MaximalCliques
