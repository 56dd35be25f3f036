import MaximalCliques.Proofs.Enumeration.Conducting
import MaximalCliques.Proofs.Graph.Bases
import MaximalCliques.Proofs.Graph.Restriction

/-!
# An enumeration delivers exactly the maximal cliques

* **`Access.FitsIn`** — a graph that the settings have room for.
* **`Subject.tabulate_shown`** — such a graph, if orderly, is tabulated by what it shows.
* **`iterate_polled`** — what an enumeration comes to, when the answers of its stop check are given.
* **`iterate_unstopped`** — what an enumeration that nobody stops delivers and counts.
* **`iterate_enumerates`** — it delivers every maximal clique, each once, and nothing else.
-/

namespace MaximalCliques

variable {σ : Type} {g : Access σ} {w : σ} {settings : Settings}

theorem Searching.run_askFrom {α : Type} {q : Searching σ α} {p p' : Progress} {w' : σ}
    {answer : Except Fault α} (h : q.run (p, w) = (answer, (p', w'))) :
    (q.askFrom p).run w = ((answer, p'), w') := by
  show (((q.run (p, w)).1, (q.run (p, w)).2.1), (q.run (p, w)).2.2) = _
  rw [h]

/-- The index space of a graph is within the capacity of the settings, and the machine has room for it. -/
def Access.FitsIn (g : Access σ) (settings : Settings) : Prop :=
  ∃ limit, settings.capacity = .ok limit ∧ g.Fits limit

/-- Whether a graph fits depends on its index space and the machine only. -/
theorem Access.FitsIn.congr {τ : Type} {h : Access τ} (hg : g.FitsIn settings)
    (hbound : h.bound = g.bound) (hmachine : h.machine = g.machine) : h.FitsIn settings := by
  obtain ⟨limit, hlimit, hfits⟩ := hg
  exact ⟨limit, hlimit, hfits.congr hbound hmachine⟩

theorem Access.FitsIn.fits (hg : g.FitsIn settings) {n : Int}
    (hlimit : settings.maxOracleNodes = .integer n) (hn : n ≤ largestIndex) : g.Fits (.integer n) := by
  obtain ⟨limit, hcapacity, hfits⟩ := hg
  rw [Settings.capacity_of_le hlimit hn] at hcapacity
  rwa [Except.ok.inj hcapacity]

/-- A bound from zero on that the settings allow, and for whose pairs the machine has room twice, fits. -/
theorem Access.fitsIn_of_le {n : Int} (hlimit : settings.maxOracleNodes = .integer n)
    (hnonneg : 0 ≤ g.bound) (hle : g.bound ≤ n) (hmax : n ≤ 131072)
    (hroom : 2 * (n * n) ≤ g.machine.room) : g.FitsIn settings := by
  have hsquare : g.bound * g.bound ≤ n * n := Int.mul_le_mul hle hle hnonneg (by omega)
  have hmost : n * n ≤ 131072 * 131072 := Int.mul_le_mul hmax hmax (by omega) (by decide)
  refine ⟨.integer n, Settings.capacity_of_le hlimit ?_, ?_, ⟨g.bound.toNat, ?_⟩, ?_⟩
  · unfold largestIndex
    omega
  · have hnot : ¬ n < g.bound := by omega
    simp [Comparison.above_holds_integer, hnot]
  · have hword : fitsWord g.bound = true := by
      unfold fitsWord largestIndex
      rw [Bool.and_eq_true, decide_eq_true_iff, decide_eq_true_iff]
      constructor <;> omega
    have hpairs : ¬ largestIndex < g.bound * g.bound := by unfold largestIndex; omega
    have hmemory : ¬ (g.machine.room : Int) < g.bound * g.bound := by omega
    unfold IndexSpace.forPairs
    rw [hword, if_neg (by decide), if_neg (by omega), if_neg hpairs, if_neg hmemory]
  · have hcast : ((g.bound.toNat * g.bound.toNat : Nat) : Int) = g.bound * g.bound := by
      rw [Int.natCast_mul, Int.toNat_of_nonneg hnonneg]
    exact if_neg (by omega)

namespace Subject

/-- **An orderly graph that fits is tabulated** by what it shows. -/
theorem tabulate_shown (hg : g.Orderly w) (hfits : g.FitsIn settings) :
    (Oracle.shown g w).Tabulates g w ∧
      (tabulate g settings).Answers w ⟨Oracle.shown g w, g.roster w⟩ := by
  obtain ⟨limit, hlimit, hfits⟩ := hfits
  obtain ⟨hbuild, ho⟩ := Oracle.build_shown hg hfits
  refine ⟨ho, ?_⟩
  unfold tabulate
  rw [hlimit]
  exact (Query.answers_ofExcept w limit).bind
    (hbuild.bind ((Access.gather_answers hg).bind (Query.answers_pure w _)))

theorem tabulate_answers (hg : g.Orderly w) (hfits : g.FitsIn settings) :
    ∃ o : Oracle, o.Tabulates g w ∧ (tabulate g settings).Answers w ⟨o, g.roster w⟩ :=
  ⟨_, tabulate_shown hg hfits⟩

/-- **An orderly graph that does not fit is refused**, for a reason that lies in the size of its index
space. -/
theorem tabulate_refused (hfits : ¬g.FitsIn settings) :
    ∃ e, ∀ h : Access σ, h.bound = g.bound → h.machine = g.machine → ∀ w, h.Orderly w →
      (tabulate h settings).run w = (.error e, w) := by
  cases hcapacity : settings.capacity with
  | error e => exact ⟨e, fun h _ _ w _ => by rw [tabulate, hcapacity]; rfl⟩
  | ok limit =>
    obtain ⟨e, hbuild⟩ := Oracle.build_refused fun hlimit => hfits ⟨limit, hcapacity, hlimit⟩
    refine ⟨e, fun h hbound hmachine w hh => ?_⟩
    rw [tabulate, hcapacity]
    show (Oracle.build h limit >>= _).run w = _
    rw [Query.run_bind, hbuild h hbound hmachine w hh]

def history (g : Access σ) (w : σ) (o : Oracle) (settings : Settings) : List (Event Vertex) :=
  historyBelow g w o settings (root ⟨o, g.roster w⟩)

theorem history_of_listed_eq_nil (o : Oracle) (settings : Settings) (h : g.listed w = []) :
    history g w o settings = [.visit ⟨[], [], []⟩, .emit []] := by
  have hplaces : g.places w = [] := by
    rw [Access.places, h]
    simp [Identifier.distinct]
  have hroot : root ⟨o, g.roster w⟩ = ⟨[], [], []⟩ := by
    rw [root, Access.vertices_roster, hplaces]
    rfl
  rw [history, historyBelow, searchBelow_eq, hroot]
  rfl

theorem discoveries_of_listed_eq_nil (o : Oracle) (settings : Settings) (h : g.listed w = []) :
    discoveries g w o settings = [[]] := by
  show Event.delivered (history g w o settings) = [[]]
  rw [history_of_listed_eq_nil o settings h]
  rfl

end Subject

/-- The outcome of an enumeration that goes through a trail. -/
def Outcome.ofTrail (s : Subject) (counters : Counters) (trail : List (Event Vertex) × Option Unit) :
    Outcome where
  cliques := Event.delivered trail.1
  fault := if trail.2.isSome then none else some (.cancelled [])
  counters := counters + Event.tally trail.1
  polls := Event.polls trail.1
  reports := if trail.2.isSome then [s.report]
    else [s.report, .cancelled (counters + Event.tally trail.1).cliques]

/-- An enumeration that goes through a trail is cancelled, or has no fault if it comes to its end. -/
theorem Outcome.fault_ofTrail (s : Subject) (counters : Counters)
    (trail : List (Event Vertex) × Option Unit) :
    trail.2.isSome = true ∧ (ofTrail s counters trail).fault = none ∨
      trail.2.isSome = false ∧ (ofTrail s counters trail).fault = some (.cancelled []) := by
  unfold ofTrail
  cases trail.2.isSome
  · exact .inr ⟨rfl, rfl⟩
  · exact .inl ⟨rfl, rfl⟩

theorem enumerate_of_iterate {stop : Nat → Query σ Bool} {counters : Counters} {w' : σ}
    {outcome : Outcome} (h : (iterate g settings stop counters).run w = (outcome, w')) :
    (enumerate g settings stop counters).run w = (outcome.asSet, w') := run_bind_of_eq h

/-- **What an enumeration of an orderly graph comes to** when its stop check leads through given states
with given answers.  It leaves the state that its polls lead to. -/
theorem iterate_polled {stop : Nat → Query σ Bool} {states : Nat → σ} {answers : Nat → Bool}
    {polls : Nat} (hpolled : g.PolledBy stop states answers polls) (hg : g.Orderly (states 0))
    {o : Oracle} (ho : o.Tabulates g (states 0))
    (htabulate : (Subject.tabulate g settings).Answers (states 0) ⟨o, g.roster (states 0)⟩)
    (counters : Counters) {trail : List (Event Vertex) × Option Unit}
    (htrail : (Subject.searchBelow settings (Subject.root ⟨o, g.roster (states 0)⟩)).trail
      (g.hoodAt (states 0) o) answers 0 = trail) (hpolls : Event.polls trail.1 ≤ polls) :
    (iterate g settings stop counters).run (states 0)
      = (.ofTrail ⟨o, g.roster (states 0)⟩ counters trail, states (Event.polls trail.1)) := by
  have hwithin : (Subject.searchBelow settings (Subject.root ⟨o, g.roster (states 0)⟩)).Within
      (g.Stands (states 0)) (g.hoodAt (states 0) o) :=
    (Subject.searchBelow_mirrors hg ho settings (Subject.root_within g (states 0) o)).within
  have hfinish := Subject.finish_polled hpolled hg ho hwithin (p := { counters })
    (Progress.sound_of_empty g (states 0) o rfl)
  rw [htrail, Nat.zero_add] at hfinish
  obtain ⟨p, hfinish, hfollows, -⟩ := hfinish hpolls
  have hfound : p.found.reverse = Event.delivered trail.1 := by
    rw [hfollows.found, List.append_nil, List.reverse_reverse]
  have hmade : p.polls = Event.polls trail.1 := by
    rw [hfollows.polls]
    exact Nat.zero_add _
  have hcounters : p.counters = counters + Event.tally trail.1 := hfollows.counters
  have htab : (Subject.tabulate g settings).run.run (states 0)
      = (.ok ⟨o, g.roster (states 0)⟩, states 0) := htabulate
  unfold iterate
  refine (run_bind_of_eq htab).trans ((run_bind_of_eq (Searching.run_askFrom hfinish)).trans ?_)
  rw [Outcome.ofTrail, ← hfound, ← hcounters, ← hmade]
  obtain ⟨es, _ | ⟨⟨⟩⟩⟩ := trail <;> rfl

theorem iterate_conducted (hg : g.Orderly w) {o : Oracle} (ho : o.Tabulates g w)
    (htabulate : (Subject.tabulate g settings).Answers w ⟨o, g.roster w⟩) (answers : Nat → Bool)
    (counters : Counters) :
    (iterate g settings (fun k => pure (answers k)) counters).run w
      = (.ofTrail ⟨o, g.roster w⟩ counters
        ((Subject.searchBelow settings (Subject.root ⟨o, g.roster w⟩)).trail (g.hoodAt w o) answers 0),
        w) :=
  iterate_polled (g.polledBy_pure w answers _) hg ho htabulate counters rfl (Nat.le_refl _)

/-- **What an enumeration that nobody stops comes to.** -/
theorem iterate_unstopped (hg : g.Orderly w) {o : Oracle} (ho : o.Tabulates g w)
    (htabulate : (Subject.tabulate g settings).Answers w ⟨o, g.roster w⟩) (counters : Counters) :
    (iterate g settings (fun _ => pure false) counters).run w
      = ({ cliques := Subject.discoveries g w o settings
           counters := counters + Event.tally (Subject.history g w o settings)
           polls := Event.polls (Subject.history g w o settings)
           reports := [Subject.report ⟨o, g.roster w⟩] }, w) := by
  have h := iterate_conducted hg ho htabulate (fun _ => false) counters
  rw [Run.trail_never] at h
  exact h

/-- **An enumeration that nobody stops delivers exactly the maximal cliques.**  On an orderly graph that
fits, with or without a pivot and with either engine, it ends without a fault and delivers every maximal
clique once and nothing else; a graph without nodes has the empty clique only. -/
theorem iterate_enumerates (hg : g.Orderly w) (hfits : g.FitsIn settings) (counters : Counters) :
    ∃ outcome, (iterate g settings (fun _ => pure false) counters).run w = (outcome, w) ∧
      outcome.fault = none ∧ g.Enumerates w (outcome.cliques.map Clique.nodes) ∧
      (g.listed w = [] → outcome.cliques = [[]]) := by
  obtain ⟨o, ho, htabulate⟩ := Subject.tabulate_answers hg hfits
  refine ⟨_, iterate_unstopped hg ho htabulate counters, rfl,
    Subject.discoveries_enumerates hg ho settings, ?_⟩
  exact Subject.discoveries_of_listed_eq_nil o settings

/-! ### A graph whose neighbour lists are of every kind -/

/-- Node 1 lists itself, node 2 twice, and a value that is no node; node 3 lists node 1, which does not
list it; node 4 lists nothing. -/
def TableGraph.lopsided : TableGraph where
  nodes := [.integer 1, .integer 2, .integer 3, .integer 4, .integer 2]
  bound := .integer 8
  indices := ⟨[(.integer 1, .integer 5), (.integer 2, .integer 0), (.integer 3, .integer 3),
    (.integer 4, .integer 1), (.integer 9, .integer 7)]⟩
  outgoing := ⟨[(.integer 1, [.integer 1, .integer 2, .integer 2, .integer 9]),
    (.integer 2, [.integer 1]), (.integer 3, [.integer 1])]⟩
  incoming := {}
  directed := true

theorem TableGraph.holds_lopsided {x : Identifier} (h : lopsided.Holds x) :
    x = .integer 1 ∨ x = .integer 2 ∨ x = .integer 3 ∨ x = .integer 4 ∨ x = .integer 9 := by
  have hlist : x ∈ lopsided.nodes ++ lopsided.nodes.flatMap lopsided.lists := by
    rw [List.mem_append, List.mem_flatMap]
    exact h
  have heq : lopsided.nodes ++ lopsided.nodes.flatMap lopsided.lists
      = [.integer 1, .integer 2, .integer 3, .integer 4, .integer 2, .integer 1, .integer 2,
        .integer 2, .integer 9, .integer 1, .integer 1, .integer 1] := rfl
  rw [heq] at hlist
  simp only [List.mem_cons, List.not_mem_nil] at hlist
  tauto

def Thing.lopsided : Thing where
  base := .tableGraph 0 .lopsided
  filters := [.rule 0 (.differsFrom (.integer 4)) []]

theorem Base.lopsided_orderly (w : World) :
    ((Base.tableGraph 0 .lopsided).access w).Orderly w := by
  refine Base.tableGraph_orderly rfl ?_ ?_ ?_ w
  · intro x hx
    rcases TableGraph.holds_lopsided hx with rfl | rfl | rfl | rfl | rfl <;> rfl
  · intro x hx
    rcases TableGraph.holds_lopsided hx with rfl | rfl | rfl | rfl | rfl
    · exact ⟨5, rfl, by decide⟩
    · exact ⟨0, rfl, by decide⟩
    · exact ⟨3, rfl, by decide⟩
    · exact ⟨1, rfl, by decide⟩
    · exact ⟨7, rfl, by decide⟩
  · intro x y hx hy
    rcases TableGraph.holds_lopsided hx with rfl | rfl | rfl | rfl | rfl <;>
      rcases TableGraph.holds_lopsided hy with rfl | rfl | rfl | rfl | rfl <;>
      constructor <;> intro h <;> first | rfl | cases h

theorem Thing.lopsided_orderly (w : World) : (Thing.lopsided.access w).Orderly w := by
  refine Thing.orderly (Base.lopsided_orderly w) fun f hf => ?_
  rw [List.mem_singleton.1 hf]
  exact Filter.differsFrom_testedBy 0 (.integer 4)

theorem Thing.lopsided_fitsIn {settings : Settings} (h : settings.maxOracleNodes = .integer 16384) :
    (Thing.lopsided.access {}).FitsIn settings :=
  Access.fitsIn_of_le h (by decide) (by decide) (by decide) (by decide)

/-- The maximal cliques of a graph whose neighbour lists are asymmetric, repeat themselves, hold a loop
and hold a value that is no node, seen through a filter and searched with a pivot and a stack. -/
theorem iterate_enumerates_lopsided :
    (Thing.lopsided.access {}).Orderly {} ∧
      (Thing.lopsided.access {}).FitsIn { iterative := .truth true } ∧
      ∃ outcome, (iterate (Thing.lopsided.access {}) { iterative := .truth true } (fun _ => pure false)
          {}).run ({} : World) = (outcome, {}) ∧
        outcome.fault = none ∧
        (Thing.lopsided.access {}).Enumerates {} (outcome.cliques.map Clique.nodes) ∧
        ((Thing.lopsided.access {}).listed {} = [] → outcome.cliques = [[]]) :=
  have hfits : (Thing.lopsided.access {}).FitsIn { iterative := .truth true } :=
    Thing.lopsided_fitsIn rfl
  ⟨Thing.lopsided_orderly {}, hfits,
    iterate_enumerates (Thing.lopsided_orderly {}) hfits {}⟩

end MaximalCliques
