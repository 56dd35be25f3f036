import MaximalCliques.Proofs.Graph.Bases
import MaximalCliques.Proofs.Graph.Restriction

/-!
# Views of views

A view of a view shows the nodes that pass both tests.  So several tests put over a graph, one over the
other, show what their conjunction shows, and their order does not matter.

* **`Access.conjunction`** — one test made of several.
* **`Access.AnswersToward`** — a direction in which a graph answers for its nodes, and tests for their
  neighbours.
* **`Access.Narrows`** — a view that shows, in the order of the graph, what passes all tests.
* **`Access.restrictAll_narrows`**, **`Access.restrict_conjunction_narrows`** — tests put over one another
  make such a view, and so does their conjunction.
* **`Access.Narrows.reports_iff`**, **`Access.reportsPassing_iff`** — the pairs of an oracle of such a view.
* **`Access.blurred_narrows`** — what a filter that tells spellings apart does to a link.
-/

namespace MaximalCliques

namespace Access

variable {σ : Type} {g : Access σ} {w : σ} {tests : List (Identifier → Query σ Bool)}

/-! ### One test made of several -/

/-- The tests are asked in turn, and the first refusal ends the conjunction. -/
def conjunction : List (Identifier → Query σ Bool) → Identifier → Query σ Bool
  | [], _ => pure true
  | test :: tests, x => do if ← test x then conjunction tests x else pure false

theorem conjunction_answers {x : Identifier} (h : ∀ test ∈ tests, ∃ b, (test x).Answers w b) :
    (conjunction tests x).Answers w (passesAll w tests x) := by
  induction tests with
  | nil => exact Query.answers_pure w true
  | cons test tests ih =>
    have htest := verdict_answers (h test List.mem_cons_self)
    have htests := ih fun test' h' => h test' (List.mem_cons_of_mem test h')
    rw [passesAll, List.all_cons]
    refine htest.bind ?_
    cases verdict w test x with
    | false => exact Query.answers_pure w false
    | true => exact htests

/-- **The verdict of a conjunction** is whether all tests are passed. -/
theorem verdict_conjunction {x : Identifier} (h : ∀ test ∈ tests, ∃ b, (test x).Answers w b) :
    verdict w (conjunction tests) x = passesAll w tests x := by
  rw [verdict, (conjunction_answers h).answer?, Option.getD_some]

theorem TestedBy.conjunction (htests : ∀ test ∈ tests, g.TestedBy w test) :
    g.TestedBy w (conjunction tests) :=
  fun x hx => ⟨_, conjunction_answers fun test htest => htests test htest x hx⟩

theorem passesAll_perm {nested : List (Identifier → Query σ Bool)} (h : nested.Perm tests) :
    passesAll w nested = passesAll w tests := funext fun _ => h.all_eq

/-! ### Neighbours in a view -/

/-- **What a node reports through several tests**: if it passes them all, those of its neighbours that
do. -/
theorem AnswersFor.restrictAll {d : Option Direction} {x : Identifier} (h : g.AnswersFor w d x)
    (hsource : ∀ test ∈ tests, ∃ b, (test x).Answers w b)
    (htests : ∀ test ∈ tests, ∀ y ∈ g.toward w d x, ∃ b, (test y).Answers w b) :
    (g.restrictAll tests).AnswersFor w d x ∧ (g.restrictAll tests).toward w d x
      = if passesAll w tests x then (g.toward w d x).filter (passesAll w tests) else [] := by
  induction tests with
  | nil => exact ⟨h, (List.filter_eq_self.2 fun y _ => rfl).symm⟩
  | cons test tests ih =>
    obtain ⟨hinner, htoward⟩ := ih (fun test' h' => hsource test' (List.mem_cons_of_mem test h'))
      fun test' h' => htests test' (List.mem_cons_of_mem test h')
    have htest : ∀ y ∈ (g.restrictAll tests).toward w d x, (test y).Answers w (verdict w test y) := by
      intro y hy
      rw [htoward] at hy
      split at hy
      · exact verdict_answers (htests test List.mem_cons_self y (List.mem_filter.1 hy).1)
      · exact absurd hy List.not_mem_nil
    obtain ⟨houter, hreported⟩ :=
      hinner.restrict (verdict_answers (hsource test List.mem_cons_self)) htest
    have hall : ∀ y, passesAll w (test :: tests) y = (verdict w test y && passesAll w tests y) :=
      fun _ => List.all_cons
    refine ⟨houter, hreported.trans ?_⟩
    rw [htoward, hall]
    cases verdict w test x with
    | false => rfl
    | true =>
      cases passesAll w tests x with
      | false => rfl
      | true =>
        show ((g.toward w d x).filter (passesAll w tests)).filter (verdict w test) = _
        rw [List.filter_filter]
        exact List.filter_congr fun y _ => (hall y).symm

/-- **A direction in which a graph answers for its nodes**, and the tests for all neighbours there. -/
def AnswersToward (g : Access σ) (w : σ) (tests : List (Identifier → Query σ Bool))
    (d : Option Direction) : Prop :=
  ∀ x ∈ g.listed w, g.AnswersFor w d x ∧
    ∀ test ∈ tests, ∀ y ∈ g.toward w d x, ∃ b, (test y).Answers w b

theorem Orderly.answersToward_none (hg : g.Orderly w) (htests : ∀ test ∈ tests, g.TestedBy w test) :
    g.AnswersToward w tests none := by
  intro x hx
  have hlisted := Identifier.isIn_of_mem hx
  exact ⟨hg.answersFor (.inl hx) hlisted, fun test htest y hy =>
    htests test htest y (names_of_mem_reported hg (.inl hx) hlisted hy)⟩

/-! ### Views that show what passes -/

/-- **A view that shows what passes all tests**: it has the index space and the machine of the graph, lists
the nodes that pass, and reports for a node that passes its neighbours that do, for any other node of the
graph none; all in the order of the graph. -/
structure Narrows (view g : Access σ) (w : σ) (tests : List (Identifier → Query σ Bool)) : Prop where
  bound : view.bound = g.bound
  index : view.index = g.index
  machine : view.machine = g.machine
  nodes : (view.admitted view.nodes).Answers w ((g.listed w).filter (passesAll w tests))
  neighbours : ∀ x ∈ g.listed w, (view.sequence none x).Answers w
    (if passesAll w tests x then (g.reported w x).filter (passesAll w tests) else [])
  directed : ∀ d, g.AnswersToward w tests d → ∀ x ∈ g.listed w, (view.sequence d x).Answers w
    (if passesAll w tests x then (g.toward w d x).filter (passesAll w tests) else [])

/-- A listed node that passes all tests and has the first position reports a node that passes and has the
second one. -/
def ReportsPassing (g : Access σ) (w : σ) (tests : List (Identifier → Query σ Bool)) (i j : Nat) : Prop :=
  ∃ u ∈ g.listed w, passesAll w tests u = true ∧ ∃ v ∈ g.reported w u, passesAll w tests v = true ∧
    g.position u = i ∧ g.position v = j

/-- Is the index that of a named node that passes all tests? -/
def Accepts (g : Access σ) (w : σ) (tests : List (Identifier → Query σ Bool)) (i : Nat) : Prop :=
  ∃ x, g.Names w x ∧ g.position x = i ∧ passesAll w tests x = true

/-- **Tests that judge alike** leave the pairs whose indices are both those of nodes that pass. -/
theorem reportsPassing_iff (hg : g.Orderly w) (halike : ∀ test ∈ tests, g.JudgesAlike w test)
    (i j : Nat) : g.ReportsPassing w tests i j ↔
      g.Reports w i j ∧ g.Accepts w tests i ∧ g.Accepts w tests j := by
  constructor
  · intro hij
    obtain ⟨u, hu, hupass, v, hv, hvpass, rfl, rfl⟩ := hij
    exact ⟨⟨u, hu, v, hv, rfl, rfl⟩, ⟨u, .inl hu, rfl, hupass⟩, ⟨v, .inr ⟨u, hu, hv⟩, rfl, hvpass⟩⟩
  · intro hij
    obtain ⟨⟨u, hu, v, hv, rfl, rfl⟩, ⟨u', hu', hu'u, hupass⟩, ⟨v', hv', hv'v, hvpass⟩⟩ := hij
    -- the nodes that pass are other spellings of the two nodes of the pair
    have hunames : g.Names w u := .inl hu
    have hvnames : g.Names w v := .inr ⟨u, hu, hv⟩
    rw [hg.position_eq_iff hu' hunames] at hu'u
    rw [hg.position_eq_iff hv' hvnames] at hv'v
    rw [passesAll_congr halike hu' hunames hu'u] at hupass
    rw [passesAll_congr halike hv' hvnames hv'v] at hvpass
    exact ⟨u, hu, hupass, v, hv, hvpass, rfl, rfl⟩

section Views

variable (hg : g.Orderly w) (htests : ∀ test ∈ tests, g.TestedBy w test)
include hg htests

/-- A view narrows the graph if it answers for the nodes of the graph with what passes. -/
theorem Narrows.of_toward {view : Access σ} (hbound : view.bound = g.bound)
    (hindex : view.index = g.index) (hmachine : view.machine = g.machine) (hview : view.Orderly w)
    (hlisted : view.listed w = (g.listed w).filter (passesAll w tests))
    (htoward : ∀ d, g.AnswersToward w tests d → ∀ x ∈ g.listed w, view.AnswersFor w d x ∧
      view.toward w d x
        = if passesAll w tests x then (g.toward w d x).filter (passesAll w tests) else []) :
    view.Narrows g w tests := by
  have hdirected : ∀ d, g.AnswersToward w tests d → ∀ x ∈ g.listed w, (view.sequence d x).Answers w
      (if passesAll w tests x then (g.toward w d x).filter (passesAll w tests) else []) := by
    intro d hd x hx
    obtain ⟨hanswers, hitems⟩ := htoward d hd x hx
    rw [← hitems]
    exact hanswers.sequence_answers
  have hnodes := hview.admitted_nodes
  rw [hlisted] at hnodes
  exact ⟨hbound, hindex, hmachine, hnodes, hdirected none (hg.answersToward_none htests), hdirected⟩

/-- **Tests put over one another** show what passes them all. -/
theorem restrictAll_narrows : (g.restrictAll tests).Narrows g w tests := by
  obtain ⟨hview, -, hlisted, -⟩ := hg.restrictAll htests
  refine .of_toward hg htests (bound_restrictAll g tests) (index_restrictAll g tests)
    (machine_restrictAll g tests) hview hlisted ?_
  intro d hd x hx
  obtain ⟨hanswers, hreached⟩ := hd x hx
  exact hanswers.restrictAll (fun test htest => htests test htest x (.inl hx)) hreached

/-- **Their conjunction** shows the same. -/
theorem restrict_conjunction_narrows : (g.restrict (conjunction tests)).Narrows g w tests := by
  have htest := TestedBy.conjunction htests
  have hverdict : ∀ x ∈ g.listed w, verdict w (conjunction tests) x = passesAll w tests x :=
    fun x hx => verdict_conjunction fun test htest' => htests test htest' x (.inl hx)
  refine .of_toward hg htests rfl rfl rfl (hg.restrict htest) ?_ fun d hd x hx => ?_
  · rw [hg.listed_restrict htest]
    exact List.filter_congr hverdict
  · obtain ⟨hanswers, hreached⟩ := hd x hx
    have hanswered : ∀ y ∈ g.toward w d x, ∀ test ∈ tests, ∃ b, (test y).Answers w b :=
      fun y hy test htest => hreached test htest y hy
    obtain ⟨hview, htoward⟩ := hanswers.restrict (htest.answers_verdict (.inl hx)) fun y hy =>
      verdict_answers ⟨_, conjunction_answers (hanswered y hy)⟩
    rw [hverdict x hx, List.filter_congr fun y hy => verdict_conjunction (hanswered y hy)] at htoward
    exact ⟨hview, htoward⟩

end Views

theorem Narrows.perm {view : Access σ} {nested : List (Identifier → Query σ Bool)}
    (h : view.Narrows g w nested) (hperm : nested.Perm tests) : view.Narrows g w tests := by
  have hpasses : passesAll w nested = passesAll w tests := passesAll_perm hperm
  obtain ⟨hbound, hindex, hmachine, hnodes, hneighbours, hdirected⟩ := h
  rw [hpasses] at hnodes
  simp only [hpasses] at hneighbours hdirected
  exact ⟨hbound, hindex, hmachine, hnodes, hneighbours, fun d hd => hdirected d fun x hx =>
    ⟨(hd x hx).1, fun test htest => (hd x hx).2 test (hperm.mem_iff.1 htest)⟩⟩

namespace Narrows

variable {view : Access σ} (h : view.Narrows g w tests)
include h

theorem listed_eq : view.listed w = (g.listed w).filter (passesAll w tests) := by
  rw [listed, h.nodes.answer?, Option.getD_some]

theorem reported_eq {x : Identifier} (hx : x ∈ g.listed w) : view.reported w x
    = if passesAll w tests x then (g.reported w x).filter (passesAll w tests) else [] := by
  show ((view.sequence none x).answer? w).getD [] = _
  rw [(h.neighbours x hx).answer?, Option.getD_some]

theorem position_eq : view.position = g.position := by
  funext x
  rw [position, position, h.index]

/-- **The pairs of a view** are those of the graph in which both nodes pass, as they are spelled there. -/
theorem reports_iff (i j : Nat) : view.Reports w i j ↔ g.ReportsPassing w tests i j := by
  rw [Reports, ReportsPassing, h.listed_eq, h.position_eq]
  constructor
  · intro hij
    obtain ⟨u, hu, v, hv, hi, hj⟩ := hij
    obtain ⟨hul, hupass⟩ := List.mem_filter.1 hu
    rw [h.reported_eq hul, if_pos hupass] at hv
    obtain ⟨hvr, hvpass⟩ := List.mem_filter.1 hv
    exact ⟨u, hul, hupass, v, hvr, hvpass, hi, hj⟩
  · intro hij
    obtain ⟨u, hu, hupass, v, hv, hvpass, hi, hj⟩ := hij
    refine ⟨u, List.mem_filter.2 ⟨hu, hupass⟩, v, ?_, hi, hj⟩
    rw [h.reported_eq hu, if_pos hupass]
    exact List.mem_filter.2 ⟨hv, hvpass⟩

end Narrows

end Access

/-! ### A filter that tells spellings apart -/

/-- Two nodes, and a link between them that spells the second one as a real. -/
def Network.blurred (directed : Bool) : Network where
  directed := directed
  nodes := #[.integer 1, .integer 9007199254740992]
  links := #[(.integer 1, .real (.finite false 4503599627370496 1))]

/-- A state with this network only. -/
def World.blurred (directed : Bool) : World := { networks := #[.ofNetwork (.blurred directed)] }

def Access.blurred (directed : Bool) : Access World := (Base.network 0).access (.blurred directed)

/-- Judges nodes by a residue that the second node has as an integer and not as a real: as a real, the
modulus is that node. -/
def Filter.blurring : Filter := .rule 0 (.residue (.integer 9007199254740993)) []

theorem Filter.blurring_verdicts (w : World) :
    Access.verdict w Filter.blurring.test (.integer 1) = true ∧
      Access.verdict w Filter.blurring.test (.integer 9007199254740992) = true ∧
      Access.verdict w Filter.blurring.test (.real (.finite false 4503599627370496 1)) = false := by
  have hverdict : ∀ {x : Identifier} {b : Bool},
      (Rule.verdict x (.residue (.integer 9007199254740993))).toOption.map Identifier.isTruthy = some b →
      Access.verdict w Filter.blurring.test x = b := by
    intro x b h
    cases hx : Rule.verdict x (.residue (.integer 9007199254740993)) with
    | error e =>
      rw [hx] at h
      cases h
    | ok v =>
      rw [hx] at h
      rw [Access.verdict, Filter.blurring, (Filter.rule_answers 0 hx w).answer?, Option.getD_some]
      exact Option.some.inj h
  exact ⟨hverdict (by decide +kernel), hverdict (by decide +kernel), hverdict (by decide +kernel)⟩

namespace Access

theorem blurred_shows (directed : Bool) : (blurred directed).Orderly (.blurred directed) ∧
    (blurred directed).listed (.blurred directed) = [.integer 1, .integer 9007199254740992] ∧
    (blurred directed).reported (.blurred directed) (.integer 1)
      = [.real (.finite false 4503599627370496 1)] ∧
    (blurred directed).reported (.blurred directed) (.integer 9007199254740992)
      = if directed then [] else [.integer 1] := by
  have hplaced : (World.blurred directed).networks[0]? = some (.ofNetwork (.blurred directed)) := rfl
  have hnumbering : (IndexedNetwork.ofNetwork (.blurred directed)).numbering
    = .ofNames [.integer 1, .integer 9007199254740992] := rfl
  have hkeys : ∀ x ∈ [Identifier.integer 1, .integer 9007199254740992], x.keyless? = none := by decide
  have hfirst : (Identifier.integer 1) ∈ [Identifier.integer 1, .integer 9007199254740992] :=
    List.mem_cons_self
  have hsecond : (Identifier.integer 9007199254740992) ∈
      [Identifier.integer 1, .integer 9007199254740992] := List.mem_cons_of_mem _ List.mem_cons_self
  obtain ⟨hlisted, hreported⟩ := Base.network_names hplaced hnumbering hkeys
  refine ⟨Base.network_orderly hplaced hnumbering hkeys ?_, hlisted,
    (hreported _ hfirst).trans ?_, (hreported _ hsecond).trans ?_⟩
  · cases directed <;> decide +kernel
  · cases directed <;> rfl
  · cases directed <;> rfl

theorem blurred_testedBy (directed : Bool) :
    (blurred directed).TestedBy (.blurred directed) Filter.blurring.test := by
  obtain ⟨-, hlisted, hfirst, hsecond⟩ := blurred_shows directed
  have hnames : ∀ x, (blurred directed).Names (.blurred directed) x → x = .integer 1 ∨
      x = .integer 9007199254740992 ∨ x = .real (.finite false 4503599627370496 1) := by
    intro x hx
    rw [Names, hlisted] at hx
    rcases hx with hx | ⟨u, hu, hx⟩
    · exact (List.mem_pair.1 hx).imp_right .inl
    · rcases List.mem_pair.1 hu with rfl | rfl
      · rw [hfirst] at hx
        exact .inr (.inr (List.mem_singleton.1 hx))
      · rw [hsecond] at hx
        cases directed with
        | true => cases hx
        | false => exact .inl (List.mem_singleton.1 hx)
  intro x hx
  rcases hnames x hx with rfl | rfl | rfl <;> exact ⟨_, rfl⟩

/-- **A link between two nodes that pass is lost** where it spells one of them in a way that does not. -/
theorem blurred_narrows (directed : Bool) :
    ((blurred directed).restrictAll [Filter.blurring.test]).listed (.blurred directed)
        = [.integer 1, .integer 9007199254740992] ∧
      ((blurred directed).restrictAll [Filter.blurring.test]).reported (.blurred directed) (.integer 1)
        = [] := by
  obtain ⟨hg, hlisted, hfirst, -⟩ := blurred_shows directed
  obtain ⟨hone, htwo, hreal⟩ := Filter.blurring_verdicts (.blurred directed)
  have hpasses : ∀ x, passesAll (.blurred directed) [Filter.blurring.test] x
      = verdict (.blurred directed) Filter.blurring.test x := fun x => Bool.and_true _
  have hnarrows := restrictAll_narrows hg (List.forall_mem_singleton.2 (blurred_testedBy directed))
  have hmem : (Identifier.integer 1) ∈ (blurred directed).listed (.blurred directed) := by
    rw [hlisted]
    exact List.mem_cons_self
  constructor
  · rw [hnarrows.listed_eq, hlisted]
    simp only [List.filter_cons, List.filter_nil, hpasses, hone, htwo, if_true]
  · rw [hnarrows.reported_eq hmem, hfirst]
    simp only [List.filter_cons, List.filter_nil, hpasses, hone, hreal, if_true, Bool.false_eq_true,
      if_false]

end Access

end MaximalCliques
