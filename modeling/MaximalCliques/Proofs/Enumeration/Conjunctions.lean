import MaximalCliques.Proofs.Enumeration.Resumptions
import MaximalCliques.Proofs.Graph.Conjunctions

/-!
# Enumerating views of views

Graphs that show the same have the same oracle, the same roster and the same neighbourhoods, so the search
on the one makes the requests of the search on the other and gets the same answers.

* **`Access.Coincides`** — graphs that show the same nodes, with the same neighbours and indices.
* **`Oracle.shown_eq`**, **`Access.Coincides.hoodAt_eq`** — they have the same oracle and the same
  neighbourhoods.
* **`Subject.trail_eq`** — the searches on them have the same trail.
* **`views_conjoin`** — tests put over a graph one over the other show, in whatever order, what their
  conjunction shows, and the enumerations of both views are the same.
-/

namespace MaximalCliques

variable {σ : Type} {g h : Access σ} {w : σ} {settings : Settings}

/-! ### Graphs that show the same -/

theorem AdjacencyTable.enterRows_congr {α β : Type} (t : AdjacencyTable) (row : β → Nat)
    (column : α → Nat) {items items' : β → List α} {ys : List β} (heq : ∀ y ∈ ys, items y = items' y) :
    t.enterRows row column items ys = t.enterRows row column items' ys :=
  List.foldl_ext _ _ t fun t y hy => by rw [heq y hy]

namespace Access

/-- **Graphs that show the same**: nodes, their neighbours, and their indices. -/
structure Coincides (g h : Access σ) (w : σ) : Prop where
  bound : g.bound = h.bound
  index : g.index = h.index
  machine : g.machine = h.machine
  listed : g.listed w = h.listed w
  reported : ∀ x ∈ g.listed w, g.reported w x = h.reported w x

theorem Narrows.coincides {tests : List (Identifier → Query σ Bool)} {base : Access σ}
    (hg : g.Narrows base w tests) (hh : h.Narrows base w tests) : g.Coincides h w where
  bound := hg.bound.trans hh.bound.symm
  index := hg.index.trans hh.index.symm
  machine := hg.machine.trans hh.machine.symm
  listed := hg.listed_eq.trans hh.listed_eq.symm
  reported x hx := by
    have hxl : x ∈ base.listed w := (List.mem_filter.1 (hg.listed_eq ▸ hx)).1
    rw [hg.reported_eq hxl, hh.reported_eq hxl]

namespace Coincides

variable (heq : g.Coincides h w)
include heq

theorem position : g.position = h.position := by
  funext x
  rw [Access.position, Access.position, heq.index]

theorem roster : g.roster w = h.roster w := by
  rw [Access.roster, Access.roster, places, places, heq.listed, heq.position, heq.machine]

theorem names {x : Identifier} (hx : g.Names w x) : h.Names w x := by
  rcases hx with hx | ⟨u, hu, hx⟩
  · exact .inl (heq.listed ▸ hx)
  · exact .inr ⟨u, heq.listed ▸ hu, heq.reported u hu ▸ hx⟩

theorem reported_eq (hg : g.Orderly w) (hh : h.Orderly w) {x : Identifier} (hx : g.Names w x)
    (hlisted : x.isIn (g.listed w) = true) : g.reported w x = h.reported w x := by
  obtain ⟨y, hy, hyx⟩ := Identifier.isIn_iff.1 hlisted
  have hylisted := Identifier.isIn_of_mem hy
  rw [← hg.reported_congr (.inl hy) hx hyx hylisted, heq.reported y hy]
  exact hh.reported_congr (heq.names (.inl hy)) (heq.names hx) hyx (heq.listed ▸ hylisted)

/-- **Graphs that coincide have the same neighbourhoods.** -/
theorem hoodAt_eq (hg : g.Orderly w) (hh : h.Orderly w) (o : Oracle) {v : Vertex}
    (hv : g.Stands w v) : g.hoodAt w o v = h.hoodAt w o v := by
  rw [hoodAt, hoodAt, members, members, heq.roster, heq.position,
    heq.reported_eq hg hh hv.named hv.isIn_listed]

end Coincides

end Access

/-- **They have the same oracle.** -/
theorem Oracle.shown_eq (heq : g.Coincides h w) : shown g w = shown h w := by
  rw [shown, shown, AdjacencyTable.enterRows_congr _ _ _ heq.reported, heq.bound, heq.index,
    heq.position, heq.listed]

/-- **The searches on graphs that show the same** have the same trail. -/
theorem Subject.trail_eq (heq : g.Coincides h w) (hg : g.Orderly w) (hh : h.Orderly w)
    (ho : (Oracle.shown g w).Tabulates g w) (settings : Settings) (answers : Nat → Bool) :
    (searchBelow settings (root ⟨Oracle.shown g w, g.roster w⟩)).trail
        (g.hoodAt w (Oracle.shown g w)) answers 0
      = (searchBelow settings (root ⟨Oracle.shown h w, h.roster w⟩)).trail
        (h.hoodAt w (Oracle.shown h w)) answers 0 := by
  have hwithin := (searchBelow_mirrors hg ho settings (root_within g w (Oracle.shown g w))).within
  have htrail := hwithin.trail_congr (fun v hv => heq.hoodAt_eq hg hh (Oracle.shown g w) hv) answers 0
  rw [htrail, Oracle.shown_eq heq, heq.roster]

/-! ### Their enumerations -/

section Enumerations

variable (heq : g.Coincides h w) (hg : g.Orderly w) (hh : h.Orderly w)
include heq hg hh

/-- **The enumerations of graphs that show the same** come to the same: both are refused for the same
reason, or both go through the same trail. -/
theorem iterate_coincides (settings : Settings) (answers : Nat → Bool) (counters : Counters) :
    ∃ outcome, (iterate g settings (fun k => pure (answers k)) counters).run w = (outcome, w) ∧
      (iterate h settings (fun k => pure (answers k)) counters).run w = (outcome, w) ∧
      (g.FitsIn settings → (∀ k, answers k = false) → outcome.fault = none) := by
  by_cases hfits : g.FitsIn settings
  · obtain ⟨ho, htabulate⟩ := Subject.tabulate_shown hg hfits
    obtain ⟨ho', htabulate'⟩ := Subject.tabulate_shown hh (hfits.congr heq.bound.symm heq.machine.symm)
    have hiterate := iterate_conducted hg ho htabulate answers counters
    have hiterate' := iterate_conducted hh ho' htabulate' answers counters
    rw [← Subject.trail_eq heq hg hh ho, ← Oracle.shown_eq heq, ← heq.roster] at hiterate'
    refine ⟨_, hiterate, hiterate', fun _ hnever => ?_⟩
    rw [show answers = fun _ => false from funext hnever, Run.trail_never]
    rfl
  · obtain ⟨e, hrefused⟩ := Subject.tabulate_refused hfits
    refine ⟨{ fault := some e, counters }, run_bind_of_eq (hrefused g rfl rfl w hg),
      run_bind_of_eq (hrefused h heq.bound.symm heq.machine.symm w hh),
      fun hfits' => absurd hfits' hfits⟩

/-- **They come to it clique by clique**: each resumption answers alike, at the same counters and after
equally many polls. -/
theorem resumption_coincides (settings : Settings) (answers : Nat → Bool) (counters : Counters)
    (n : Nat) :
    ∃ r r', (OpenEnumeration.resumption g settings (fun k => pure (answers k)) n counters).run w
        = (r, w) ∧
      (OpenEnumeration.resumption h settings (fun k => pure (answers k)) n counters).run w = (r', w) ∧
      r.answer = r'.answer ∧ r.counters = r'.counters ∧ r.state.polls = r'.state.polls := by
  by_cases hfits : g.FitsIn settings
  · obtain ⟨ho, htabulate⟩ := Subject.tabulate_shown hg hfits
    obtain ⟨ho', htabulate'⟩ := Subject.tabulate_shown hh (hfits.congr heq.bound.symm heq.machine.symm)
    obtain ⟨r, hrun, hshows⟩ := OpenEnumeration.resumption_polled (g.polledBy_pure w answers _) hg ho
      htabulate counters rfl (Nat.le_refl _) n
    obtain ⟨r', hrun', hshows'⟩ := OpenEnumeration.resumption_polled (h.polledBy_pure w answers _) hh
      ho' htabulate' counters rfl (Nat.le_refl _) n
    rw [← Subject.trail_eq heq hg hh ho] at hshows'
    refine ⟨r, r', hrun, hrun', ?_, ?_, ?_⟩
    · rw [hshows.answer, hshows'.answer]
    · rw [hshows.counters, hshows'.counters]
    · rw [hshows.polls, hshows'.polls]
  · obtain ⟨e, hrefused⟩ := Subject.tabulate_refused hfits
    have hresume : ∀ k : Access σ, (Subject.tabulate k settings).run w = (.error e, w) →
        (OpenEnumeration.resume k settings (fun k => pure (answers k)) counters .notStarted).run w
          = ({ answer := .error e, state := .ended, counters }, w) :=
      fun k hrefused => run_bind_of_eq hrefused
    obtain ⟨r, hr⟩ : ∃ r, ∀ k : Access σ, (Subject.tabulate k settings).run w = (.error e, w) →
        (OpenEnumeration.resumption k settings (fun k => pure (answers k)) n counters).run w
          = (r, w) := by
      cases n with
      | zero => exact ⟨_, hresume⟩
      | succ n => exact ⟨_, fun k hrefused => (run_bind_of_eq (hresume k hrefused)).trans
          (OpenEnumeration.again_of_ended rfl n)⟩
    exact ⟨r, r, hr g (hrefused g rfl rfl w hg),
      hr h (hrefused h heq.bound.symm heq.machine.symm w hh), rfl, rfl, rfl⟩

end Enumerations

/-! ### Nested views -/

open Access (conjunction)

/-- **Nested views are conjunctions.**  Take an orderly graph and tests that are answered, and put them over
the graph one over the other in any order.  This view and the view through their conjunction both show, in
the order of the graph, the nodes that pass all tests, and their neighbours, in every direction in which the
graph answers.  The enumerations of both views deliver the same cliques in the same order with the same
counters, at every clique and at the end.  The oracle of the nested view has the index space of the graph,
and the pairs of which a node that passes reports one that does; if the tests judge the spellings of a node
alike, these are the pairs of the graph's oracle whose indices are both those of nodes that pass. -/
theorem views_conjoin (hg : g.Orderly w) {tests nested : List (Identifier → Query σ Bool)}
    (htests : ∀ test ∈ tests, g.TestedBy w test) (hnested : nested.Perm tests) (settings : Settings)
    (answers : Nat → Bool) (counters : Counters) :
    (g.restrictAll nested).Narrows g w tests ∧ (g.restrict (conjunction tests)).Narrows g w tests ∧
      (∀ limit, g.Fits limit → ∃ o o', (Oracle.build g limit).Answers w o ∧
        (Oracle.build (g.restrictAll nested) limit).Answers w o' ∧ (o'.bound : Int) = g.bound ∧
        (∀ i j, o.table.holds i j = true ↔ g.Reports w i j) ∧
        (∀ i j, o'.table.holds i j = true ↔ g.ReportsPassing w tests i j) ∧
        ((∀ test ∈ tests, g.JudgesAlike w test) → ∀ i j, o'.table.holds i j = true ↔
          o.table.holds i j = true ∧ g.Accepts w tests i ∧ g.Accepts w tests j)) ∧
      (∃ outcome,
        (iterate (g.restrictAll nested) settings (fun k => pure (answers k)) counters).run w
          = (outcome, w) ∧
        (iterate (g.restrict (conjunction tests)) settings (fun k => pure (answers k)) counters).run w
          = (outcome, w) ∧
        (g.FitsIn settings → (∀ k, answers k = false) → outcome.fault = none)) ∧
      ∀ n, ∃ r r',
        (OpenEnumeration.resumption (g.restrictAll nested) settings (fun k => pure (answers k)) n
          counters).run w = (r, w) ∧
        (OpenEnumeration.resumption (g.restrict (conjunction tests)) settings
          (fun k => pure (answers k)) n counters).run w = (r', w) ∧
        r.answer = r'.answer ∧ r.counters = r'.counters ∧ r.state.polls = r'.state.polls := by
  have htests' : ∀ test ∈ nested, g.TestedBy w test := fun test htest =>
    htests test (hnested.mem_iff.1 htest)
  have hview := (hg.restrictAll htests').1
  have hview' := hg.restrict (Access.TestedBy.conjunction htests)
  have hnarrows := (Access.restrictAll_narrows hg htests').perm hnested
  have hnarrows' := Access.restrict_conjunction_narrows hg htests
  have hcoincides := hnarrows.coincides hnarrows'
  refine ⟨hnarrows, hnarrows', fun limit hfits => ?_, ?_,
    resumption_coincides hcoincides hview hview' settings answers counters⟩
  · obtain ⟨hbuild, ho⟩ := Oracle.build_shown hg hfits
    have hfits' : (g.restrictAll nested).Fits limit := hfits.congr hnarrows.bound hnarrows.machine
    obtain ⟨hbuild', ho'⟩ := Oracle.build_shown hview hfits'
    have hpassing : ∀ i j, (Oracle.shown (g.restrictAll nested) w).table.holds i j = true ↔
        g.ReportsPassing w tests i j := fun i j => (ho'.holds i j).trans (hnarrows.reports_iff i j)
    refine ⟨_, _, hbuild, hbuild', ho'.bound.trans hnarrows.bound, ho.holds, hpassing,
      fun halike i j => ?_⟩
    rw [hpassing, ho.holds, Access.reportsPassing_iff hg halike]
  · obtain ⟨outcome, hiterate, hiterate', hfault⟩ :=
      iterate_coincides hcoincides hview hview' settings answers counters
    exact ⟨outcome, hiterate, hiterate', fun hfits => hfault (hfits.congr hnarrows.bound hnarrows.machine)⟩

theorem Base.tableGraph_answersFor (serial : Nat) (t : TableGraph) (w : World) {x : Identifier}
    (hkey : x.keyless? = none) (d : Option Direction) :
    ((Base.tableGraph serial t).access w).AnswersFor w d x := by
  have hanswers : ∀ table : Association (List Identifier), ∃ items,
      (Query.ofExcept ((table.get? x).map (·.getD [])) : Query World (List Identifier)).Answers w
        items ∧ ∀ y ∈ items, ∃ b, (((Base.tableGraph serial t).access w).admits y).Answers w b := by
    intro table
    have hget : (table.get? x).map (·.getD [])
        = .ok (((table.entries.find? (·.1 == x)).map (·.2)).getD []) := by
      simp [Association.get?, Identifier.requireKey, hkey, bind, Except.bind, pure, Except.pure,
        Except.map]
    rw [hget]
    exact ⟨_, Query.answers_ofExcept w _, fun y _ => ⟨true, rfl⟩⟩
  rcases d with _ | _ | _
  · exact hanswers t.outgoing
  · exact hanswers t.outgoing
  · exact hanswers t.incoming

/-- An asymmetric graph under two filters, which answers in both directions, and its view through their
conjunction; nobody stops the enumerations, which count on from the counters of an earlier one. -/
theorem views_conjoin_lopsided :
    ((Base.tableGraph 0 .lopsided).access {}).Orderly {} ∧
      (∀ test ∈ Filter.withoutTwoAndFour,
        ((Base.tableGraph 0 .lopsided).access {}).TestedBy {} test) ∧
      (∀ test ∈ Filter.withoutTwoAndFour,
        ((Base.tableGraph 0 .lopsided).access {}).JudgesAlike {} test) ∧
      Filter.withoutTwoAndFour.reverse.Perm Filter.withoutTwoAndFour ∧
      ((Base.tableGraph 0 .lopsided).access {}).FitsIn {} ∧
      (∀ d, ((Base.tableGraph 0 .lopsided).access {}).AnswersToward {} Filter.withoutTwoAndFour d) ∧
      (((Base.tableGraph 0 .lopsided).access {}).restrictAll Filter.withoutTwoAndFour.reverse).Narrows
        ((Base.tableGraph 0 .lopsided).access {}) {} Filter.withoutTwoAndFour ∧
      (((Base.tableGraph 0 .lopsided).access {}).restrict
        (conjunction Filter.withoutTwoAndFour)).Narrows
        ((Base.tableGraph 0 .lopsided).access {}) {} Filter.withoutTwoAndFour ∧
      (∃ o o', (Oracle.build ((Base.tableGraph 0 .lopsided).access {}) (.integer 16384)).Answers {} o ∧
        (Oracle.build (((Base.tableGraph 0 .lopsided).access {}).restrictAll
          Filter.withoutTwoAndFour.reverse) (.integer 16384)).Answers {} o' ∧
        ∀ i j, o'.table.holds i j = true ↔ o.table.holds i j = true ∧
          ((Base.tableGraph 0 .lopsided).access {}).Accepts {} Filter.withoutTwoAndFour i ∧
          ((Base.tableGraph 0 .lopsided).access {}).Accepts {} Filter.withoutTwoAndFour j) ∧
      ∃ outcome,
        (iterate (((Base.tableGraph 0 .lopsided).access {}).restrictAll
          Filter.withoutTwoAndFour.reverse) {} (fun _ => pure false) { calls := 5 }).run ({} : World)
            = (outcome, {}) ∧
        (iterate (((Base.tableGraph 0 .lopsided).access {}).restrict
          (conjunction Filter.withoutTwoAndFour)) {} (fun _ => pure false)
            { calls := 5 }).run ({} : World) = (outcome, {}) ∧
        outcome.fault = none := by
  have horderly : ((Base.tableGraph 0 .lopsided).access {}).Orderly {} := Base.lopsided_orderly {}
  have hfits : ((Base.tableGraph 0 .lopsided).access {}).FitsIn {} :=
    Access.fitsIn_of_le rfl (by decide) (by decide) (by decide) (by decide)
  have hfilters := Filter.withoutTwoAndFour_tested ((Base.tableGraph 0 .lopsided).access {}) {}
  have htests : ∀ test ∈ Filter.withoutTwoAndFour,
      ((Base.tableGraph 0 .lopsided).access {}).TestedBy {} test := fun test h => (hfilters test h).1
  have halike : ∀ test ∈ Filter.withoutTwoAndFour,
      ((Base.tableGraph 0 .lopsided).access {}).JudgesAlike {} test := fun test h => (hfilters test h).2
  have hdirections : ∀ d,
      ((Base.tableGraph 0 .lopsided).access {}).AnswersToward {} Filter.withoutTwoAndFour d := by
    intro d x hx
    have hheld : TableGraph.lopsided.Holds x := .inl hx
    have hkey : x.keyless? = none := by
      rcases TableGraph.holds_lopsided hheld with rfl | rfl | rfl | rfl | rfl <;> rfl
    refine ⟨Base.tableGraph_answersFor 0 .lopsided {} hkey d, fun test htest y _ => ?_⟩
    rcases List.mem_pair.1 htest with rfl | rfl <;> exact ⟨_, rfl⟩
  have hperm : Filter.withoutTwoAndFour.reverse.Perm Filter.withoutTwoAndFour := List.reverse_perm _
  obtain ⟨hnested, hsingle, horacle, ⟨outcome, hiterate, hiterate', hfault⟩, -⟩ :=
    views_conjoin horderly htests hperm {} (fun _ => false) { calls := 5 }
  obtain ⟨o, o', ho, ho', -, -, -, hentries⟩ := horacle _ (hfits.fits rfl (by decide))
  exact ⟨horderly, htests, halike, hperm, hfits, hdirections, hnested, hsingle,
    ⟨o, o', ho, ho', hentries halike⟩, outcome, hiterate, hiterate', hfault hfits fun _ => rfl⟩

/-- **A filter that tells spellings apart** lets both nodes of a network pass and refuses the spelling of the
link between them: the pair that the network's oracle has for them is missing from the view's. -/
theorem views_conjoin_blurred : (Access.blurred false).Orderly (.blurred false) ∧
    (Access.blurred false).TestedBy (.blurred false) Filter.blurring.test ∧
    ∃ o o' i j, (Oracle.build (Access.blurred false) (.integer 16384)).Answers (.blurred false) o ∧
      (Oracle.build ((Access.blurred false).restrictAll [Filter.blurring.test])
        (.integer 16384)).Answers (.blurred false) o' ∧
      (Access.blurred false).Accepts (.blurred false) [Filter.blurring.test] i ∧
      (Access.blurred false).Accepts (.blurred false) [Filter.blurring.test] j ∧
      o.table.holds i j = true ∧ o'.table.holds i j = false := by
  obtain ⟨hg, hlisted, hfirst, -⟩ := Access.blurred_shows false
  obtain ⟨hviewed, hlost⟩ := Access.blurred_narrows false
  obtain ⟨hone, htwo, -⟩ := Filter.blurring_verdicts (.blurred false)
  have htested := Access.blurred_testedBy false
  have hview := (hg.restrictAll (List.forall_mem_singleton.2 htested)).1
  have hmem : (Identifier.integer 1) ∈ (Access.blurred false).listed (.blurred false) ∧
      (Identifier.integer 9007199254740992) ∈ (Access.blurred false).listed (.blurred false) := by
    rw [hlisted]
    exact ⟨List.mem_cons_self, List.mem_cons_of_mem _ List.mem_cons_self⟩
  have hlink : (Identifier.real (.finite false 4503599627370496 1)) ∈
      (Access.blurred false).reported (.blurred false) (.integer 1) := by
    rw [hfirst]
    exact List.mem_singleton_self _
  have hfits : (Access.blurred false).FitsIn {} :=
    Access.fitsIn_of_le rfl (by decide) (by decide) (by decide) (by decide)
  have hfits' : ((Access.blurred false).restrictAll [Filter.blurring.test]).FitsIn {} := hfits.congr rfl rfl
  obtain ⟨hbuild, ho⟩ := Oracle.build_shown hg (hfits.fits rfl (by decide))
  obtain ⟨hbuild', ho'⟩ := Oracle.build_shown hview (hfits'.fits rfl (by decide))
  refine ⟨hg, htested, _, _, (Access.blurred false).position (.integer 1),
    (Access.blurred false).position (.integer 9007199254740992), hbuild, hbuild',
    ⟨_, .inl hmem.1, rfl, ?_⟩, ⟨_, .inl hmem.2, rfl, ?_⟩, (ho.holds _ _).2 ⟨_, hmem.1, _, hlink, rfl, ?_⟩, ?_⟩
  · exact (Bool.and_true _).trans hone
  · exact (Bool.and_true _).trans htwo
  · exact (hg.position_eq_iff (.inr ⟨_, hmem.1, hlink⟩) (.inl hmem.2)).2 (by decide +kernel)
  · -- the first node reports nothing in the view, and the second one has another index
    rw [← Bool.not_eq_true, ho'.holds]
    rintro ⟨u, hu, v, hv, hui, -⟩
    rcases List.mem_pair.1 (hviewed ▸ hu) with rfl | rfl
    · rw [hlost] at hv
      cases hv
    · have hsame := (hg.position_eq_iff (.inl hmem.2) (.inl hmem.1)).1 hui
      exact absurd hsame (by decide)

end MaximalCliques
