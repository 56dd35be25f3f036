import MaximalCliques.Proofs.Graph.Bases
import MaximalCliques.Proofs.Graph.Conjunctions
import MaximalCliques.Session.Perform

/-!
# Views used as filters

A view may be put over something else, and it may serve as a filter.  As a filter it answers for its own
test alone; what is under it narrows its node sequence, but not its answers.

* **`Filter.includes`** — the verdict of a filter that is answered.
* **`Thing.mem_listed_access`** — the nodes of a stack of views are those that every filter includes.
* **`Thing.AnswersAsFilter`** — how the answers of a view, its sequences, and those of a graph filtered by
  it are related.
* **`Thing.answersAsFilter`** — every view over tests that are answered is so related.
-/

namespace MaximalCliques

/-! ### Tests that are answered, over any graph -/

namespace Access

variable {σ : Type} {g : Access σ} {w : σ} {tests : List (Identifier → Query σ Bool)}

/-- An item is admitted through several tests if it is without them and passes them all. -/
theorem admits_restrictAll_answers {x : Identifier} (hadmits : ∃ b, (g.admits x).Answers w b)
    (htests : ∀ test ∈ tests, ∃ b, (test x).Answers w b) :
    ((g.restrictAll tests).admits x).Answers w (g.passes w x && passesAll w tests x) := by
  induction tests with
  | nil =>
    show (g.admits x).Answers w (g.passes w x && true)
    rw [Bool.and_true]
    exact admits_passes hadmits
  | cons test tests ih =>
    have hinner := ih fun test' h' => htests test' (List.mem_cons_of_mem test h')
    have htest := verdict_answers (htests test List.mem_cons_self)
    have hall : passesAll w (test :: tests) x = (verdict w test x && passesAll w tests x) :=
      List.all_cons
    rw [hall]
    refine hinner.bind ?_
    cases hpass : g.passes w x && passesAll w tests x with
    | true =>
      rw [Bool.and_eq_true] at hpass
      simp only [hpass, if_true, Bool.true_and, Bool.and_true]
      exact htest
    | false =>
      have hfail : (g.passes w x && (verdict w test x && passesAll w tests x)) = false := by
        rw [Bool.and_left_comm, hpass, Bool.and_false]
      rw [hfail]
      exact Query.answers_pure w false

/-- **The nodes of a graph seen through several tests** that are answered about its nodes. -/
theorem listed_restrictAll (hadmits : ∀ x ∈ g.nodes, ∃ b, (g.admits x).Answers w b)
    (htests : ∀ test ∈ tests, ∀ x ∈ g.nodes, ∃ b, (test x).Answers w b) :
    (g.restrictAll tests).listed w = (g.listed w).filter (passesAll w tests) := by
  have hanswers : ∀ x ∈ g.nodes, ((g.restrictAll tests).admits x).Answers w
      (g.passes w x && passesAll w tests x) :=
    fun x hx => admits_restrictAll_answers (hadmits x hx) fun test htest => htests test htest x hx
  have hview := admitted_answers fun x hx => ⟨_, hanswers x hx⟩
  have hgraph := admitted_answers hadmits
  rw [listed, nodes_restrictAll, hview.answer?, listed, hgraph.answer?]
  simp only [Option.getD_some, List.filter_filter]
  refine List.filter_congr fun x hx => ?_
  rw [passes, (hanswers x hx).answer?, Option.getD_some, Bool.and_comm]

end Access

/-- Lists filtered by two tests are equal iff the tests agree on what the list holds. -/
theorem filter_eq_filter_iff {α : Type} {xs : List α} {p q : α → Bool} :
    xs.filter p = xs.filter q ↔ ∀ x ∈ xs, p x = q x := by
  refine ⟨fun h x hx => ?_, fun h => List.filter_congr h⟩
  have hp : p x = true ↔ x ∈ xs.filter p := by simp [hx]
  have hq : q x = true ↔ x ∈ xs.filter q := by simp [hx]
  rw [Bool.eq_iff_iff, hp, hq, h]

/-! ### Filters of a base -/

def Filter.includes (w : World) (f : Filter) (x : Identifier) : Bool := Access.verdict w f.test x

/-- Are the filters answered about all that a base names? -/
def Base.TestedByAll (b : Base) (w : World) (fs : List Filter) : Prop :=
  ∀ f ∈ fs, (b.access w).TestedBy w f.test

/-- Do the filters judge the spellings of what a base names alike? -/
def Base.JudgedAlikeByAll (b : Base) (w : World) (fs : List Filter) : Prop :=
  ∀ f ∈ fs, (b.access w).JudgesAlike w f.test

namespace Thing

variable {b : Base} {w : World} {f : Filter} {fs : List Filter}

theorem admits_base (b : Base) (w v : World) (x : Identifier) :
    ((b.access w).admits x).Answers v true := by
  cases b <;> exact Query.answers_pure v true

theorem passesAll_test (w : World) (fs : List Filter) :
    Access.passesAll w (fs.map Filter.test) = fun x => fs.all (Filter.includes w · x) := by
  funext x
  rw [Access.passesAll, List.all_map]
  rfl

/-- **The node sequence under a stack of filters** is that of the base, without the nodes that some filter
does not include. -/
theorem listed_access (hfs : b.TestedByAll w fs) :
    (Thing.access ⟨b, fs⟩ w).listed w
      = ((b.access w).listed w).filter fun x => fs.all (Filter.includes w · x) := by
  have hlisted := Access.listed_of_admits (admits_base b w w)
  rw [Thing.access_eq, Access.listed_restrictAll (fun x _ => ⟨true, admits_base b w w x⟩)]
  · rw [passesAll_test]
  · intro test htest x hx
    obtain ⟨f, hf, rfl⟩ := List.mem_map.1 htest
    exact hfs f hf x (.inl (hlisted ▸ hx))

/-- A node of the base is in the node sequence of a stack of filters iff all filters include it. -/
theorem mem_listed_access (hfs : b.TestedByAll w fs) {x : Identifier}
    (hx : x ∈ (b.access w).listed w) :
    x ∈ (Thing.access ⟨b, fs⟩ w).listed w ↔ ∀ f ∈ fs, f.includes w x = true := by
  rw [listed_access hfs, List.mem_filter, List.all_eq_true]
  exact and_iff_right hx

theorem isIn_listed_access (hfs : b.TestedByAll w fs) (halike : b.JudgedAlikeByAll w fs)
    {x : Identifier} (hx : (b.access w).Names w x) (hlisted : x.isIn ((b.access w).listed w) = true) :
    x.isIn ((Thing.access ⟨b, fs⟩ w).listed w) = true ↔ ∀ f ∈ fs, f.includes w x = true := by
  have hsame : ∀ y ∈ (b.access w).listed w, (y == x) = true →
      ((∀ f ∈ fs, f.includes w y = true) ↔ ∀ f ∈ fs, f.includes w x = true) := fun y hy hyx =>
    forall₂_congr fun f hf => by
      rw [Filter.includes, Filter.includes, halike f hf y x (.inl hy) hx hyx]
  rw [Identifier.isIn_iff]
  constructor
  · rintro ⟨y, hy, hyx⟩
    rw [listed_access hfs] at hy
    obtain ⟨hylisted, hyall⟩ := List.mem_filter.1 hy
    exact (hsame y hylisted hyx).1 (List.all_eq_true.1 hyall)
  · intro h
    obtain ⟨y, hy, hyx⟩ := Identifier.isIn_iff.1 hlisted
    exact ⟨y, (mem_listed_access hfs hy).2 ((hsame y hy hyx).2 h), hyx⟩

/-! ### A view as a filter -/

/-- **How a view answers as a filter**, and what it shows.  The view is that of `f` put over `fs`, which is
put over the base; a stack of filters has one view for each filter and those under it. -/
structure AnswersAsFilter (b : Base) (f : Filter) (fs : List Filter) (w : World) : Prop where
  /-- A view is a filter itself. -/
  serves : FilterSpec.ofThing ⟨b, f :: fs⟩ = .ok (.view b f fs, true)
  /-- As a filter it asks its own, outermost filter only. -/
  answer : ∀ x, (Filter.view b f fs).answer x = f.answer x
  /-- It shows the nodes of what it is put over that it includes. -/
  level : ∀ x ∈ (b.access w).listed w,
    x ∈ (Thing.access ⟨b, f :: fs⟩ w).listed w ↔
      x ∈ (Thing.access ⟨b, fs⟩ w).listed w ∧ (Filter.view b f fs).includes w x = true
  /-- It shows the nodes of the base that every view of the stack includes. -/
  levels : ∀ x ∈ (b.access w).listed w,
    x ∈ (Thing.access ⟨b, f :: fs⟩ w).listed w ↔
      ∀ f' inner, f' :: inner <:+ f :: fs → (Filter.view b f' inner).includes w x = true
  /-- If the filters judge alike, it shows a node iff they include it in any spelling that is named. -/
  spelled : b.JudgedAlikeByAll w (f :: fs) → ∀ x, (b.access w).Names w x →
    x.isIn ((b.access w).listed w) = true →
    (x.isIn ((Thing.access ⟨b, f :: fs⟩ w).listed w) = true ↔
      ∀ f' inner, f' :: inner <:+ f :: fs → (Filter.view b f' inner).includes w x = true)
  /-- What it is put over, filtered by it, is the view. -/
  over_inner : Thing.access ⟨b, .view b f fs :: fs⟩ w = Thing.access ⟨b, f :: fs⟩ w
  /-- It includes just the nodes of the base that it shows iff no filter under it takes a node away that
  the outermost filter includes. -/
  includes_iff : (∀ x ∈ (b.access w).listed w, ((Filter.view b f fs).includes w x = true ↔
      x ∈ (Thing.access ⟨b, f :: fs⟩ w).listed w)) ↔
    ∀ x ∈ (b.access w).listed w, f.includes w x = true → ∀ f' ∈ fs, f'.includes w x = true
  /-- Under the same condition the base, filtered by the view, has the node sequence of the view. -/
  over_base : (Thing.access ⟨b, [.view b f fs]⟩ w).listed w = (Thing.access ⟨b, f :: fs⟩ w).listed w ↔
    ∀ x ∈ (b.access w).listed w, f.includes w x = true → ∀ f' ∈ fs, f'.includes w x = true
  /-- The neighbour sequences of a node are the same if this holds of the node and of its neighbours. -/
  sequences : ∀ d x, (b.access w).AnswersFor w d x →
    (∀ y, y = x ∨ y ∈ (b.access w).toward w d x →
      (∀ f' ∈ f :: fs, ∃ v, (f'.test y).Answers w v) ∧
        (f.includes w y = true → ∀ f' ∈ fs, f'.includes w y = true)) →
    ∃ items, ((Thing.access ⟨b, [.view b f fs]⟩ w).sequence d x).Answers w items ∧
      ((Thing.access ⟨b, f :: fs⟩ w).sequence d x).Answers w items

theorem includes_view (x : Identifier) : (Filter.view b f fs).includes w x = f.includes w x := rfl

theorem forall_level_iff {p : Filter → Prop} :
    (∀ f' inner, f' :: inner <:+ fs → p f') ↔ ∀ f' ∈ fs, p f' := by
  constructor
  · intro h f' hf'
    obtain ⟨outer, inner, rfl⟩ := List.append_of_mem hf'
    exact h f' inner (List.suffix_append outer (f' :: inner))
  · intro h f' inner hsuffix
    exact h f' (hsuffix.subset List.mem_cons_self)

/-- **The neighbour sequence under filters that are answered**. -/
theorem sequence_access {d : Option Direction} {x : Identifier} (h : (b.access w).AnswersFor w d x)
    (hx : ∀ f ∈ fs, ∃ v, (f.test x).Answers w v)
    (hfs : ∀ f ∈ fs, ∀ y ∈ (b.access w).toward w d x, ∃ v, (f.test y).Answers w v) :
    ((Thing.access ⟨b, fs⟩ w).sequence d x).Answers w
      (if fs.all (Filter.includes w · x) then
        ((b.access w).toward w d x).filter fun y => fs.all (Filter.includes w · y) else []) := by
  have hsource : ∀ test ∈ fs.map Filter.test, ∃ v, (test x).Answers w v := List.forall_mem_map.2 hx
  have htests : ∀ test ∈ fs.map Filter.test, ∀ y ∈ (b.access w).toward w d x,
      ∃ v, (test y).Answers w v := List.forall_mem_map.2 hfs
  obtain ⟨hanswers, htoward⟩ := h.restrictAll hsource htests
  have hsequence := hanswers.sequence_answers
  rw [htoward, ← Thing.access_eq] at hsequence
  simpa only [passesAll_test] using hsequence

/-- What is left of the outermost verdict when the filters under it are asked as well. -/
theorem all_outermost_iff (x : Identifier) :
    [Filter.view b f fs].all (Filter.includes w · x) = (f :: fs).all (Filter.includes w · x) ↔
      (f.includes w x = true → ∀ f' ∈ fs, f'.includes w x = true) := by
  have hsingle : [Filter.view b f fs].all (Filter.includes w · x) = f.includes w x := Bool.and_true _
  rw [hsingle, List.all_cons, ← List.all_eq_true (p := (Filter.includes w · x))]
  cases f.includes w x <;> cases fs.all (Filter.includes w · x) <;> simp

/-- The neighbours that pass the outermost filter are those that pass all, where it is no weaker. -/
theorem sequence_outermost {d : Option Direction} {x : Identifier} (h : (b.access w).AnswersFor w d x)
    (hreached : ∀ y, y = x ∨ y ∈ (b.access w).toward w d x →
      (∀ f' ∈ f :: fs, ∃ v, (f'.test y).Answers w v) ∧
        (f.includes w y = true → ∀ f' ∈ fs, f'.includes w y = true)) :
    ∃ items, ((Thing.access ⟨b, [.view b f fs]⟩ w).sequence d x).Answers w items ∧
      ((Thing.access ⟨b, f :: fs⟩ w).sequence d x).Answers w items := by
  have hsource : ∀ f' ∈ f :: fs, ∃ v, (f'.test x).Answers w v := (hreached x (.inl rfl)).1
  have htested : ∀ f' ∈ f :: fs, ∀ y ∈ (b.access w).toward w d x, ∃ v, (f'.test y).Answers w v :=
    fun f' hf' y hy => (hreached y (.inr hy)).1 f' hf'
  have houtermost : ∀ f' ∈ [Filter.view b f fs], ∃ v, (f'.test x).Answers w v :=
    List.forall_mem_singleton.2 (hsource f List.mem_cons_self)
  have hfiltered := sequence_access h houtermost
    (List.forall_mem_singleton.2 (htested f List.mem_cons_self))
  have hsame : ∀ y, y = x ∨ y ∈ (b.access w).toward w d x →
      [Filter.view b f fs].all (Filter.includes w · y) = (f :: fs).all (Filter.includes w · y) :=
    fun y hy => (all_outermost_iff y).2 (hreached y hy).2
  rw [hsame x (.inl rfl), List.filter_congr fun y hy => hsame y (.inr hy)] at hfiltered
  exact ⟨_, hfiltered, sequence_access h hsource htested⟩

/-- **Every view over filters that are answered answers as a filter so.** -/
theorem answersAsFilter (hfs : b.TestedByAll w (f :: fs)) : AnswersAsFilter b f fs w := by
  have hinner : b.TestedByAll w fs := fun f' hf' => hfs f' (List.mem_cons_of_mem f hf')
  have houter : b.TestedByAll w [.view b f fs] := by
    intro f' hf'
    rw [List.mem_singleton.1 hf']
    exact hfs f List.mem_cons_self
  refine ⟨rfl, fun x => rfl, ?_, ?_, ?_, rfl, ?_, ?_, fun d x hx => sequence_outermost hx⟩
  · intro x hx
    rw [mem_listed_access hfs hx, mem_listed_access hinner hx, List.forall_mem_cons, and_comm]
    rfl
  · intro x hx
    rw [mem_listed_access hfs hx]
    exact (forall_level_iff (p := fun f' => f'.includes w x = true)).symm
  · intro halike x hx hlisted
    rw [isIn_listed_access hfs halike hx hlisted]
    exact (forall_level_iff (p := fun f' => f'.includes w x = true)).symm
  · refine forall₂_congr fun x hx => ?_
    rw [mem_listed_access hfs hx, includes_view, List.forall_mem_cons]
    exact ⟨fun h hf => (h.1 hf).2, fun h => ⟨fun hf => ⟨hf, h hf⟩, fun h' => h'.1⟩⟩
  · rw [listed_access houter, listed_access hfs, filter_eq_filter_iff]
    exact forall₂_congr fun x _ => all_outermost_iff x

end Thing

/-! ### Two views over two nodes -/

def TableGraph.couple : TableGraph where
  nodes := [.integer 0, .integer 1]
  bound := .integer 2
  indices := ⟨[(.integer 0, .integer 0), (.integer 1, .integer 1)]⟩
  outgoing := ⟨[(.integer 0, [.integer 1]), (.integer 1, [.integer 0])]⟩
  incoming := ⟨[(.integer 0, [.integer 1]), (.integer 1, [.integer 0])]⟩
  directed := false

def Base.couple : Base := .tableGraph 0 TableGraph.couple

def Filter.allBut (n : Int) : Filter := .rule 0 (.differsFrom (.integer n)) []

theorem Thing.answersAsFilter_couple :
    Base.couple.TestedByAll {} [.allBut 0, .allBut 1] ∧
      Base.couple.JudgedAlikeByAll {} [.allBut 0, .allBut 1] ∧
      Thing.AnswersAsFilter Base.couple (.allBut 0) [.allBut 1] {} := by
  have htested : Base.couple.TestedByAll {} [.allBut 0, .allBut 1] := by
    intro f hf
    rcases List.mem_pair.1 hf with rfl | rfl
    · exact Filter.differsFrom_testedBy 0 (.integer 0)
    · exact Filter.differsFrom_testedBy 0 (.integer 1)
  have halike : Base.couple.JudgedAlikeByAll {} [.allBut 0, .allBut 1] := by
    intro f hf
    rcases List.mem_pair.1 hf with rfl | rfl
    · exact Filter.differsFrom_judgesAlike 0 (.integer 0)
    · exact Filter.differsFrom_judgesAlike 0 (.integer 1)
  exact ⟨htested, halike, Thing.answersAsFilter htested⟩

/-- **A view may include a node that it does not show**: without node 1 the couple has no node but 0, and
a view of that without node 0 still includes node 1.  The couple filtered by that view shows node 1.  And a
view through a filter that tells spellings apart may show a node and not include another spelling of it. -/
theorem Thing.includes_hidden_couple :
    (Filter.view .couple (.allBut 0) [.allBut 1]).includes {} (.integer 1) = true ∧
      (Identifier.integer 1) ∈ (Base.couple.access {}).listed {} ∧
      (Thing.access ⟨.couple, [.allBut 0, .allBut 1]⟩ {}).listed {} = [] ∧
      (Thing.access ⟨.couple, [.view .couple (.allBut 0) [.allBut 1]]⟩ {}).listed {} = [.integer 1] ∧
      (Identifier.integer 9007199254740992 == .real (.finite false 4503599627370496 1)) = true ∧
      (Identifier.integer 9007199254740992) ∈
        (Thing.access ⟨.network 0, [.blurring]⟩ (.blurred false)).listed (.blurred false) ∧
      (Filter.view (.network 0) .blurring []).includes (.blurred false)
        (.real (.finite false 4503599627370496 1)) = false := by
  refine ⟨rfl, List.mem_cons_of_mem _ List.mem_cons_self, rfl, rfl, by decide +kernel, ?_,
    (Filter.blurring_verdicts (.blurred false)).2.2⟩
  rw [Thing.access_eq]
  exact (Access.blurred_narrows false).1 ▸ List.mem_cons_of_mem _ List.mem_cons_self

end MaximalCliques
