import MaximalCliques.Proofs.Enumeration.Hoods
import MaximalCliques.View.Filter

/-!
# Orderly graphs under filters

* **`Access.sequence`**, **`Access.toward`** — the neighbour sequence of a node, in one direction or the way
  the edges lead, and its items.
* **`Access.AnswersFor.restrict`** — what a node reports through a test, in any direction.
* **`Access.TestedBy`**, **`Access.JudgesAlike`** — a test that is answered about what a graph names, and
  one whose verdicts do not depend on how a node is spelled.
* **`Access.Orderly.restrict`** — an orderly graph seen through a test that is answered is orderly: all
  that it names passes the test.
* **`Access.Orderly.isClique_restrict`** — if the test judges alike, its cliques are those of the graph
  whose nodes pass; otherwise they are some of them.
* **`Access.restrictAll`**, **`Access.Orderly.restrictAll`** — the same through several tests.
* **`Thing.orderly`** — a graph under a stack of filters that are answered is orderly.
-/

namespace MaximalCliques

/-! ### Views -/

namespace Access

variable {σ : Type} {g : Access σ} {w : σ}

/-- A test that is answered about the named nodes of a graph. -/
def TestedBy (g : Access σ) (w : σ) (test : Identifier → Query σ Bool) : Prop :=
  ∀ x, g.Names w x → ∃ b, (test x).Answers w b

variable {test : Identifier → Query σ Bool}

def verdict (w : σ) (test : Identifier → Query σ Bool) (x : Identifier) : Bool :=
  ((test x).answer? w).getD false

theorem verdict_answers {x : Identifier} (h : ∃ b, (test x).Answers w b) :
    (test x).Answers w (verdict w test x) := by
  obtain ⟨b, hb⟩ := h
  rw [verdict, hb.answer?]
  exact hb

theorem TestedBy.answers_verdict (h : g.TestedBy w test) {x : Identifier} (hx : g.Names w x) :
    (test x).Answers w (verdict w test x) := verdict_answers (h x hx)

/-- A test that judges the spellings of a named node alike. -/
def JudgesAlike (g : Access σ) (w : σ) (test : Identifier → Query σ Bool) : Prop :=
  ∀ x y, g.Names w x → g.Names w y → (x == y) = true → verdict w test x = verdict w test y

/-- An item is admitted through a test if it passes the graph's own test and the verdict is yes. -/
theorem admits_restrict {x : Identifier} (hadmits : ∃ b, (g.admits x).Answers w b)
    (htest : g.passes w x = true → (test x).Answers w (verdict w test x)) :
    ((g.restrict test).admits x).Answers w (g.passes w x && verdict w test x) := by
  refine (admits_passes hadmits).bind ?_
  cases hpass : g.passes w x with
  | false => exact Query.answers_pure w false
  | true => exact htest hpass

/-- Items through a test are the graph's own ones of which the verdict is yes. -/
theorem admitted_restrict {items : List Identifier}
    (hadmits : ∀ x ∈ items, ∃ b, (g.admits x).Answers w b)
    (htest : ∀ x ∈ items, g.passes w x = true → (test x).Answers w (verdict w test x)) :
    ((g.restrict test).admitted items).Answers w
      ((items.filter (g.passes w)).filter (verdict w test)) := by
  have hanswers : ∀ x ∈ items, ((g.restrict test).admits x).Answers w
      (g.passes w x && verdict w test x) := fun x hx =>
    admits_restrict (hadmits x hx) (htest x hx)
  have hadmitted := admitted_answers fun x hx => ⟨_, hanswers x hx⟩
  have hpasses : items.filter ((g.restrict test).passes w)
      = (items.filter (g.passes w)).filter (verdict w test) := by
    rw [List.filter_filter]
    refine List.filter_congr fun x hx => ?_
    rw [passes, (hanswers x hx).answer?, Option.getD_some, Bool.and_comm]
  rw [hpasses] at hadmitted
  exact hadmitted

/-! ### Neighbours in any direction -/

/-- The neighbour sequence of a node, in one direction or the way the graph's edges lead. -/
def sequence (g : Access σ) (d : Option Direction) (x : Identifier) : Query σ (List Identifier) := do
  g.admitted (← g.follow d x)

def toward (g : Access σ) (w : σ) (d : Option Direction) (x : Identifier) : List Identifier :=
  ((g.sequence d x).answer? w).getD []

/-- The graph answers for the neighbours of a node, and its tests for each of them. -/
def AnswersFor (g : Access σ) (w : σ) (d : Option Direction) (x : Identifier) : Prop :=
  ∃ items, (g.follow d x).Answers w items ∧ ∀ y ∈ items, ∃ b, (g.admits y).Answers w b

namespace AnswersFor

variable {d : Option Direction} {x : Identifier}

theorem toward_eq (h : g.AnswersFor w d x) : ∃ items, (g.follow d x).Answers w items ∧
    (∀ y ∈ items, ∃ b, (g.admits y).Answers w b) ∧ g.toward w d x = items.filter (g.passes w) := by
  obtain ⟨items, hitems, htested⟩ := h
  refine ⟨items, hitems, htested, ?_⟩
  rw [toward, sequence, (hitems.bind (admitted_answers htested)).answer?, Option.getD_some]

theorem sequence_answers (h : g.AnswersFor w d x) : (g.sequence d x).Answers w (g.toward w d x) := by
  obtain ⟨items, hitems, htested, htoward⟩ := h.toward_eq
  rw [htoward]
  exact hitems.bind (admitted_answers htested)

/-- **What a node reports through a test**: if it passes, those of its neighbours that do. -/
theorem restrict (h : g.AnswersFor w d x) (hsource : (test x).Answers w (verdict w test x))
    (htest : ∀ y ∈ g.toward w d x, (test y).Answers w (verdict w test y)) :
    (g.restrict test).AnswersFor w d x ∧ (g.restrict test).toward w d x
      = if verdict w test x then (g.toward w d x).filter (verdict w test) else [] := by
  obtain ⟨items, hitems, htested, htoward⟩ := h.toward_eq
  have hfollow : ((g.restrict test).follow d x).Answers w
      (if verdict w test x then items else []) :=
    hsource.bind (hitems.bind (Query.answers_pure w _))
  have hadmits : ∀ y ∈ (if verdict w test x then items else []),
      ∃ b, (g.admits y).Answers w b := by
    intro y hy
    split at hy
    · exact htested y hy
    · exact absurd hy List.not_mem_nil
  have hpasses : ∀ y ∈ (if verdict w test x then items else []), g.passes w y = true →
      (test y).Answers w (verdict w test y) := by
    intro y hy hpass
    split at hy
    · refine htest y ?_
      rw [htoward]
      exact List.mem_filter.2 ⟨hy, hpass⟩
    · exact absurd hy List.not_mem_nil
  refine ⟨⟨_, hfollow, fun y hy => ⟨_, admits_restrict (hadmits y hy) (hpasses y hy)⟩⟩, ?_⟩
  rw [toward, sequence, (hfollow.bind (admitted_restrict hadmits hpasses)).answer?, htoward]
  split <;> rfl

end AnswersFor

namespace Orderly

theorem answersFor (hg : g.Orderly w) {x : Identifier} (hx : g.Names w x)
    (hlisted : x.isIn (g.listed w) = true) : g.AnswersFor w none x := hg.followed x hx hlisted

variable (hg : g.Orderly w) (ht : g.TestedBy w test)
include hg ht

theorem listed_restrict : (g.restrict test).listed w = (g.listed w).filter (verdict w test) := by
  have h := admitted_restrict hg.tested fun x hx hpass =>
    ht.answers_verdict (.inl (by
      rw [hg.listed_eq]
      exact List.mem_filter.2 ⟨hx, hpass⟩))
  rw [listed, show (g.restrict test).nodes = g.nodes from rfl, h.answer?, ← hg.listed_eq]
  rfl

theorem followed_restrict {x : Identifier} (hx : g.Names w x)
    (hlisted : x.isIn (g.listed w) = true) :
    ∃ items, ((g.restrict test).neighbours x).Answers w items ∧
      (∀ y ∈ items, ∃ b, ((g.restrict test).admits y).Answers w b) ∧
      (g.restrict test).reported w x
        = if verdict w test x then (g.reported w x).filter (verdict w test) else [] := by
  obtain ⟨⟨items, hitems, htested⟩, hreported⟩ := (hg.answersFor hx hlisted).restrict
    (ht.answers_verdict hx) fun y hy =>
      ht.answers_verdict (names_of_mem_reported hg hx hlisted hy)
  exact ⟨items, hitems, htested, hreported⟩

/-- What a graph names through a test, it names without, and it passes, in the spelling in which it is
named. -/
theorem names_of_restrict {x : Identifier} (h : (g.restrict test).Names w x) :
    g.Names w x ∧ verdict w test x = true := by
  rw [Names, hg.listed_restrict ht] at h
  rcases h with hx | ⟨u, hu, hx⟩
  · exact ⟨.inl (List.mem_filter.1 hx).1, (List.mem_filter.1 hx).2⟩
  · have hul := (List.mem_filter.1 hu).1
    obtain ⟨-, -, -, hreported⟩ := hg.followed_restrict ht (.inl hul) (Identifier.isIn_of_mem hul)
    rw [hreported] at hx
    split at hx
    · exact ⟨.inr ⟨u, hul, (List.mem_filter.1 hx).1⟩, (List.mem_filter.1 hx).2⟩
    · exact absurd hx List.not_mem_nil

theorem isIn_listed_of_restrict {x : Identifier}
    (h : x.isIn ((g.restrict test).listed w) = true) : x.isIn (g.listed w) = true := by
  rw [hg.listed_restrict ht] at h
  obtain ⟨y, hy, hyx⟩ := Identifier.isIn_iff.1 h
  exact Identifier.isIn_iff.2 ⟨y, (List.mem_filter.1 hy).1, hyx⟩

/-- **An orderly graph seen through a test is orderly.** -/
theorem restrict : (g.restrict test).Orderly w where
  tested := by
    intro x hx
    refine ⟨_, admits_restrict (hg.tested x hx) fun hpass => ht.answers_verdict (.inl ?_)⟩
    rw [hg.listed_eq]
    exact List.mem_filter.2 ⟨hx, hpass⟩
  followed := by
    intro x hx hlisted
    obtain ⟨items, hitems, htested, -⟩ := hg.followed_restrict ht (hg.names_of_restrict ht hx).1
      (hg.isIn_listed_of_restrict ht hlisted)
    exact ⟨items, hitems, htested⟩
  indexed x hx := hg.indexed x (hg.names_of_restrict ht hx).1
  injective x y hx hy :=
    hg.injective x y (hg.names_of_restrict ht hx).1 (hg.names_of_restrict ht hy).1
  index_congr x y hx hy :=
    hg.index_congr x y (hg.names_of_restrict ht hx).1 (hg.names_of_restrict ht hy).1
  neighbours_congr := by
    -- both spellings are named through the test, so both have passed it
    intro x y hx hy hxy hlisted
    obtain ⟨hxg, hxpass⟩ := hg.names_of_restrict ht hx
    obtain ⟨hyg, hypass⟩ := hg.names_of_restrict ht hy
    have hin := hg.isIn_listed_of_restrict ht hlisted
    obtain ⟨items, hitems, -⟩ := hg.followed x hxg hin
    have hitems' : (g.neighbours y).Answers w items := by
      rw [Query.Answers, ← hg.neighbours_congr x y hxg hyg hxy hin]
      exact hitems
    have hneighbours : ∀ {z : Identifier}, g.Names w z → verdict w test z = true →
        (g.neighbours z).Answers w items → ((g.restrict test).neighbours z).Answers w items := by
      intro z hz hpass hitems
      have htest := ht.answers_verdict hz
      rw [hpass] at htest
      exact htest.bind (hitems.bind (Query.answers_pure w _))
    exact (hneighbours hxg hxpass hitems).trans (hneighbours hyg hypass hitems').symm

/-! ### Cliques of a view -/

/-- Nodes that are mutually adjacent through a test are so without it, and both pass. -/
theorem mutual_of_restrict {x y : Identifier} (h : (g.restrict test).Mutual w x y) :
    g.Mutual w x y ∧ verdict w test x = true ∧ verdict w test y = true := by
  have hlisted := hg.listed_restrict ht
  have hreports : ∀ {a b : Identifier}, a ∈ g.listed w →
      b.isIn ((g.restrict test).reported w a) = true → b.isIn (g.reported w a) = true := by
    intro a b ha hb
    obtain ⟨-, -, -, hreported⟩ := hg.followed_restrict ht (.inl ha) (Identifier.isIn_of_mem ha)
    rw [hreported, Identifier.isIn_iff] at hb
    obtain ⟨c, hc, hcb⟩ := hb
    split at hc
    · exact Identifier.isIn_iff.2 ⟨c, (List.mem_filter.1 hc).1, hcb⟩
    · exact absurd hc List.not_mem_nil
  obtain ⟨hx, hxpass⟩ := List.mem_filter.1 (hlisted ▸ h.left_listed)
  obtain ⟨hy, hypass⟩ := List.mem_filter.1 (hlisted ▸ h.right_listed)
  exact ⟨⟨hx, hy, h.differ, hreports hx h.out, hreports hy h.back⟩, hxpass, hypass⟩

/-- Nodes are mutually adjacent through a test that judges alike if they are without it and both pass. -/
theorem mutual_restrict (halike : g.JudgesAlike w test) {x y : Identifier} :
    (g.restrict test).Mutual w x y ↔
      g.Mutual w x y ∧ verdict w test x = true ∧ verdict w test y = true := by
  refine ⟨hg.mutual_of_restrict ht, fun h => ?_⟩
  have hlisted := hg.listed_restrict ht
  -- the neighbour may be reported in another spelling, which passes as well
  have hreports : ∀ {a b : Identifier}, a ∈ g.listed w → verdict w test a = true →
      b ∈ g.listed w → verdict w test b = true → b.isIn (g.reported w a) = true →
      b.isIn ((g.restrict test).reported w a) = true := by
    intro a b ha hpass hb hbpass hab
    obtain ⟨-, -, -, hreported⟩ := hg.followed_restrict ht (.inl ha) (Identifier.isIn_of_mem ha)
    obtain ⟨c, hc, hcb⟩ := Identifier.isIn_iff.1 hab
    rw [hreported, if_pos hpass]
    refine Identifier.isIn_iff.2 ⟨c, List.mem_filter.2 ⟨hc, ?_⟩, hcb⟩
    rw [halike c b (.inr ⟨a, ha, hc⟩) (.inl hb) hcb, hbpass]
  obtain ⟨h, hxpass, hypass⟩ := h
  have hx := h.left_listed
  have hy := h.right_listed
  refine ⟨?_, ?_, h.differ, hreports hx hxpass hy hypass h.out, hreports hy hypass hx hxpass h.back⟩
  · rw [hlisted]
    exact List.mem_filter.2 ⟨hx, hxpass⟩
  · rw [hlisted]
    exact List.mem_filter.2 ⟨hy, hypass⟩

/-- A clique through a test is one of the graph, and its nodes pass. -/
theorem isClique_of_restrict {K : List Identifier} (h : (g.restrict test).IsClique w K) :
    g.IsClique w K ∧ ∀ x ∈ K, verdict w test x = true := by
  have hmem : ∀ x ∈ K, x ∈ g.listed w ∧ verdict w test x = true := fun x hx =>
    List.mem_filter.1 (hg.listed_restrict ht ▸ h.listed x hx)
  refine ⟨⟨fun x hx => (hmem x hx).1, fun x hx y hy hxy => ?_⟩, fun x hx => (hmem x hx).2⟩
  exact (hg.mutual_of_restrict ht (h.pairwise x hx y hy hxy)).1

/-- **The cliques through a test** that judges alike are the cliques whose nodes pass it. -/
theorem isClique_restrict (halike : g.JudgesAlike w test) {K : List Identifier} :
    (g.restrict test).IsClique w K ↔ g.IsClique w K ∧ ∀ x ∈ K, verdict w test x = true := by
  refine ⟨hg.isClique_of_restrict ht, fun h => ?_⟩
  obtain ⟨h, hpass⟩ := h
  refine ⟨fun x hx => ?_, fun x hx y hy hxy => ?_⟩
  · rw [hg.listed_restrict ht]
    exact List.mem_filter.2 ⟨h.listed x hx, hpass x hx⟩
  · exact (hg.mutual_restrict ht halike).2 ⟨h.pairwise x hx y hy hxy, hpass x hx, hpass y hy⟩

end Orderly

/-! ### Several tests -/

/-- The graph seen through several tests, the first one being the outermost. -/
def restrictAll (tests : List (Identifier → Query σ Bool)) (g : Access σ) : Access σ :=
  tests.foldr restrict g

@[simp] theorem bound_restrictAll (g : Access σ) (tests : List (Identifier → Query σ Bool)) :
    (g.restrictAll tests).bound = g.bound := by
  induction tests with
  | nil => rfl
  | cons test tests ih => exact ih

@[simp] theorem nodes_restrictAll (g : Access σ) (tests : List (Identifier → Query σ Bool)) :
    (g.restrictAll tests).nodes = g.nodes := by
  induction tests with
  | nil => rfl
  | cons test tests ih => exact ih

@[simp] theorem machine_restrictAll (g : Access σ) (tests : List (Identifier → Query σ Bool)) :
    (g.restrictAll tests).machine = g.machine := by
  induction tests with
  | nil => rfl
  | cons test tests ih => exact ih

@[simp] theorem index_restrictAll (g : Access σ) (tests : List (Identifier → Query σ Bool)) :
    (g.restrictAll tests).index = g.index := by
  induction tests with
  | nil => rfl
  | cons test tests ih => exact ih

def passesAll (w : σ) (tests : List (Identifier → Query σ Bool)) (x : Identifier) : Bool :=
  tests.all fun test => verdict w test x

theorem passesAll_of_alike {tests : List (Identifier → Query σ Bool)} {x y : Identifier}
    (h : ∀ test ∈ tests, verdict w test x = verdict w test y) :
    passesAll w tests x = passesAll w tests y := by
  rw [passesAll, passesAll, Bool.eq_iff_iff, List.all_eq_true, List.all_eq_true]
  exact forall₂_congr fun test htest => by rw [h test htest]

theorem passesAll_congr {tests : List (Identifier → Query σ Bool)}
    (halike : ∀ test ∈ tests, g.JudgesAlike w test) {x y : Identifier}
    (hx : g.Names w x) (hy : g.Names w y) (hxy : (x == y) = true) :
    passesAll w tests x = passesAll w tests y :=
  passesAll_of_alike fun test htest => halike test htest x y hx hy hxy

/-- **An orderly graph seen through several tests** is orderly and names nothing new; it lists the nodes
that pass them all, and its cliques are cliques of such nodes. -/
theorem Orderly.restrictAll (hg : g.Orderly w) {tests : List (Identifier → Query σ Bool)}
    (htests : ∀ test ∈ tests, g.TestedBy w test) : (g.restrictAll tests).Orderly w ∧
      (∀ x, (g.restrictAll tests).Names w x → g.Names w x) ∧
      (g.restrictAll tests).listed w = (g.listed w).filter (passesAll w tests) ∧
      ∀ K, (g.restrictAll tests).IsClique w K →
        g.IsClique w K ∧ ∀ x ∈ K, passesAll w tests x = true := by
  induction tests with
  | nil =>
    refine ⟨hg, fun x hx => hx, (List.filter_eq_self.2 fun x _ => rfl).symm, fun K hK => ?_⟩
    exact ⟨hK, fun x _ => rfl⟩
  | cons test tests ih =>
    obtain ⟨hinner, hnames, hlisted, hcliques⟩ :=
      ih fun test' h' => htests test' (List.mem_cons_of_mem test h')
    have ht : (g.restrictAll tests).TestedBy w test := fun x hx =>
      htests test List.mem_cons_self x (hnames x hx)
    have hall : ∀ x, passesAll w (test :: tests) x = (verdict w test x && passesAll w tests x) :=
      fun _ => List.all_cons
    refine ⟨hinner.restrict ht, fun x hx => hnames x (hinner.names_of_restrict ht hx).1, ?_,
      fun K hK => ?_⟩
    · refine (hinner.listed_restrict ht).trans ?_
      rw [hlisted, List.filter_filter]
      exact List.filter_congr fun x _ => (hall x).symm
    · obtain ⟨hK, hpass⟩ := hinner.isClique_of_restrict ht hK
      obtain ⟨hK, hpasses⟩ := hcliques K hK
      refine ⟨hK, fun x hx => ?_⟩
      rw [hall, hpass x hx, hpasses x hx, Bool.and_self]

/-- **The cliques through several tests** that judge alike are the cliques whose nodes pass them all. -/
theorem Orderly.isClique_restrictAll (hg : g.Orderly w) {tests : List (Identifier → Query σ Bool)}
    (htests : ∀ test ∈ tests, g.TestedBy w test) (halike : ∀ test ∈ tests, g.JudgesAlike w test)
    (K : List Identifier) : (g.restrictAll tests).IsClique w K ↔
      g.IsClique w K ∧ ∀ x ∈ K, passesAll w tests x = true := by
  induction tests with
  | nil => exact ⟨fun hK => ⟨hK, fun x _ => rfl⟩, fun hK => hK.1⟩
  | cons test tests ih =>
    have htests' : ∀ test' ∈ tests, g.TestedBy w test' := fun test' h' =>
      htests test' (List.mem_cons_of_mem test h')
    have hcliques := ih htests' fun test' h' => halike test' (List.mem_cons_of_mem test h')
    obtain ⟨hinner, hnames, -, -⟩ := hg.restrictAll htests'
    have hall : ∀ x, passesAll w (test :: tests) x = (verdict w test x && passesAll w tests x) :=
      fun _ => List.all_cons
    refine (hinner.isClique_restrict (fun x hx => htests test List.mem_cons_self x (hnames x hx))
      fun x y hx hy => halike test List.mem_cons_self x y (hnames x hx) (hnames y hy)).trans ?_
    simp only [hcliques, hall, Bool.and_eq_true, and_assoc, forall_and, and_comm]

end Access

/-! ### Filters -/

theorem Filter.rule_answers (serial : Nat) {rule : Rule} {x v : Identifier} (h : rule.verdict x = .ok v)
    (w : World) : ((Filter.rule serial rule []).test x).Answers w v.isTruthy := by
  show (do return (← (do return Identifier.truth (← Query.ofExcept (rule.verdict x)).isTruthy
    : Query World Identifier)).isTruthy : Query World Bool).Answers w _
  rw [h]
  rfl

theorem Filter.differsFrom_testedBy {g : Access World} {w : World} (serial : Nat)
    (value : Identifier) : g.TestedBy w (Filter.rule serial (.differsFrom value) []).test :=
  fun _ _ => ⟨_, rule_answers serial rfl w⟩

theorem Filter.differsFrom_judgesAlike {g : Access World} {w : World} (serial : Nat)
    (value : Identifier) : g.JudgesAlike w (Filter.rule serial (.differsFrom value) []).test := by
  have hverdict : ∀ z, Access.verdict w (Filter.rule serial (.differsFrom value) []).test z
      = !(z == value) := by
    intro z
    have hanswers : ((Filter.rule serial (.differsFrom value) []).test z).Answers w
        (Identifier.truth !(z == value)).isTruthy := rule_answers serial rfl w
    rw [Access.verdict, hanswers.answer?]
    rfl
  intro x y _ _ hxy
  rw [hverdict, hverdict, BEq.congr_left hxy]

/-- The tests of two filters that leave out a value each. -/
def Filter.withoutTwoAndFour : List (Identifier → Query World Bool) :=
  [(Filter.rule 0 (.differsFrom (.integer 2)) []).test,
    (Filter.rule 1 (.differsFrom (.integer 4)) []).test]

theorem Filter.withoutTwoAndFour_tested (g : Access World) (w : World) :
    ∀ test ∈ withoutTwoAndFour, g.TestedBy w test ∧ g.JudgesAlike w test := by
  intro test htest
  rcases List.mem_pair.1 htest with rfl | rfl
  · exact ⟨differsFrom_testedBy 0 (.integer 2), differsFrom_judgesAlike 0 (.integer 2)⟩
  · exact ⟨differsFrom_testedBy 1 (.integer 4), differsFrom_judgesAlike 1 (.integer 4)⟩

theorem Thing.access_eq (b : Base) (fs : List Filter) (w : World) :
    Thing.access ⟨b, fs⟩ w = (b.access w).restrictAll (fs.map Filter.test) := by
  rw [Access.restrictAll, List.foldr_map]
  rfl

/-- **A graph under filters is orderly** if the graph is and each filter is answered. -/
theorem Thing.orderly {b : Base} {w : World} (hb : (b.access w).Orderly w) {fs : List Filter}
    (hfs : ∀ f ∈ fs, (b.access w).TestedBy w f.test) : (Thing.access ⟨b, fs⟩ w).Orderly w := by
  rw [Thing.access_eq]
  refine (hb.restrictAll fun test htest => ?_).1
  obtain ⟨f, hf, rfl⟩ := List.mem_map.1 htest
  exact hfs f hf

end MaximalCliques
