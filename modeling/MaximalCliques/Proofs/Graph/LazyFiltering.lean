import MaximalCliques.Proofs.Graph.Restriction

/-!
# Each item is tested once, when it is reached

A neighbour sequence of a view is held open and pulled item by item, while the world, and with it the
tests, may change between the pulls.  The calls of the tests are noted by level, the innermost test having
level 1.

* **`Access.watching`** — the view with its calls noted; nothing else is different about it.
* **`Asked`** — calls that are answered by the tests in the state of the moment.
* **`Tests`** — the calls that test one item, from the innermost test on.
* **`Pulled`** — the items that one pull goes through, and the calls of that.
* **`Delivers`** — pulls that follow one another, with a change before each.
* **`GoneThrough`** — the items that such pulls visit and those that they deliver.
* **`Access.pull_restrict`** — a view's next item is the next one below that passes one more test.
* **`Access.restrictAll_lazy`** — what opening a sequence and pulling it does.
-/

namespace MaximalCliques

variable {σ α : Type}

/-! ### Calls -/

/-- A call of a test: its level, the node that it is about, and what it comes to. -/
structure Call where
  level : Nat
  node : Identifier
  answer : Except Fault Bool

/-- A question whose calls are not noted. -/
def Query.unwatched (q : Query σ α) : Query (σ × List Call) α :=
  ExceptT.mk fun s => ((q.run s.1).1, ((q.run s.1).2, s.2))

/-- A test of some level whose calls are noted. -/
def Query.watched (level : Nat) (test : Identifier → Query σ Bool) (x : Identifier) :
    Query (σ × List Call) Bool :=
  ExceptT.mk fun s =>
    (((test x).run s.1).1, (((test x).run s.1).2, s.2 ++ [⟨level, x, ((test x).run s.1).1⟩]))

namespace Query

variable {u v w : σ} {a : Except Fault α} {before : List Call}

theorem run_unwatched {q : Query σ α} (h : q.run w = (a, v)) :
    q.unwatched.run (w, before) = (a, (v, before)) := by
  show ((q.run w).1, ((q.run w).2, before)) = _
  rw [h]

theorem run_watched {level : Nat} {test : Identifier → Query σ Bool} {x : Identifier}
    {answer : Except Fault Bool} (h : (test x).run w = (answer, v)) :
    (watched level test x).run (w, before) = (answer, (v, before ++ [⟨level, x, answer⟩])) := by
  show (((test x).run w).1, (((test x).run w).2, before ++ [⟨level, x, ((test x).run w).1⟩])) = _
  rw [h]

end Query

namespace Access

def unwatched (g : Access σ) : Access (σ × List Call) where
  bound := g.bound
  index := g.index
  nodes := g.nodes
  follow d x := (g.follow d x).unwatched
  admits x := (g.admits x).unwatched
  machine := g.machine

def watchAll : List (Identifier → Query σ Bool) → List (Identifier → Query (σ × List Call) Bool)
  | [] => []
  | test :: inner => Query.watched (inner.length + 1) test :: watchAll inner

def watching (g : Access σ) (tests : List (Identifier → Query σ Bool)) : Access (σ × List Call) :=
  g.unwatched.restrictAll (watchAll tests)

end Access

/-- **Calls that follow one another**: each is answered by the test of its level, in the state that the
calls before it have left. -/
inductive Asked (tests : List (Identifier → Query σ Bool)) : σ → List Call → σ → Prop
  | nil (w : σ) : Asked tests w [] w
  | cons {u v w : σ} {c : Call} {cs : List Call} {test : Identifier → Query σ Bool}
      (htest : tests.reverse[c.level - 1]? = some test)
      (hanswer : (test c.node).run w = (c.answer, v)) (hrest : Asked tests v cs u) :
      Asked tests w (c :: cs) u

namespace Asked

variable {tests : List (Identifier → Query σ Bool)} {test : Identifier → Query σ Bool} {u v w : σ}
variable {cs ds : List Call}

theorem append (hcs : Asked tests w cs v) (hds : Asked tests v ds u) : Asked tests w (cs ++ ds) u := by
  induction hcs with
  | nil => exact hds
  | cons htest hanswer _ ih => exact .cons htest hanswer (ih hds)

/-- A further test outside does not matter to the calls of those inside. -/
theorem under (test : Identifier → Query σ Bool) (h : Asked tests w cs v) :
    Asked (test :: tests) w cs v := by
  induction h with
  | nil w => exact .nil w
  | cons htest hanswer _ ih =>
    refine .cons ?_ hanswer ih
    obtain ⟨hlt, -⟩ := List.getElem?_eq_some_iff.1 htest
    rw [List.reverse_cons, List.getElem?_append_left hlt, htest]

theorem outermost {x : Identifier} {answer : Except Fault Bool}
    (h : (test x).run w = (answer, v)) :
    Asked (test :: tests) w [⟨tests.length + 1, x, answer⟩] v := by
  refine .cons ?_ h (.nil v)
  show (test :: tests).reverse[tests.length]? = some test
  simp

theorem of_under (h : Asked (test :: tests) w cs v) (hlevels : ∀ c ∈ cs, c.level - 1 < tests.length) :
    Asked tests w cs v := by
  induction h with
  | nil w => exact .nil w
  | cons htest hanswer _ ih =>
    refine .cons ?_ hanswer (ih fun c hc => hlevels c (List.mem_cons_of_mem _ hc))
    rw [List.reverse_cons, List.getElem?_append_left] at htest
    · exact htest
    · rw [List.length_reverse]
      exact hlevels _ List.mem_cons_self

end Asked

/-! ### Calls about one node -/

namespace Call

/-- The calls of the first so many tests for an item that all of them accept. -/
def accepting (x : Identifier) : Nat → List Call
  | 0 => []
  | k + 1 => accepting x k ++ [⟨k + 1, x, .ok true⟩]

theorem answer_of_mem_accepting {x : Identifier} {k : Nat} {c : Call} (hc : c ∈ accepting x k) :
    c.answer = .ok true := by
  induction k with
  | zero => exact absurd hc List.not_mem_nil
  | succ k ih =>
    obtain hc | hc := List.mem_append.1 hc
    · exact ih hc
    · rw [List.mem_singleton.1 hc]

/-- The calls for a node whose neighbours are asked for, by the answers from the outermost on. -/
def source (n : Identifier) : List Bool → List Call
  | [] => []
  | b :: bs => ⟨bs.length + 1, n, .ok b⟩ :: source n bs

theorem level_of_mem_source {n : Identifier} {answers : List Bool} {c : Call}
    (hc : c ∈ source n answers) : c.level - 1 < answers.length := by
  induction answers with
  | nil => exact absurd hc List.not_mem_nil
  | cons b bs ih =>
    obtain rfl | hc := List.mem_cons.1 hc
    · exact Nat.lt_succ_self bs.length
    · exact Nat.lt_succ_of_lt (ih hc)

end Call

theorem Asked.source_cons {tests : List (Identifier → Query σ Bool)} {test : Identifier → Query σ Bool}
    {v w : σ} {n : Identifier} {b : Bool} {answers : List Bool}
    (hlength : answers.length = tests.length)
    (h : Asked (test :: tests) w (Call.source n (b :: answers)) v) :
    ∃ u, (test n).run w = (.ok b, u) ∧ Asked tests u (Call.source n answers) v := by
  cases h with
  | @cons _ u _ _ _ asked htest hanswer hrest =>
    have houtermost : (test :: tests).reverse[tests.length]? = some test := by simp
    rw [show answers.length + 1 - 1 = tests.length from hlength, houtermost] at htest
    cases htest
    refine ⟨u, hanswer, hrest.of_under fun c hc => ?_⟩
    rw [← hlength]
    exact Call.level_of_mem_source hc

/-- **The calls that test an item**, and what they come to: the tests are asked from the innermost on,
each once, up to the first one that does not accept the item. -/
inductive Tests (k : Nat) (x : Identifier) : List Call → Except Fault Bool → Prop
  | accepted : Tests k x (Call.accepting x k) (.ok true)
  | stopped {m : Nat} {verdict : Except Fault Bool} (hm : m < k) (hverdict : verdict ≠ .ok true) :
      Tests k x (Call.accepting x m ++ [⟨m + 1, x, verdict⟩]) verdict

namespace Tests

variable {k : Nat} {x : Identifier} {cs : List Call} {verdict : Except Fault Bool}

/-- One more test outside is not asked about an item that is not accepted. -/
theorem skip (h : Tests k x cs verdict) (hverdict : verdict ≠ .ok true) :
    Tests (k + 1) x cs verdict := by
  cases h with
  | accepted => exact absurd rfl hverdict
  | stopped hm _ => exact .stopped (Nat.lt_succ_of_lt hm) hverdict

/-- One more test outside is asked about an item that is accepted. -/
theorem ask (h : Tests k x cs (.ok true)) (answer : Except Fault Bool) :
    Tests (k + 1) x (cs ++ [⟨k + 1, x, answer⟩]) answer := by
  cases h with
  | stopped _ hverdict => exact absurd rfl hverdict
  | accepted =>
    by_cases hanswer : answer = .ok true
    · rw [hanswer]
      exact .accepted
    · exact .stopped (Nat.lt_succ_self k) hanswer

/-- An item is accepted if all tests have been asked about it and have accepted it. -/
theorem accepted_iff (h : Tests k x cs verdict) : verdict = .ok true ↔ cs = Call.accepting x k := by
  cases h with
  | accepted => exact ⟨fun _ => rfl, fun _ => rfl⟩
  | @stopped m _ _ hverdict =>
    refine ⟨fun h => absurd h hverdict, fun h => ?_⟩
    have hlast : (⟨m + 1, x, verdict⟩ : Call) ∈ Call.accepting x k :=
      h ▸ List.mem_append_right _ List.mem_cons_self
    exact Call.answer_of_mem_accepting hlast

end Tests

/-! ### Pulls -/

/-- **One pull**: the items that it goes through are tested in order, up to the first one that is accepted
or whose test fails, and it is done with them; what it answers, and the items that are left. -/
inductive Pulled (k : Nat) :
    List Identifier → List Call → Except Fault (Option Identifier) → List Identifier → Prop
  | exhausted : Pulled k [] [] (.ok none) []
  | yielded {x : Identifier} {rest : List Identifier} {cs : List Call}
      (htests : Tests k x cs (.ok true)) : Pulled k (x :: rest) cs (.ok (some x)) rest
  | failed {x : Identifier} {rest : List Identifier} {cs : List Call} {e : Fault}
      (htests : Tests k x cs (.error e)) : Pulled k (x :: rest) cs (.error e) rest
  | skipped {x : Identifier} {items rest : List Identifier} {cs ds : List Call}
      {answer : Except Fault (Option Identifier)} (htests : Tests k x cs (.ok false))
      (hpulled : Pulled k items ds answer rest) : Pulled k (x :: items) (cs ++ ds) answer rest

/-- A pull as it is seen from outside: its calls and its answer. -/
structure Delivery where
  calls : List Call
  answer : Except Fault (Option Identifier)

def Delivery.item? (p : Delivery) : Option Identifier :=
  match p.answer with
  | .ok item? => item?
  | .error _ => none

/-- **Pulls that follow one another**, each after a change of the state. -/
inductive Delivers (tests : List (Identifier → Query σ Bool)) :
    List (σ → σ) → σ → List Identifier → List Delivery → List Identifier → σ → Prop
  | nil (w : σ) (items : List Identifier) : Delivers tests [] w items [] items w
  | cons {u v w : σ} {change : σ → σ} {changes : List (σ → σ)} {p : Delivery} {ps : List Delivery}
      {items items' rest : List Identifier} (hasked : Asked tests (change w) p.calls v)
      (hpulled : Pulled tests.length items p.calls p.answer items')
      (hrest : Delivers tests changes v items' ps rest u) :
      Delivers tests (change :: changes) w items (p :: ps) rest u

/-! ### Visits -/

/-- The tests of one item: their calls and what they come to. -/
structure Visit where
  node : Identifier
  calls : List Call
  verdict : Except Fault Bool

def Visit.accepted (visit : Visit) : Bool :=
  match visit.verdict with
  | .ok b => b
  | .error _ => false

theorem Visit.accepted_iff (visit : Visit) : visit.accepted = true ↔ visit.verdict = .ok true := by
  obtain ⟨_, _, e | b⟩ := visit
  · exact ⟨fun h => absurd h Bool.false_ne_true, fun h => nomatch h⟩
  · exact ⟨congrArg Except.ok, Except.ok.inj⟩

/-- **The items that pulls go through** are visited in order, each once, and those that all tests accept
are delivered; a pull that finds none is the last one that does anything. -/
structure GoneThrough (k : Nat) (items rest : List Identifier) (ps : List Delivery) : Prop where
  visits : ∃ visits : List Visit, items = visits.map (·.node) ++ rest ∧
    (∀ v ∈ visits, Tests k v.node v.calls v.verdict) ∧
    (∀ v ∈ visits, v.accepted = true ↔ v.calls = Call.accepting v.node k) ∧
    ps.flatMap (·.calls) = visits.flatMap (·.calls) ∧
    ps.filterMap (·.item?) = (visits.filter (·.accepted)).map (·.node)
  inOrder : (ps.filterMap (·.item?)).Sublist items
  ended : ps.Pairwise fun p q => p.answer = .ok none → q = ⟨[], .ok none⟩

namespace Pulled

variable {k : Nat} {items rest : List Identifier} {cs : List Call}
variable {answer : Except Fault (Option Identifier)}

theorem of_nil (h : Pulled k [] cs answer rest) : cs = [] ∧ answer = .ok none ∧ rest = [] := by
  cases h
  exact ⟨rfl, rfl, rfl⟩

theorem rest_of_none (h : Pulled k items cs (.ok none) rest) : rest = [] := by
  generalize hanswer : (.ok none : Except Fault (Option Identifier)) = answer at h
  induction h with
  | exhausted => rfl
  | yielded => cases hanswer
  | failed => cases hanswer
  | skipped _ _ ih => exact ih hanswer

/-- The items that one pull visits, of which it delivers the accepted one. -/
theorem visits (h : Pulled k items cs answer rest) : ∃ visits : List Visit,
    items = visits.map (·.node) ++ rest ∧ (∀ v ∈ visits, Tests k v.node v.calls v.verdict) ∧
      cs = visits.flatMap (·.calls) ∧
      (Delivery.mk cs answer).item?.toList = (visits.filter (·.accepted)).map (·.node) := by
  induction h with
  | exhausted => exact ⟨[], rfl, fun v hv => absurd hv List.not_mem_nil, rfl, rfl⟩
  | @yielded x _ cs htests =>
    exact ⟨[⟨x, cs, .ok true⟩], rfl, List.forall_mem_singleton.2 htests, by simp, rfl⟩
  | @failed x _ cs e htests =>
    exact ⟨[⟨x, cs, .error e⟩], rfl, List.forall_mem_singleton.2 htests, by simp, rfl⟩
  | @skipped x _ _ cs _ _ htests _ ih =>
    obtain ⟨visits, hitems, hvisits, hcalls, hitem⟩ := ih
    refine ⟨⟨x, cs, .ok false⟩ :: visits, congrArg (x :: ·) hitems,
      List.forall_mem_cons.2 ⟨htests, hvisits⟩, congrArg (cs ++ ·) hcalls, hitem⟩

end Pulled

namespace Delivers

variable {tests : List (Identifier → Query σ Bool)} {changes : List (σ → σ)} {u w : σ}
variable {items rest : List Identifier} {ps : List Delivery}

theorem of_nil (h : Delivers tests changes w [] ps rest u) : ∀ p ∈ ps, p = ⟨[], .ok none⟩ := by
  generalize hitems : ([] : List Identifier) = items at h
  induction h with
  | nil => exact fun p hp => absurd hp List.not_mem_nil
  | @cons _ _ _ _ _ p _ _ _ _ _ hpulled _ ih =>
    subst hitems
    obtain ⟨hcalls, hanswer, rfl⟩ := hpulled.of_nil
    obtain ⟨calls, answer⟩ := p
    cases hcalls
    cases hanswer
    exact List.forall_mem_cons.2 ⟨rfl, ih rfl⟩

/-- The items that several pulls visit, of which they deliver the accepted ones. -/
theorem visits (h : Delivers tests changes w items ps rest u) : ∃ visits : List Visit,
    items = visits.map (·.node) ++ rest ∧
      (∀ v ∈ visits, Tests tests.length v.node v.calls v.verdict) ∧
      ps.flatMap (·.calls) = visits.flatMap (·.calls) ∧
      ps.filterMap (·.item?) = (visits.filter (·.accepted)).map (·.node) := by
  induction h with
  | nil w items => exact ⟨[], rfl, fun v hv => absurd hv List.not_mem_nil, rfl, rfl⟩
  | @cons _ _ _ _ _ p ps _ _ _ _ hpulled _ ih =>
    obtain ⟨first, rfl, hfirst, hcalls, hitem⟩ := hpulled.visits
    obtain ⟨later, rfl, hlater, hcalls', hitems'⟩ := ih
    refine ⟨first ++ later, ?_, List.forall_mem_append.2 ⟨hfirst, hlater⟩, ?_, ?_⟩
    · rw [List.map_append, List.append_assoc]
    · rw [List.flatMap_cons, List.flatMap_append, hcalls, hcalls']
    · rw [List.filter_append, List.map_append, ← hitem, ← hitems', List.filterMap_cons]
      cases p.item? <;> rfl

theorem ended (h : Delivers tests changes w items ps rest u) :
    ps.Pairwise fun p q => p.answer = .ok none → q = ⟨[], .ok none⟩ := by
  induction h with
  | nil => exact .nil
  | @cons _ _ _ _ _ p _ _ _ _ _ hpulled hrest ih =>
    refine ih.cons fun q hq hnone => ?_
    rw [hnone] at hpulled
    rw [hpulled.rest_of_none] at hrest
    exact hrest.of_nil q hq

/-- **The items are visited in order, each once**, over all pulls. -/
theorem goneThrough (h : Delivers tests changes w items ps rest u) :
    GoneThrough tests.length items rest ps := by
  obtain ⟨visits, hitems, htests, hcalls, hdelivered⟩ := h.visits
  refine ⟨⟨visits, hitems, htests, fun v hv => ?_, hcalls, hdelivered⟩, ?_, h.ended⟩
  · rw [v.accepted_iff]
    exact (htests v hv).accepted_iff
  · rw [hitems, hdelivered]
    exact ((List.filter_sublist).map _).trans (List.sublist_append_left _ rest)

end Delivers

/-- Pulls an open sequence several times, each time after a change of the state. -/
def pullAll (admits : Identifier → Query σ Bool) : List (σ → σ) → List Identifier →
    StateM σ (List (Except Fault (Option Identifier)) × List Identifier)
  | [], items => pure ([], items)
  | change :: changes, items => do
    modify change
    let (answer, items) ← pull admits items
    let (answers, items) ← pullAll admits changes items
    return (answer :: answers, items)

theorem pull_cons (admits : Identifier → Query σ Bool) (x : Identifier) (rest : List Identifier)
    (w : σ) : (pull admits (x :: rest)).run w = match (admits x).run w with
      | (.error e, v) => ((.error e, rest), v)
      | (.ok true, v) => ((.ok (some x), rest), v)
      | (.ok false, v) => (pull admits rest).run v := by
  cases h : (admits x).run w with
  | mk verdict v =>
    refine (run_bind_of_eq h).trans ?_
    cases verdict with
    | error e => rfl
    | ok b => cases b <;> rfl

namespace Access

variable {g : Access σ}

/-! ### One more test -/

theorem run_admits_of_accepted {g : Access σ} {x : Identifier} {v w : σ}
    (test : Identifier → Query σ Bool) (h : (g.admits x).run w = (.ok true, v)) :
    ((g.restrict test).admits x).run w = (test x).run v := Query.run_bind_of_ok h

/-- What the graph's own tests do not accept is not tested any further. -/
theorem run_admits_of_stopped {g : Access σ} {x : Identifier} {verdict : Except Fault Bool} {v w : σ}
    (test : Identifier → Query σ Bool) (h : (g.admits x).run w = (verdict, v))
    (hverdict : verdict ≠ .ok true) : ((g.restrict test).admits x).run w = (verdict, v) := by
  show (g.admits x >>= _).run w = _
  rw [Query.run_bind, h]
  cases verdict with
  | error e => rfl
  | ok b =>
    cases b with
    | true => exact absurd rfl hverdict
    | false => rfl

/-- **A view's next item** is the next one of the graph that passes one more test.  So a view over a view
goes through the items that the inner one delivers. -/
theorem pull_restrict (g : Access σ) (test : Identifier → Query σ Bool) (items : List Identifier)
    (w : σ) : (pull (g.restrict test).admits items).run w = match (pull g.admits items).run w with
      | ((.ok (some x), rest), v) => match (test x).run v with
        | (.error e, u) => ((.error e, rest), u)
        | (.ok true, u) => ((.ok (some x), rest), u)
        | (.ok false, u) => (pull (g.restrict test).admits rest).run u
      | stopped => stopped := by
  induction items generalizing w with
  | nil => rfl
  | cons x items ih =>
    obtain ⟨verdict, v, hinner⟩ : ∃ verdict v, (g.admits x).run w = (verdict, v) := ⟨_, _, rfl⟩
    rw [pull_cons, pull_cons, hinner]
    by_cases hverdict : verdict = .ok true
    · rw [hverdict] at hinner ⊢
      rw [run_admits_of_accepted test hinner]
    · rw [run_admits_of_stopped test hinner hverdict]
      cases verdict with
      | error e => rfl
      | ok b =>
        cases b with
        | true => exact absurd rfl hverdict
        | false => exact ih v

/-- **Opening a sequence** asks every test about the node, the outermost first, and then the graph. -/
theorem follow_restrictAll {d : Option Direction} {n : Identifier}
    {tests : List (Identifier → Query σ Bool)} {answers : List Bool} {sequence : List Identifier}
    {u v w : σ} (hlength : answers.length = tests.length)
    (hsource : Asked tests w (Call.source n answers) v)
    (hfollow : (g.follow d n).run v = (.ok sequence, u)) :
    ((g.restrictAll tests).follow d n).run w = (.ok (if answers.all id then sequence else []), u) ∧
      ∀ before, ((g.watching tests).follow d n).run (w, before)
        = (.ok (if answers.all id then sequence else []), (u, before ++ Call.source n answers)) := by
  induction tests generalizing answers w with
  | nil =>
    obtain rfl := List.eq_nil_of_length_eq_zero hlength
    cases hsource
    refine ⟨hfollow, fun before => (Query.run_unwatched hfollow).trans ?_⟩
    rw [Call.source, List.append_nil]
    rfl
  | cons test tests ih =>
    obtain ⟨b, answers, rfl⟩ := List.exists_cons_of_length_eq_add_one hlength
    have hlength := Nat.succ.inj hlength
    obtain ⟨w', htest, hinner⟩ := hsource.source_cons hlength
    obtain ⟨hopened, hwatched⟩ := ih hlength hinner
    have hitems : (if (b :: answers).all id then sequence else [])
        = if b then (if answers.all id then sequence else []) else [] := by
      cases b <;> rfl
    rw [hitems]
    refine ⟨?_, fun before => ?_⟩
    · exact (Query.run_bind_of_ok htest).trans (Query.run_bind_of_ok hopened)
    · have hcall : (Query.watched (tests.length + 1) test n).run (w, before)
          = (.ok b, (w', before ++ [⟨answers.length + 1, n, .ok b⟩])) := by
        rw [hlength]
        exact Query.run_watched htest
      refine (Query.run_bind_of_ok hcall).trans ((Query.run_bind_of_ok (hwatched _)).trans ?_)
      rw [Call.source, List.append_cons before _ (Call.source n answers)]
      rfl

section Base

variable (hbase : ∀ x, g.admits x = pure true)
include hbase

/-- **Testing an item** asks the tests from the innermost on, up to the first one that does not accept. -/
theorem admits_restrictAll (x : Identifier) (tests : List (Identifier → Query σ Bool)) (w : σ) :
    ∃ cs verdict v, ((g.restrictAll tests).admits x).run w = (verdict, v) ∧
      Tests tests.length x cs verdict ∧ Asked tests w cs v ∧
      ∀ before, ((g.watching tests).admits x).run (w, before) = (verdict, (v, before ++ cs)) := by
  induction tests with
  | nil =>
    have hown : (g.admits x).run w = (.ok true, w) := by
      rw [hbase]
      rfl
    refine ⟨[], .ok true, w, hown, .accepted, .nil w, fun before => ?_⟩
    rw [List.append_nil]
    exact Query.run_unwatched hown
  | cons test tests ih =>
    obtain ⟨cs, verdict, v, hinner, htests, hasked, hwatched⟩ := ih
    by_cases hverdict : verdict = .ok true
    · subst hverdict
      obtain ⟨answer, u, htest⟩ : ∃ answer u, (test x).run v = (answer, u) := ⟨_, _, rfl⟩
      refine ⟨cs ++ [⟨tests.length + 1, x, answer⟩], answer, u, ?_, htests.ask answer,
        (hasked.under test).append (.outermost htest), fun before => ?_⟩
      · exact (run_admits_of_accepted test hinner).trans htest
      · refine (run_admits_of_accepted _ (hwatched before)).trans ?_
        rw [Query.run_watched htest, List.append_assoc]
    · exact ⟨cs, verdict, v, run_admits_of_stopped test hinner hverdict, htests.skip hverdict,
        hasked.under test, fun before => run_admits_of_stopped _ (hwatched before) hverdict⟩

/-- **A pull** goes through items up to the first one that all tests accept. -/
theorem pull_restrictAll (tests : List (Identifier → Query σ Bool)) (items : List Identifier) (w : σ) :
    ∃ cs answer rest v, (pull (g.restrictAll tests).admits items).run w = ((answer, rest), v) ∧
      Pulled tests.length items cs answer rest ∧ Asked tests w cs v ∧
      ∀ before, (pull (g.watching tests).admits items).run (w, before)
        = ((answer, rest), (v, before ++ cs)) := by
  induction items generalizing w with
  | nil =>
    refine ⟨[], .ok none, [], w, rfl, .exhausted, .nil w, fun before => ?_⟩
    rw [List.append_nil]
    rfl
  | cons x items ih =>
    obtain ⟨cs, verdict, v, hadmits, htests, hasked, hwatched⟩ := admits_restrictAll hbase x tests w
    cases verdict with
    | error e =>
      refine ⟨cs, .error e, items, v, ?_, .failed htests, hasked, fun before => ?_⟩
      · rw [pull_cons, hadmits]
      · rw [pull_cons, hwatched]
    | ok b =>
      cases b with
      | true =>
        refine ⟨cs, .ok (some x), items, v, ?_, .yielded htests, hasked, fun before => ?_⟩
        · rw [pull_cons, hadmits]
        · rw [pull_cons, hwatched]
      | false =>
        obtain ⟨ds, answer, rest, u, hpull, hpulled, hasked', hwatched'⟩ := ih v
        refine ⟨cs ++ ds, answer, rest, u, ?_, .skipped htests hpulled, hasked.append hasked',
          fun before => ?_⟩
        · rw [pull_cons, hadmits]
          exact hpull
        · rw [pull_cons, hwatched]
          show (pull (g.watching tests).admits items).run (v, before ++ cs) = _
          rw [hwatched', List.append_assoc]

/-- **Pulls with changes between them.** -/
theorem pullAll_restrictAll (tests : List (Identifier → Query σ Bool)) (changes : List (σ → σ))
    (items : List Identifier) (w : σ) :
    ∃ ps rest v, (pullAll (g.restrictAll tests).admits changes items).run w
        = ((ps.map (·.answer), rest), v) ∧
      Delivers tests changes w items ps rest v ∧
      ∀ before, (pullAll (g.watching tests).admits (changes.map fun change s => (change s.1, s.2))
          items).run (w, before) = ((ps.map (·.answer), rest), (v, before ++ ps.flatMap (·.calls))) := by
  induction changes generalizing items w with
  | nil =>
    refine ⟨[], items, w, rfl, .nil w items, fun before => ?_⟩
    rw [List.flatMap_nil, List.append_nil]
    rfl
  | cons change changes ih =>
    obtain ⟨cs, answer, items', v, hpull, hpulled, hasked, hwatched⟩ :=
      pull_restrictAll hbase tests items (change w)
    obtain ⟨ps, rest, u, hpulls, hdelivers, hwatchedAll⟩ := ih items' v
    refine ⟨⟨cs, answer⟩ :: ps, rest, u, ?_, .cons hasked hpulled hdelivers, fun before => ?_⟩
    · have hchange : (modify change : StateM σ PUnit).run w = (⟨⟩, change w) := rfl
      exact (run_bind_of_eq hchange).trans ((run_bind_of_eq hpull).trans (run_bind_of_eq hpulls))
    · have hchange : (modify fun s => (change s.1, s.2) : StateM (σ × List Call) PUnit).run (w, before)
          = (⟨⟩, (change w, before)) := rfl
      rw [List.flatMap_cons, ← List.append_assoc]
      exact (run_bind_of_eq hchange).trans
        ((run_bind_of_eq (hwatched before)).trans (run_bind_of_eq (hwatchedAll _)))

/-- **Each item is tested once, when it is reached.**  If the tests answer about a node, asked from the
outermost on, and the graph then delivers its sequence, the sequence is open, and empty for good if an
answer was no.  Pulls, with any changes between them, go through its items in order. -/
theorem restrictAll_lazy {tests : List (Identifier → Query σ Bool)} {d : Option Direction}
    {n : Identifier} {answers : List Bool} {sequence : List Identifier} {u v w : σ}
    (hlength : answers.length = tests.length) (hsource : Asked tests w (Call.source n answers) v)
    (hfollow : (g.follow d n).run v = (.ok sequence, u)) :
    ∃ items, items = (if answers.all id then sequence else []) ∧
      ((g.restrictAll tests).follow d n).run w = (.ok items, u) ∧
      (∀ before, ((g.watching tests).follow d n).run (w, before)
        = (.ok items, (u, before ++ Call.source n answers))) ∧
      ∀ changes : List (σ → σ), ∃ ps rest t,
        (pullAll (g.restrictAll tests).admits changes items).run u = ((ps.map (·.answer), rest), t) ∧
        (∀ before, (pullAll (g.watching tests).admits
            (changes.map fun change s => (change s.1, s.2)) items).run (u, before)
          = ((ps.map (·.answer), rest), (t, before ++ ps.flatMap (·.calls)))) ∧
        Delivers tests changes u items ps rest t ∧ GoneThrough tests.length items rest ps ∧
        (false ∈ answers → ∀ p ∈ ps, p = ⟨[], .ok none⟩) := by
  obtain ⟨hopened, hwatched⟩ := follow_restrictAll hlength hsource hfollow
  refine ⟨_, rfl, hopened, hwatched, fun changes => ?_⟩
  obtain ⟨ps, rest, t, hpulls, hdelivers, hwatchedPulls⟩ :=
    pullAll_restrictAll hbase tests changes (if answers.all id then sequence else []) u
  refine ⟨ps, rest, t, hpulls, hwatchedPulls, hdelivers, hdelivers.goneThrough, fun hno => ?_⟩
  have hall : ¬ answers.all id = true := fun hall =>
    absurd (List.all_eq_true.1 hall false hno) Bool.false_ne_true
  rw [if_neg hall] at hdelivers
  exact hdelivers.of_nil

end Base

end Access

def TableGraph.fan : TableGraph where
  nodes := [.integer 0, .integer 1, .integer 2, .integer 3]
  bound := .integer 4
  indices := ⟨[0, 1, 2, 3].map fun i => (.integer i, .integer i)⟩
  outgoing := ⟨[(.integer 0, [.integer 1, .integer 2, .integer 3])]⟩
  incoming := {}
  directed := true

/-- The fan through a rule that notes the nodes that it is asked about, and then through a seen set. -/
def Thing.screenedFan : Thing where
  base := .tableGraph 0 .fan
  filters := [.seen 0, .rule 0 (.differsFrom (.integer 2)) [.trace 0]]

/-- A world in which all nodes of the fan but one are in the seen set. -/
def World.screening (noted : List Identifier) : World where
  seenSets := #[⟨[.integer 0, .integer 1, .integer 3]⟩]
  traces := #[noted.toArray]

/-- Empties the seen set. -/
def World.unsee (w : World) : World := { w with seenSets := #[{}] }

/-- The seen set is emptied after the first item, so the last one is not delivered any more. -/
theorem Access.restrictAll_lazy_screened :
    (∀ x, (Thing.screenedFan.base.access {}).admits x = pure true) ∧
      [true, true].length = (Thing.screenedFan.filters.map Filter.test).length ∧
      Asked (Thing.screenedFan.filters.map Filter.test) (.screening [])
        (Call.source (.integer 0) [true, true]) (.screening [.integer 0]) ∧
      ((Thing.screenedFan.base.access {}).follow none (.integer 0)).run (.screening [.integer 0])
        = (.ok [.integer 1, .integer 2, .integer 3], .screening [.integer 0]) ∧
      ((Thing.screenedFan.access {}).follow none (.integer 0)).run (.screening [])
        = (.ok [.integer 1, .integer 2, .integer 3], .screening [.integer 0]) ∧
      ∃ ps rest t,
        (pullAll (Thing.screenedFan.access {}).admits [id, World.unsee, id]
            [.integer 1, .integer 2, .integer 3]).run (.screening [.integer 0])
          = ((ps.map (·.answer), rest), t) ∧
        ps.map (·.answer) = [.ok (some (.integer 1)), .ok none, .ok none] ∧
        GoneThrough 2 [.integer 1, .integer 2, .integer 3] rest ps := by
  have hbase : ∀ x, (Thing.screenedFan.base.access {}).admits x = pure true := fun _ => rfl
  have hsource : Asked (Thing.screenedFan.filters.map Filter.test) (.screening [])
      (Call.source (.integer 0) [true, true]) (.screening [.integer 0]) :=
    .cons rfl rfl (.cons rfl rfl (.nil _))
  have hfollow : ((Thing.screenedFan.base.access {}).follow none (.integer 0)).run
      (.screening [.integer 0])
      = (.ok [.integer 1, .integer 2, .integer 3], .screening [.integer 0]) := rfl
  obtain ⟨items, rfl, hopened, -, hpulls⟩ := restrictAll_lazy hbase rfl hsource hfollow
  obtain ⟨ps, rest, t, hpulled, -, -, hgone, -⟩ :=
    hpulls [id, World.unsee, id]
  refine ⟨hbase, rfl, hsource, hfollow, hopened, ps, rest, t, hpulled, ?_, hgone⟩
  exact (congrArg (fun pulled => pulled.1.1) hpulled).symm

end MaximalCliques
