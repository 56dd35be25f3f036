import MaximalCliques.Proofs.Enumeration.Rejections

/-!
# Graphs that raise no cancellation

A graph may refuse what it is asked, for reasons of its own.  If none of these is a cancellation, then no
cancellation is raised while the graph is tabulated and while a neighbourhood is asked for.

* **`Query.NeverCancels`** — a question that is not refused by a cancellation;
  **`Query.NeverCancels.bind`** puts two of them together.
* **`Access.NeverCancels`** — a graph all of whose questions are such.
* **`Access.NeverCancelsWith`** — a graph and a stop check all of whose questions are such.
* **`Access.NeverCancels.tabulate`**, **`Access.NeverCancels.neighbourhood`** — what an enumeration asks of
  it is.
* **`Base.access_neverCancels`**, **`Access.NeverCancels.restrict`** — every base is such a graph, and so is
  a view of it with tests that are.
-/

namespace MaximalCliques

variable {σ α β τ : Type}

/-- An answer that is no cancellation. -/
def Except.NeverCancels (answer : Except Fault α) : Prop := ∀ e, answer = .error e → e.Rejects

/-- **A question that is not refused by a cancellation**, whatever the state. -/
def Query.NeverCancels (q : Query σ α) : Prop := ∀ w, Except.NeverCancels (q.run w).1

theorem Except.neverCancels_ok (a : α) : Except.NeverCancels (.ok a) := fun _ h => by cases h

theorem Except.neverCancels_error {e : Fault} (h : e.Rejects) :
    Except.NeverCancels (.error e : Except Fault α) := by
  intro e' he
  obtain rfl : e = e' := Except.error.inj he
  exact h

theorem Except.NeverCancels.bind {x : Except Fault α} {k : α → Except Fault β}
    (hx : Except.NeverCancels x) (hk : ∀ a, Except.NeverCancels (k a)) :
    Except.NeverCancels (x >>= k) := by
  cases x with
  | error e => exact neverCancels_error (hx e rfl)
  | ok a => exact hk a

theorem Except.NeverCancels.map {x : Except Fault α} (hx : Except.NeverCancels x) (f : α → β) :
    Except.NeverCancels (x.map f) := by
  cases x with
  | error e => exact neverCancels_error (hx e rfl)
  | ok a => exact neverCancels_ok (f a)

namespace Query

theorem neverCancels_pure (a : α) : (pure a : Query σ α).NeverCancels := fun _ => Except.neverCancels_ok a

theorem neverCancels_throw {e : Fault} (h : e.Rejects) : (throw e : Query σ α).NeverCancels :=
  fun _ => Except.neverCancels_error h

theorem neverCancels_ofExcept {answer : Except Fault α} (h : Except.NeverCancels answer) :
    (ofExcept answer : Query σ α).NeverCancels := fun _ => h

/-- Of two questions, the second one depending on the answer to the first one. -/
theorem NeverCancels.bind {q : Query σ α} {k : α → Query σ β} (hq : q.NeverCancels)
    (hk : ∀ a, (k a).NeverCancels) : (q >>= k).NeverCancels := by
  intro w
  have hw := hq w
  rw [run_bind]
  generalize q.run w = answered at hw
  obtain ⟨answer, v⟩ := answered
  cases answer with
  | error e => exact Except.neverCancels_error (hw e rfl)
  | ok a => exact hk a v

theorem neverCancels_foldlM {f : τ → α → Query σ τ} (hf : ∀ t x, (f t x).NeverCancels) (init : τ)
    (items : List α) : (items.foldlM f init).NeverCancels := by
  induction items generalizing init with
  | nil => exact neverCancels_pure init
  | cons x items ih =>
    rw [List.foldlM_cons]
    exact (hf init x).bind ih

theorem neverCancels_mapM {f : α → Query σ β} (hf : ∀ x, (f x).NeverCancels) (items : List α) :
    (items.mapM f).NeverCancels := by
  induction items with
  | nil => exact neverCancels_pure []
  | cons x items ih =>
    rw [List.mapM_cons]
    exact (hf x).bind fun _ => ih.bind fun _ => neverCancels_pure _

end Query

/-! ### What the tabulation asks of numbers -/

theorem Comparison.holdsOfWhole_neverCancels (c : Comparison) (x y : Identifier) :
    Except.NeverCancels (c.holdsOfWhole x y) := by
  rw [holdsOfWhole]
  split
  · split
    · exact Except.neverCancels_ok _
    · exact Except.neverCancels_error fun _ h => by cases h
  · exact Except.neverCancels_error fun _ h => by cases h

theorem Comparison.holds_neverCancels (c : Comparison) (n : Int) (x : Identifier) :
    Except.NeverCancels (c.holds (.integer n) x) := by
  have hholds : c.holds (.integer n) x = c.holdsOfWhole (.integer n) x := by
    cases x <;> rfl
  rw [hholds]
  exact c.holdsOfWhole_neverCancels _ x

theorem Comparison.holds_integer_neverCancels (c : Comparison) (x : Identifier) (n : Int) :
    Except.NeverCancels (c.holds x (.integer n)) := by
  have hholds : c.holds x (.integer n) = c.holdsOfWhole x (.integer n) := by
    cases x <;> rfl
  rw [hholds]
  exact c.holdsOfWhole_neverCancels x _

theorem IndexSpace.forCopy_neverCancels (room bound : Nat) :
    Except.NeverCancels (forCopy room bound) := by
  unfold forCopy
  split
  · exact Except.neverCancels_error fun _ h => by cases h
  · exact Except.neverCancels_ok _

theorem IndexSpace.forPairs_neverCancels (room : Nat) (bound : Int) :
    Except.NeverCancels (forPairs room bound) := by
  unfold forPairs
  repeat' split
  any_goals exact Except.neverCancels_error fun _ h => by cases h
  exact Except.neverCancels_ok _

theorem Settings.capacity_neverCancels (settings : Settings) :
    Except.NeverCancels settings.capacity := by
  refine (Comparison.holds_neverCancels _ _ _).bind fun below => ?_
  split <;> exact Except.neverCancels_ok _

theorem Settings.requireWorkers_neverCancels (settings : Settings) :
    Except.NeverCancels settings.requireWorkers := by
  unfold requireWorkers
  split
  · exact Except.neverCancels_ok _
  · refine (Comparison.holds_integer_neverCancels _ _ _).bind fun refused => ?_
    cases refused with
    | true => exact Except.neverCancels_error fun _ h => by cases h
    | false => exact Except.neverCancels_ok _

/-! ### What an enumeration asks of a graph -/

/-- **A graph that raises no cancellation**, whatever it is asked. -/
structure Access.NeverCancels (g : Access σ) : Prop where
  indexed : ∀ x, Except.NeverCancels (g.index x)
  followed : ∀ d x, (g.follow d x).NeverCancels
  tested : ∀ x, (g.admits x).NeverCancels

namespace Access.NeverCancels

open Query

variable {g : Access σ} (hg : g.NeverCancels)
include hg

theorem foldItems {f : τ → Identifier → Query σ τ} (hf : ∀ t x, (f t x).NeverCancels) (init : τ)
    (items : List Identifier) : (g.foldItems f init items).NeverCancels := by
  refine neverCancels_foldlM (fun t x => (hg.tested x).bind fun admitted => ?_) init items
  cases admitted with
  | true => exact hf t x
  | false => exact neverCancels_pure t

theorem indexWithin (bound : Nat) (x : Identifier) :
    Except.NeverCancels (Oracle.indexWithin g bound x) := by
  refine (hg.indexed x).bind fun i => ?_
  split
  · exact Except.neverCancels_ok _
  · exact Except.neverCancels_error (Fault.Rejects.raised fun _ h => by cases h)

theorem build (limit : Identifier) : (Oracle.build g limit).NeverCancels := by
  refine (neverCancels_ofExcept (Comparison.holds_neverCancels _ _ _)).bind fun above => ?_
  have hbuild : (do
      let bound ← Query.ofExcept (IndexSpace.forPairs g.machine.room g.bound)
      let table ← g.foldItems (Oracle.enterNode g) (.empty bound) g.nodes
      Query.ofExcept (IndexSpace.forCopy g.machine.room bound)
      return { table, index := g.index } : Query σ Oracle).NeverCancels := by
    refine (neverCancels_ofExcept (IndexSpace.forPairs_neverCancels _ _)).bind fun bound => ?_
    refine (hg.foldItems (fun t u => ?_) _ _).bind fun table =>
      (neverCancels_ofExcept (IndexSpace.forCopy_neverCancels _ _)).bind fun _ => neverCancels_pure _
    refine (neverCancels_ofExcept (hg.indexWithin _ u)).bind fun i => (hg.followed none u).bind fun items => ?_
    refine hg.foldItems (fun t v => ?_) t items
    exact (neverCancels_ofExcept (hg.indexWithin _ v)).bind fun j => neverCancels_pure _
  cases above with
  | true =>
    exact (neverCancels_throw (Fault.Rejects.raised fun _ h => by cases h)).bind fun _ => hbuild
  | false => exact hbuild

theorem gather : (Roster.gather g).NeverCancels := by
  refine (hg.foldItems (fun kept x => neverCancels_pure _) _ _).bind fun nodes => ?_
  refine (neverCancels_mapM (fun x => ?_) _).bind fun indexed => neverCancels_pure _
  exact (neverCancels_ofExcept (hg.indexed x)).bind fun i => neverCancels_pure _

/-- **Tabulating the graph.** -/
theorem tabulate (settings : Settings) : (Subject.tabulate g settings).NeverCancels :=
  (neverCancels_ofExcept settings.capacity_neverCancels).bind fun limit =>
    (hg.build limit).bind fun _ => hg.gather.bind fun _ => neverCancels_pure _

theorem isMutuallyAdjacent {o : Oracle} (ho : o.index = g.index) (u v : Identifier) :
    Except.NeverCancels (o.isMutuallyAdjacent u v) := by
  have hcheck (i : Int) : Except.NeverCancels (o.checkIndex i) := by
    unfold Oracle.checkIndex
    split
    · exact Except.neverCancels_ok _
    · exact Except.neverCancels_error (Fault.Rejects.raised fun _ h => by cases h)
  unfold Oracle.isMutuallyAdjacent
  rw [ho]
  exact (hg.indexed u).bind fun i => (hcheck i).bind fun _ => (hg.indexed v).bind fun j =>
    (hcheck j).bind fun _ => Except.neverCancels_ok _

/-- **Asking for a neighbourhood.** -/
theorem neighbourhood {o : Oracle} (ho : o.index = g.index) (roster : Roster) (v : Vertex) :
    (MaximalCliques.neighbourhood g o roster v).NeverCancels := by
  have hkeep (kept : List Identifier) (u : Identifier) : (do
      if u == v.node then return kept
      if ← Query.ofExcept (o.isMutuallyAdjacent u v.node) then return u :: kept else return kept :
        Query σ (List Identifier)).NeverCancels := by
    split
    · exact neverCancels_pure kept
    · refine (neverCancels_ofExcept (hg.isMutuallyAdjacent ho u v.node)).bind fun adjacent => ?_
      cases adjacent <;> exact neverCancels_pure _
  refine ((hg.followed none v.node).bind fun items => ?_).bind fun _ => neverCancels_pure _
  exact (hg.foldItems hkeep [] items).bind fun _ => neverCancels_pure _

end Access.NeverCancels

/-! ### Graphs that raise none -/

/-- **A view** raises no cancellation if its test raises none. -/
theorem Access.NeverCancels.restrict {g : Access σ} (hg : g.NeverCancels) {test : Identifier → Query σ Bool}
    (htest : ∀ x, (test x).NeverCancels) : (g.restrict test).NeverCancels where
  indexed := hg.indexed
  followed d x := (htest x).bind fun _ => (hg.followed d x).bind fun _ => Query.neverCancels_pure _
  tested x := by
    refine (hg.tested x).bind fun admitted => ?_
    cases admitted with
    | true => exact htest x
    | false => exact Query.neverCancels_pure false

theorem Identifier.requireKey_neverCancels (x : Identifier) : Except.NeverCancels x.requireKey := by
  unfold requireKey
  split
  · exact Except.neverCancels_error fun _ h => by cases h
  · exact Except.neverCancels_ok _

theorem Association.get?_neverCancels (t : Association α) (x : Identifier) :
    Except.NeverCancels (t.get? x) := x.requireKey_neverCancels.bind fun _ => Except.neverCancels_ok _

theorem Association.index_neverCancels (t : Association Identifier) (x : Identifier) :
    Except.NeverCancels (t.index x) := by
  have hentry : Except.NeverCancels (t.entry x) := by
    refine (t.get?_neverCancels x).bind fun value? => ?_
    cases value? with
    | some value => exact Except.neverCancels_ok value
    | none => exact Except.neverCancels_error (Fault.Rejects.raised fun _ h => by cases h)
  refine hentry.bind fun i => ?_
  split
  · exact Except.neverCancels_ok _
  · exact (Comparison.holds_neverCancels _ _ i).bind fun _ =>
      Except.neverCancels_error fun _ h => by cases h

theorem IndexedNetwork.requireNode_neverCancels (g : IndexedNetwork) (x : Identifier) :
    Except.NeverCancels (g.requireNode x) := by
  refine x.requireKey_neverCancels.bind fun _ => ?_
  split
  · exact Except.neverCancels_error (Fault.Rejects.raised fun _ h => by cases h)
  · exact Except.neverCancels_ok _

theorem Indexing.index_byNumbering_neverCancels (numbering : Numbering) (x : Identifier) :
    Except.NeverCancels ((byNumbering numbering).index x) := by
  rw [index]
  split
  · exact Except.neverCancels_ok _
  · exact Except.neverCancels_error (Fault.Rejects.raised fun _ h => by cases h)

theorem Fault.refusal_rejects (kind operation : String) : (refusal kind operation).Rejects := by
  unfold refusal
  split <;> exact fun _ h => by cases h

/-- **No base raises a cancellation.** -/
theorem Base.access_neverCancels (w : World) (b : Base) : (b.access w).NeverCancels := by
  cases b with
  | tableGraph serial g =>
    have hlisted (t : Association (List Identifier)) (x : Identifier) :
        Except.NeverCancels ((t.get? x).map (·.getD [])) := (t.get?_neverCancels x).map _
    refine ⟨g.indices.index_neverCancels, fun d x => Query.neverCancels_ofExcept ?_,
      fun _ => Query.neverCancels_pure true⟩
    rcases d with _ | _ | _ <;> exact hlisted _ x
  | network place =>
    refine ⟨fun x => ?_, fun d x => Query.NeverCancels.bind (fun v => Except.neverCancels_ok v)
      fun v => ?_, fun _ => Query.neverCancels_pure true⟩
    · exact Indexing.index_byNumbering_neverCancels _ x
    · cases v.networks[place]? with
      | none => exact Query.neverCancels_throw fun _ h => by cases h
      | some g =>
        refine Query.neverCancels_ofExcept ?_
        cases d with
        | none => exact (g.requireNode_neverCancels x).bind fun _ => Except.neverCancels_ok _
        | some d => exact (g.requireNode_neverCancels x).bind fun _ => Except.neverCancels_ok _
  | _ => exact ⟨fun _ => Except.neverCancels_error (Fault.refusal_rejects _ _),
      fun _ _ => Query.neverCancels_throw (Fault.refusal_rejects _ _),
      fun _ => Query.neverCancels_pure true⟩

/-- **Neither the graph nor the stop check raises a cancellation.** -/
structure Access.NeverCancelsWith (g : Access σ) (stop : Nat → Query σ Bool) : Prop where
  graph : g.NeverCancels
  polled : ∀ k, (stop k).NeverCancels

end MaximalCliques
