import MaximalCliques.Proofs.Enumeration.Hoods
import MaximalCliques.Proofs.Graph.OracleBuilding
import MaximalCliques.Proofs.Search.Keeping

/-!
# Graphs that give the same answers again

A graph may refuse a node: it may have no index for it, or a test or a question for neighbours may fail.
If it gives the same answers each time it is asked, and in each spelling of a node, then whatever it
refuses it refuses when it is tabulated.  Once it has been tabulated it answers all that a search asks.

* **`Query.Steady`**, **`Access.Steady`** — the same answer, or the same refusal, in every state of a set.
* **`Access.Surveyed`** — a node that has been gone through, with all that it reports.
* **`Subject.Surveys`** — a tabulated graph whose nodes have been gone through;
  **`Subject.surveys_of_tabulate`** says that tabulating a steady graph goes through them.
* **`Access.Charted`**, **`Subject.Surveys.exists_neighbourhood`** — vertices whose neighbourhoods are
  answered with vertices of the same kind.
* **`Base.tableGraph_steady`**, **`Thing.steady`** — tables give the same answers again, and so do views of
  what does.
-/

namespace MaximalCliques

variable {σ α β τ : Type} {I : σ → Prop}

/-! ### Steady questions -/

namespace Query

/-- In every state of `I` the question gets the same answer, or is refused for the same reason, and the
state stays in `I`. -/
def Repeats (q : Query σ α) (I : σ → Prop) (answer : Except Fault α) : Prop :=
  ∀ w, I w → ∃ v, I v ∧ q.run w = (answer, v)

theorem Repeats.bind_error {q : Query σ α} {e : Fault} (hq : q.Repeats I (.error e))
    (k : α → Query σ β) : (q >>= k).Repeats I (.error e) := by
  intro w hw
  obtain ⟨v, hv, hrun⟩ := hq w hw
  exact ⟨v, hv, by rw [run_bind, hrun]⟩

theorem Repeats.bind_ok {q : Query σ α} {k : α → Query σ β} {a : α} {answer : Except Fault β}
    (hq : q.Repeats I (.ok a)) (hk : (k a).Repeats I answer) : (q >>= k).Repeats I answer := by
  intro w hw
  obtain ⟨v, hv, hrun⟩ := hq w hw
  rw [run_bind_of_ok hrun]
  exact hk v hv

/-- The question gets the same answer again. -/
def Steady (q : Query σ α) (I : σ → Prop) : Prop := ∃ answer, q.Repeats I answer

theorem steady_pure (a : α) : (pure a : Query σ α).Steady I := ⟨.ok a, fun w hw => ⟨w, hw, rfl⟩⟩

theorem steady_ofExcept (answer : Except Fault α) : (ofExcept answer : Query σ α).Steady I :=
  ⟨answer, fun w hw => ⟨w, hw, rfl⟩⟩

theorem Steady.bind {q : Query σ α} {k : α → Query σ β} (hq : q.Steady I)
    (hk : ∀ a, (k a).Steady I) : (q >>= k).Steady I := by
  obtain ⟨answer, hq⟩ := hq
  cases answer with
  | error e => exact ⟨.error e, hq.bind_error k⟩
  | ok a =>
    obtain ⟨answer, hk⟩ := hk a
    exact ⟨answer, hq.bind_ok hk⟩

/-- Asked about a node in any of its spellings, the question gets the same answer again. -/
def SteadyAt (f : Identifier → Query σ α) (I : σ → Prop) (x : Identifier) : Prop :=
  ∃ answer, ∀ y, (x == y) = true → (f y).Repeats I answer

theorem SteadyAt.steady {f : Identifier → Query σ α} {x : Identifier} (h : SteadyAt f I x) :
    (f x).Steady I := by
  obtain ⟨answer, h⟩ := h
  exact ⟨answer, h x BEq.rfl⟩

theorem SteadyAt.bind {f : Identifier → Query σ α} {k : Identifier → α → Query σ β} {x : Identifier}
    (hf : SteadyAt f I x) (hk : ∀ a, SteadyAt (k · a) I x) : SteadyAt (fun y => f y >>= k y) I x := by
  obtain ⟨answer, hf⟩ := hf
  cases answer with
  | error e => exact ⟨.error e, fun y hxy => (hf y hxy).bind_error (k y)⟩
  | ok a =>
    obtain ⟨answer, hk⟩ := hk a
    exact ⟨answer, fun y hxy => (hf y hxy).bind_ok (hk y hxy)⟩

/-- **A steady question that has been answered once** is answered so in every state. -/
theorem Steady.settles {q : Query σ α} (hq : q.Steady I) {v w : σ} {a : α} (hw : I w)
    (hrun : q.run w = (.ok a, v)) : q.Settles I none a ∧ I v := by
  obtain ⟨answer, hq⟩ := hq
  obtain ⟨v', hv', hrun'⟩ := hq w hw
  obtain ⟨rfl, rfl⟩ := Prod.mk.inj (hrun.symm.trans hrun')
  exact ⟨hq, hv'⟩

theorem Settles.unique {q : Query σ α} {a b : α} (ha : q.Settles I none a) (hb : q.Settles I none b)
    {w : σ} (hw : I w) : a = b := by
  obtain ⟨u, -, hu⟩ := ha w hw
  obtain ⟨v, -, hv⟩ := hb w hw
  exact Except.ok.inj (Prod.mk.inj (hu.symm.trans hv)).1

/-- An answer that does not depend on the state, once it has been given. -/
theorem eq_ok_of_ofExcept {answer : Except Fault α} {v w : σ} {a : α}
    (h : (ofExcept answer : Query σ α).run w = (.ok a, v)) : answer = .ok a ∧ w = v := Prod.mk.inj h

theorem eq_of_pure {v w : σ} {a b : α} (h : (pure a : Query σ α).run w = (.ok b, v)) :
    a = b ∧ w = v :=
  have hpair := Prod.mk.inj h
  ⟨Except.ok.inj hpair.1, hpair.2⟩

end Query

/-- **A graph that gives the same answers again.**  In the states `I` each test, and each question for the
neighbours of a node that it lists, gets the same answer or is refused for the same reason, the latter
however the node is spelled. -/
structure Access.Steady (g : Access σ) (I : σ → Prop) : Prop where
  tested : ∀ x, (g.admits x).Steady I
  followed : ∀ x ∈ g.nodes, Query.SteadyAt g.neighbours I x

namespace Access

variable {g : Access σ}

/-! ### Going through items -/

theorem steady_foldItems (htested : ∀ x, (g.admits x).Steady I) {f : τ → Identifier → Query σ τ}
    {items : List Identifier} (hf : ∀ t, ∀ x ∈ items, (f t x).Steady I) (t : τ) :
    (g.foldItems f t items).Steady I := by
  unfold foldItems
  induction items generalizing t with
  | nil => exact Query.steady_pure t
  | cons x items ih =>
    rw [List.foldlM_cons]
    refine .bind (.bind (htested x) fun b => ?_) (ih fun t y hy => hf t y (List.mem_cons_of_mem x hy))
    cases b with
    | true => exact hf t x List.mem_cons_self
    | false => exact Query.steady_pure t

/-- **Items that have been gone through** have been tested and, if admitted, have been taken; `J` holds
along the way. -/
theorem settles_of_foldItems (htested : ∀ x, (g.admits x).Steady I)
    {f : τ → Identifier → Query σ τ} {J : τ → Prop} {items : List Identifier}
    (hf : ∀ t, ∀ x ∈ items, (f t x).Steady I)
    (hJ : ∀ t, J t → ∀ x ∈ items, (g.admits x).Settles I none true →
      ∀ t', (f t x).Settles I none t' → J t') {t t' : τ} {v w : σ} (ht : J t) (hw : I w)
    (hrun : (g.foldItems f t items).run w = (.ok t', v)) :
    J t' ∧ I v ∧ ∀ x ∈ items, ∃ b, (g.admits x).Settles I none b ∧
      (b = true → ∃ s s', J s ∧ (f s x).Settles I none s') := by
  unfold foldItems at hrun
  induction items generalizing t w with
  | nil =>
    obtain ⟨rfl, rfl⟩ := Query.eq_of_pure hrun
    exact ⟨ht, hw, fun x hx => absurd hx List.not_mem_nil⟩
  | cons x items ih =>
    rw [List.foldlM_cons] at hrun
    obtain ⟨s, u, hstep, hrest⟩ := Query.ok_of_run_bind hrun
    obtain ⟨b, u', hadmits, htake⟩ := Query.ok_of_run_bind hstep
    obtain ⟨hb, hu'⟩ := (htested x).settles hw hadmits
    have hf' := fun t y hy => hf t y (List.mem_cons_of_mem x hy)
    have hJ' := fun t ht y hy => hJ t ht y (List.mem_cons_of_mem x hy)
    have hkept : J s ∧ I u ∧ (b = true → ∃ s s', J s ∧ (f s x).Settles I none s') := by
      cases b with
      | true =>
        obtain ⟨htaken, hu⟩ := (hf t x List.mem_cons_self).settles hu' htake
        exact ⟨hJ t ht x List.mem_cons_self hb s htaken, hu, fun _ => ⟨t, s, ht, htaken⟩⟩
      | false =>
        obtain ⟨rfl, rfl⟩ := Query.eq_of_pure htake
        exact ⟨ht, hu', fun h => absurd h Bool.false_ne_true⟩
    obtain ⟨hs, hu, hx⟩ := hkept
    obtain ⟨ht', hv, hitems⟩ := ih hf' hJ' hs hu hrest
    exact ⟨ht', hv, List.forall_mem_cons.2 ⟨⟨b, hb, hx⟩, hitems⟩⟩

/-- **Going through items is answered** if each of them is tested, and taken if it is admitted. -/
theorem exists_foldItems_settles {f : τ → Identifier → Query σ τ} {J : τ → Prop}
    {items : List Identifier} (hitems : ∀ x ∈ items, ∃ b, (g.admits x).Settles I none b ∧
      (b = true → ∀ t, J t → ∃ t', J t' ∧ (f t x).Settles I none t')) {t : τ} (ht : J t) :
    ∃ t', J t' ∧ (g.foldItems f t items).Settles I none t' := by
  unfold foldItems
  induction items generalizing t with
  | nil => exact ⟨t, ht, Query.settles_pure I t⟩
  | cons x items ih =>
    obtain ⟨⟨b, hb, htake⟩, hrest⟩ := List.forall_mem_cons.1 hitems
    have hstep : ∃ s, J s ∧ (g.admits x >>= fun b => if b then f t x else pure t).Settles I none s := by
      cases b with
      | true =>
        obtain ⟨s, hs, htaken⟩ := htake rfl t ht
        exact ⟨s, hs, .bind (r := none) (s := none) hb fun _ => htaken⟩
      | false => exact ⟨t, ht, .bind (r := none) (s := none) hb fun _ => Query.settles_pure I t⟩
    obtain ⟨s, hs, hstep⟩ := hstep
    obtain ⟨t', ht', hfold⟩ := ih hrest hs
    refine ⟨t', ht', ?_⟩
    rw [List.foldlM_cons]
    exact .bind (r := none) (s := none) hstep fun _ => hfold

/-! ### Nodes that have been gone through -/

/-- **A node that has been gone through**: it has an index below `n`, its neighbours are answered for in
each of its spellings, and those that are admitted have indices below `n` as well. -/
structure Surveyed (g : Access σ) (I : σ → Prop) (n : Nat) (u : Identifier) : Prop where
  indexed : g.Indexes n u
  followed : ∃ items, (∀ y, (u == y) = true → (g.neighbours y).Settles I none items) ∧
    ∀ y ∈ items, ∃ b, (g.admits y).Settles I none b ∧ (b = true → g.Indexes n y)

theorem indexes_of_indexWithin {n i : Nat} {x : Identifier}
    (h : Oracle.indexWithin g n x = .ok i) : g.Indexes n x := by
  rw [Oracle.indexWithin_eq_answerUnless] at h
  refine refusal?_eq_none.1 ?_
  cases hrefusal : g.refusal? n x with
  | none => rfl
  | some e =>
    rw [hrefusal] at h
    cases h

theorem steady_enterNeighbour (t : AdjacencyTable) (i : Nat) (y : Identifier) :
    (do
      let j ← Query.ofExcept (Oracle.indexWithin g t.bound y)
      return t.insert i j : Query σ AdjacencyTable).Steady I :=
  (Query.steady_ofExcept _).bind fun _ => Query.steady_pure _

/-- A neighbour that has been entered has an index within the table. -/
theorem bound_of_enterNeighbour {t t' : AdjacencyTable} {i : Nat} {y : Identifier} {w : σ} (hw : I w)
    (h : (do
      let j ← Query.ofExcept (Oracle.indexWithin g t.bound y)
      return t.insert i j : Query σ AdjacencyTable).Settles I none t') :
    g.Indexes t.bound y ∧ t'.bound = t.bound := by
  obtain ⟨v, -, hrun⟩ := h w hw
  obtain ⟨j, v', hindex, hinsert⟩ := Query.ok_of_run_bind hrun
  rw [← (Query.eq_of_pure hinsert).1]
  exact ⟨indexes_of_indexWithin (Query.eq_ok_of_ofExcept hindex).1, rfl⟩

variable (hg : g.Steady I)
include hg

theorem Steady.neighbours {x : Identifier} (hx : x ∈ g.nodes) : (g.neighbours x).Steady I :=
  (hg.followed x hx).steady

/-- **A view of a steady graph** is steady if its test is, however a node is spelled. -/
theorem Steady.restrict {test : Identifier → Query σ Bool} (htest : ∀ x, Query.SteadyAt test I x) :
    (g.restrict test).Steady I where
  tested x := by
    refine (hg.tested x).bind fun admitted => ?_
    cases admitted with
    | true => exact (htest x).steady
    | false => exact Query.steady_pure false
  followed x hx := by
    refine (htest x).bind fun included => (hg.followed x hx).bind fun items => ?_
    exact ⟨.ok (if included then items else []), fun _ _ w hw => ⟨w, hw, rfl⟩⟩

theorem Steady.enterNode (t : AdjacencyTable) {u : Identifier} (hu : u ∈ g.nodes) :
    (Oracle.enterNode g t u).Steady I :=
  (Query.steady_ofExcept _).bind fun i => (hg.neighbours hu).bind fun _ =>
    steady_foldItems hg.tested (fun t' y _ => steady_enterNeighbour t' i y) t

/-- **A node that has been entered** has been gone through. -/
theorem Steady.surveyed_of_enterNode {t t' : AdjacencyTable} {u : Identifier} (hu : u ∈ g.nodes)
    {v w : σ} (hw : I w) (hrun : (Oracle.enterNode g t u).run w = (.ok t', v)) :
    g.Surveyed I t.bound u ∧ t'.bound = t.bound := by
  obtain ⟨i, w', hnumber, hneighbours⟩ := Query.ok_of_run_bind hrun
  obtain ⟨hindex, rfl⟩ := Query.eq_ok_of_ofExcept hnumber
  obtain ⟨items, v', hitems, hfold⟩ := Query.ok_of_run_bind hneighbours
  obtain ⟨-, hv'⟩ := (hg.neighbours hu).settles hw hitems
  obtain ⟨hbound, -, hentered⟩ := settles_of_foldItems (J := fun s : AdjacencyTable => s.bound = t.bound)
    hg.tested (fun s y _ => steady_enterNeighbour s i y)
    (fun s hs y _ _ s' hs' => (bound_of_enterNeighbour hw hs').2.trans hs) rfl hv' hfold
  refine ⟨⟨indexes_of_indexWithin hindex, items, fun y hy => ?_, fun y hy => ?_⟩, hbound⟩
  · obtain ⟨answer, hanswer⟩ := hg.followed u hu
    obtain ⟨z, -, hsame⟩ := hanswer u BEq.rfl w hw
    rw [← (Prod.mk.inj (hitems.symm.trans hsame)).1] at hanswer
    exact hanswer y hy
  · obtain ⟨b, hb, htaken⟩ := hentered y hy
    refine ⟨b, hb, fun h => ?_⟩
    obtain ⟨s, s', hs, htaken⟩ := htaken h
    rw [← hs]
    exact (bound_of_enterNeighbour hw htaken).1

/-- **Once an oracle has been built**, the nodes that the graph admits have been gone through. -/
theorem Steady.surveyed_of_build {limit : Identifier} {o : Oracle} {v w : σ} (hw : I w)
    (hrun : (Oracle.build g limit).run w = (.ok o, v)) : I v ∧ o.index = g.index ∧
      ∀ u ∈ g.nodes, (g.admits u).Settles I none true → g.Surveyed I o.bound u := by
  obtain ⟨exceeded, w', hexceeded, hrest⟩ := Query.ok_of_run_bind hrun
  obtain ⟨-, rfl⟩ := Query.eq_ok_of_ofExcept hexceeded
  cases exceeded with
  | true =>
    obtain ⟨u, w', hthrow, -⟩ := Query.ok_of_run_bind hrest
    cases hthrow
  | false =>
    obtain ⟨n, w', hbound, hbuild⟩ := Query.ok_of_run_bind hrest
    obtain ⟨-, rfl⟩ := Query.eq_ok_of_ofExcept hbound
    obtain ⟨table, v', hfold, hcopy⟩ := Query.ok_of_run_bind hbuild
    obtain ⟨_, w', hcopied, hpure⟩ := Query.ok_of_run_bind hcopy
    obtain ⟨-, rfl⟩ := Query.eq_ok_of_ofExcept hcopied
    obtain ⟨rfl, rfl⟩ := Query.eq_of_pure hpure
    obtain ⟨htable, hv, hentered⟩ := settles_of_foldItems
      (J := fun t : AdjacencyTable => t.bound = n) hg.tested (fun t u hu => hg.enterNode t hu)
      (fun t ht u hu _ t' ht' => by
        obtain ⟨z, -, hentered⟩ := ht' w hw
        exact (hg.surveyed_of_enterNode hu hw hentered).2.trans ht) rfl hw hfold
    refine ⟨hv, rfl, fun u hu hadmitted => ?_⟩
    obtain ⟨b, hb, hentered⟩ := hentered u hu
    obtain ⟨t, t', ht, hsettles⟩ := hentered (hb.unique hadmitted hw)
    obtain ⟨z, -, hentered⟩ := hsettles w hw
    have hsurveyed := (hg.surveyed_of_enterNode hu hw hentered).1
    rwa [ht, ← htable] at hsurveyed

theorem Steady.settles_of_admitted {xs : List Identifier} {v w : σ} (hw : I w)
    (hrun : (g.admitted g.nodes).run w = (.ok xs, v)) :
    I v ∧ ∀ x ∈ xs, x ∈ g.nodes ∧ (g.admits x).Settles I none true := by
  obtain ⟨hxs, hv, -⟩ := settles_of_foldItems
    (J := fun kept : List Identifier => ∀ x ∈ kept, x ∈ g.nodes ∧ (g.admits x).Settles I none true)
    hg.tested (fun kept x _ => Query.steady_pure (kept ++ [x]))
    (fun kept hkept x hx hadmitted kept' hkept' => by
      obtain ⟨z, -, hpure⟩ := hkept' w hw
      rw [← (Query.eq_of_pure hpure).1]
      exact List.forall_mem_append.2 ⟨hkept, List.forall_mem_singleton.2 ⟨hx, hadmitted⟩⟩)
    (fun x hx => absurd hx List.not_mem_nil) hw hrun
  exact ⟨hv, hxs⟩

end Access

/-! ### Tabulated graphs -/

namespace Roster

theorem placeOf_ofNodes (nodes : List (Identifier × Nat)) :
    (ofNodes nodes).placeOf = placesOf (nodes.map Prod.fst) := by
  rw [placesOf, List.zipIdx_map, List.foldl_map]
  rfl

theorem node_mem_of_mem_vertices {nodes : List (Identifier × Nat)} {u : Vertex}
    (h : u ∈ (ofNodes nodes).vertices) : u.node ∈ nodes.map Prod.fst := by
  obtain ⟨⟨⟨x, i⟩, k⟩, hx, rfl⟩ := List.mem_map.1 h
  exact List.mem_map_of_mem (f := Prod.fst) (List.mem_of_getElem? (List.mem_zipIdx_iff_getElem?.1 hx))

theorem map_fst_of_mapM {g : Access σ} {xs : List Identifier} {nodes : List (Identifier × Nat)}
    {v w : σ} (h : (xs.mapM fun x => do
      let i ← Query.ofExcept (g.index x)
      return (x, i.toNat) : Query σ (List (Identifier × Nat))).run w = (.ok nodes, v)) :
    nodes.map Prod.fst = xs ∧ w = v := by
  induction xs generalizing nodes w with
  | nil =>
    obtain ⟨rfl, rfl⟩ := Query.eq_of_pure h
    exact ⟨rfl, rfl⟩
  | cons x xs ih =>
    rw [List.mapM_cons] at h
    obtain ⟨entry, u, hentry, hrest⟩ := Query.ok_of_run_bind h
    obtain ⟨i, u', hindex, hpair⟩ := Query.ok_of_run_bind hentry
    obtain ⟨-, rfl⟩ := Query.eq_ok_of_ofExcept hindex
    obtain ⟨rfl, rfl⟩ := Query.eq_of_pure hpair
    obtain ⟨others, u, hothers, hcons⟩ := Query.ok_of_run_bind hrest
    obtain ⟨rfl, rfl⟩ := Query.eq_of_pure hcons
    obtain ⟨hmap, rfl⟩ := ih hothers
    exact ⟨congrArg (x :: ·) hmap, rfl⟩

/-- **The roster of a steady graph** is that of nodes that it admits. -/
theorem exists_of_gather {g : Access σ} (hg : g.Steady I) {roster : Roster} {v w : σ} (hw : I w)
    (hrun : (gather g).run w = (.ok roster, v)) : I v ∧ ∃ nodes, roster = ofNodes nodes ∧
      ∀ x ∈ nodes.map Prod.fst, x ∈ g.nodes ∧ (g.admits x).Settles I none true := by
  obtain ⟨xs, u, hadmitted, hplaces⟩ := Query.ok_of_run_bind hrun
  obtain ⟨hu, hxs⟩ := hg.settles_of_admitted hw hadmitted
  obtain ⟨nodes, u', hindexed, hpure⟩ := Query.ok_of_run_bind hplaces
  obtain ⟨rfl, rfl⟩ := Query.eq_of_pure hpure
  obtain ⟨hmap, rfl⟩ := map_fst_of_mapM hindexed
  refine ⟨hu, nodes, rfl, fun x hx => hxs x ?_⟩
  rw [hmap] at hx
  exact Identifier.mem_of_mem_distinct (List.mem_mergeSort.1 hx)

end Roster

/-- **A tabulated graph whose nodes have been gone through.** -/
structure Subject.Surveys (s : Subject) (g : Access σ) (I : σ → Prop) : Prop where
  index : s.oracle.index = g.index
  vertices : ∀ u ∈ s.roster.vertices, g.Surveyed I s.oracle.bound u.node
  places : ∀ x k, s.roster.placeOf[x]? = some k → ∃ u, g.Surveyed I s.oracle.bound u ∧ (u == x) = true

/-- **Once a steady graph has been tabulated**, its nodes have been gone through. -/
theorem Subject.surveys_of_tabulate {g : Access σ} (hg : g.Steady I) {settings : Settings}
    {s : Subject} {v w : σ} (hw : I w) (hrun : (tabulate g settings).run w = (.ok s, v)) :
    I v ∧ s.Surveys g I := by
  obtain ⟨limit, w', hcapacity, hlimited⟩ := Query.ok_of_run_bind hrun
  obtain ⟨-, rfl⟩ := Query.eq_ok_of_ofExcept hcapacity
  obtain ⟨o, u, hbuild, hbuilt⟩ := Query.ok_of_run_bind hlimited
  obtain ⟨hu, hindex, hsurveyed⟩ := hg.surveyed_of_build hw hbuild
  obtain ⟨roster, u', hgather, hpure⟩ := Query.ok_of_run_bind hbuilt
  obtain ⟨rfl, rfl⟩ := Query.eq_of_pure hpure
  obtain ⟨hv, nodes, rfl, hnodes⟩ := Roster.exists_of_gather hg hu hgather
  have hknown : ∀ x ∈ nodes.map Prod.fst, g.Surveyed I o.bound x :=
    fun x hx => hsurveyed x (hnodes x hx).1 (hnodes x hx).2
  refine ⟨hv, hindex, fun u hu => hknown _ (Roster.node_mem_of_mem_vertices hu), fun x k hx => ?_⟩
  rw [Roster.placeOf_ofNodes] at hx
  obtain ⟨y, hy, hyx⟩ := exists_of_placesOf hx
  exact ⟨y, hknown y (List.mem_of_getElem? hy), hyx⟩

/-! ### Neighbourhoods -/

/-- **A vertex whose neighbourhood is answered**: its node has an index below `n`, and a spelling that has
been gone through. -/
structure Access.Charted (g : Access σ) (I : σ → Prop) (n : Nat) (v : Vertex) : Prop where
  indexed : g.Indexes n v.node
  surveyed : ∃ u, g.Surveyed I n u ∧ (u == v.node) = true

namespace Subject.Surveys

variable {s : Subject} {g : Access σ} (h : s.Surveys g I)
include h

theorem charted {u : Vertex} (hu : u ∈ s.roster.vertices) : g.Charted I s.oracle.bound u :=
  ⟨(h.vertices u hu).indexed, u.node, h.vertices u hu, BEq.rfl⟩

theorem exists_isMutuallyAdjacent {u v : Identifier} (hu : g.Indexes s.oracle.bound u)
    (hv : g.Indexes s.oracle.bound v) : ∃ b, s.oracle.isMutuallyAdjacent u v = .ok b := by
  obtain ⟨i, hi, hlt⟩ := hu
  obtain ⟨j, hj, hlt'⟩ := hv
  simp [Oracle.isMutuallyAdjacent, Oracle.checkIndex, h.index, hi, hj, hlt, hlt', bind, Except.bind,
    pure, Except.pure]

/-- **The clique neighbours of a charted vertex** are answered, and have indices. -/
theorem exists_cliqueNeighbours {v : Vertex} (hv : g.Charted I s.oracle.bound v) :
    ∃ members, (∀ x ∈ members, g.Indexes s.oracle.bound x) ∧
      (cliqueNeighbours g s.oracle v.node).Settles I none members := by
  obtain ⟨u, hu, huv⟩ := hv.surveyed
  obtain ⟨items, hitems, hindexed⟩ := hu.followed
  have hkeep : ∀ x ∈ items, ∃ b, (g.admits x).Settles I none b ∧ (b = true →
      ∀ kept : List Identifier, (∀ y ∈ kept, g.Indexes s.oracle.bound y) →
        ∃ kept', (∀ y ∈ kept', g.Indexes s.oracle.bound y) ∧ (do
          if x == v.node then return kept
          if ← Query.ofExcept (s.oracle.isMutuallyAdjacent x v.node) then return x :: kept
          else return kept : Query σ (List Identifier)).Settles I none kept') := by
    intro x hx
    obtain ⟨b, hb, hx⟩ := hindexed x hx
    refine ⟨b, hb, fun hadmitted kept hkept => ?_⟩
    obtain ⟨c, hc⟩ := h.exists_isMutuallyAdjacent (hx hadmitted) hv.indexed
    rw [hc]
    split
    · exact ⟨kept, hkept, Query.settles_pure I kept⟩
    · cases c with
      | true => exact ⟨x :: kept, List.forall_mem_cons.2 ⟨hx hadmitted, hkept⟩, Query.settles_pure I _⟩
      | false => exact ⟨kept, hkept, Query.settles_pure I kept⟩
  obtain ⟨mutuals, hmutuals, hfold⟩ := Access.exists_foldItems_settles hkeep (t := [])
    fun y hy => absurd hy List.not_mem_nil
  refine ⟨Identifier.distinct mutuals.reverse, fun x hx => ?_, ?_⟩
  · exact hmutuals x (List.mem_reverse.1 (Identifier.mem_of_mem_distinct hx))
  · exact .bind (r := none) (s := none) (hitems v.node huv) fun _ =>
      .bind (r := none) (s := none) hfold fun _ => Query.settles_pure I _

/-- **The neighbourhood of a charted vertex** is answered, and holds charted vertices. -/
theorem exists_neighbourhood {v : Vertex} (hv : g.Charted I s.oracle.bound v) :
    ∃ hood : Hood Vertex, hood.KeepsTo (g.Charted I s.oracle.bound) ∧
      (neighbourhood g s.oracle s.roster v).Settles I none hood := by
  obtain ⟨members, hmembers, hsettles⟩ := h.exists_cliqueNeighbours hv
  refine ⟨.ofMembers s.roster members, fun u w hw => ?_,
    .bind (r := none) (s := none) hsettles fun _ => Query.settles_pure I _⟩
  obtain ⟨x, hx, hplace, rfl⟩ := Hood.exists_of_find? hw
  exact ⟨hmembers x hx, h.places x _ hplace⟩

end Subject.Surveys

/-! ### Tables and views -/

/-- **Tables give the same answers again**, if their nodes can be keys. -/
theorem Base.tableGraph_steady {t : TableGraph} (serial : Nat) (w : World) (I : World → Prop)
    (hkeys : ∀ x ∈ t.nodes, x.keyless? = none) : ((Base.tableGraph serial t).access w).Steady I where
  tested _ := Query.steady_pure true
  followed x hx := by
    refine ⟨.ok (t.lists x), fun y hxy v hv => ⟨v, hv, ?_⟩⟩
    have hlists : t.lists x = t.lists y := by
      rw [TableGraph.lists, TableGraph.lists, t.outgoing.find?_congr hxy]
    show (Query.ofExcept (t.neighbours y) : Query World (List Identifier)).run v = _
    rw [t.neighbours_of_key (Identifier.keyless?_congr hxy (hkeys x hx)), hlists]
    rfl

/-- **A thing gives the same answers again** if its base does and so do its filters. -/
theorem Thing.steady {b : Base} {fs : List Filter} {w : World} {I : World → Prop}
    (hb : (b.access w).Steady I) (hfs : ∀ f ∈ fs, ∀ x, Query.SteadyAt f.test I x) :
    (Thing.access ⟨b, fs⟩ w).Steady I := by
  induction fs with
  | nil => exact hb
  | cons f fs ih =>
    obtain ⟨hf, hfs⟩ := List.forall_mem_cons.1 hfs
    exact (ih hfs).restrict hf

/-- A rule that notes nothing and does not look at the spelling gives the same answers again. -/
theorem Filter.rule_steadyAt (serial : Nat) {rule : Rule}
    (hcongr : ∀ x y, (x == y) = true → rule.verdict x = rule.verdict y) (I : World → Prop)
    (x : Identifier) : Query.SteadyAt (Filter.rule serial rule []).test I x := by
  refine .bind (.bind (.bind ⟨.ok ⟨⟩, fun _ _ w hw => ⟨w, hw, rfl⟩⟩ fun _ =>
    ⟨rule.verdict x, fun y hxy w hw => ⟨w, hw, ?_⟩⟩) fun v => ?_) fun v => ?_
  · rw [hcongr x y hxy]
    rfl
  · exact ⟨.ok _, fun _ _ w hw => ⟨w, hw, rfl⟩⟩
  · exact ⟨.ok _, fun _ _ w hw => ⟨w, hw, rfl⟩⟩

end MaximalCliques
