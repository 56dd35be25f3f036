import Mathlib.Data.List.Basic
import MaximalCliques.Graph.Oracle
import MaximalCliques.Proofs.Graph.Orderly
import MaximalCliques.Proofs.Identifier.Listing

/-!
# The entries of an oracle

The oracle of an orderly graph holds a pair of positions if a listed node with the first position
reports a node with the second one.  Two nodes are mutually adjacent if it holds their positions both
ways.

* **`Access.Fits`** — the index space is within a limit and there is memory for its pairs.
* **`Access.Reports`** — the pairs that an oracle holds.
* **`Oracle.shown`** — the oracle that holds these pairs; **`Oracle.build_shown`** says that an orderly
  graph that fits has it, **`Oracle.build_refused`** that no other graph has one.
* **`Oracle.linked`** — mutual adjacency of positions; **`Oracle.linked_iff_mutual`** ties it to nodes.
-/

namespace MaximalCliques

variable {σ : Type}

/-! ### The pairs of a graph -/

namespace Access

/-- The index space of a graph is within a limit, and the machine has room for its pairs, and for a copy of
them. -/
structure Fits (g : Access σ) (limit : Identifier) : Prop where
  within : Comparison.above.holds (.integer g.bound) limit = .ok false
  tabulated : ∃ n, IndexSpace.forPairs g.machine.room g.bound = .ok n
  copied : IndexSpace.forCopy g.machine.room g.bound.toNat = .ok ()

/-- Whether a graph fits depends on its index space and the machine only. -/
theorem Fits.congr {τ : Type} {g : Access σ} {h : Access τ} {limit : Identifier} (hg : g.Fits limit)
    (hbound : h.bound = g.bound) (hmachine : h.machine = g.machine) : h.Fits limit := by
  obtain ⟨hwithin, htabulated, hcopied⟩ := hg
  rw [← hbound] at hwithin htabulated hcopied
  rw [← hmachine] at htabulated hcopied
  exact ⟨hwithin, htabulated, hcopied⟩

/-- A listed node with the first position reports a node with the second one. -/
def Reports (g : Access σ) (w : σ) (i j : Nat) : Prop :=
  ∃ u ∈ g.listed w, ∃ v ∈ g.reported w u, g.position u = i ∧ g.position v = j

end Access

namespace IndexSpace

theorem forPairs_eq_ok {room : Nat} {bound : Int} {n : Nat} (h : forPairs room bound = .ok n) :
    (n : Int) = bound := by
  unfold forPairs at h
  split at h
  · cases h
  · split at h
    · cases h
    · split at h
      · cases h
      · split at h
        · cases h
        · injection h with h
          omega

end IndexSpace

/-! ### Entering pairs -/

namespace AdjacencyTable

variable {α β : Type}

def enterRow (t : AdjacencyTable) (i : Nat) (column : α → Nat) (xs : List α) : AdjacencyTable :=
  xs.foldl (fun t x => t.insert i (column x)) t

@[simp] theorem bound_enterRow (t : AdjacencyTable) (i : Nat) (column : α → Nat) (xs : List α) :
    (t.enterRow i column xs).bound = t.bound := by
  unfold enterRow
  induction xs generalizing t with
  | nil => rfl
  | cons x xs ih => rw [List.foldl_cons, ih, bound_insert]

theorem holds_enterRow (t : AdjacencyTable) (i : Nat) (column : α → Nat) (xs : List α) (k l : Nat) :
    (t.enterRow i column xs).holds k l = true ↔
      (∃ x ∈ xs, i = k ∧ column x = l) ∨ t.holds k l = true := by
  unfold enterRow
  induction xs generalizing t with
  | nil => simp
  | cons x xs ih =>
    rw [List.foldl_cons, ih, holds_insert, Bool.or_eq_true, beq_iff_eq, Prod.mk.injEq,
      List.exists_mem_cons_iff, or_assoc, or_left_comm]

def enterRows (t : AdjacencyTable) (row : β → Nat) (column : α → Nat) (items : β → List α)
    (ys : List β) : AdjacencyTable :=
  ys.foldl (fun t y => t.enterRow (row y) column (items y)) t

@[simp] theorem bound_enterRows (t : AdjacencyTable) (row : β → Nat) (column : α → Nat)
    (items : β → List α) (ys : List β) : (t.enterRows row column items ys).bound = t.bound := by
  unfold enterRows
  induction ys generalizing t with
  | nil => rfl
  | cons y ys ih => rw [List.foldl_cons, ih, bound_enterRow]

theorem holds_enterRows (t : AdjacencyTable) (row : β → Nat) (column : α → Nat)
    (items : β → List α) (ys : List β) (k l : Nat) :
    (t.enterRows row column items ys).holds k l = true ↔
      (∃ y ∈ ys, ∃ x ∈ items y, row y = k ∧ column x = l) ∨ t.holds k l = true := by
  unfold enterRows
  induction ys generalizing t with
  | nil => simp
  | cons y ys ih =>
    rw [List.foldl_cons, ih, holds_enterRow, List.exists_mem_cons_iff, or_assoc, or_left_comm]

end AdjacencyTable

/-! ### Building -/

namespace Oracle

variable {g : Access σ} {w : σ}

theorem indexWithin_eq (hg : g.Orderly w) {n : Nat} (hn : (n : Int) = g.bound) {x : Identifier}
    (hx : g.Names w x) : indexWithin g n x = .ok (g.position x) := by
  obtain ⟨hindex, hlt⟩ := hg.index_eq hx
  have hwithin : (0 : Int) ≤ (g.position x : Int) ∧ (g.position x : Int) < n := by
    constructor <;> omega
  unfold indexWithin
  rw [hindex]
  show (if (0 : Int) ≤ (g.position x : Int) ∧ (g.position x : Int) < n
    then (.ok (g.position x : Int).toNat : Except Fault Nat) else _) = _
  rw [if_pos hwithin, Int.toNat_natCast]

/-- **Entering a node** enters the pairs of its position with those of the nodes that it reports. -/
theorem enterNode_answers (hg : g.Orderly w) {t : AdjacencyTable} (ht : (t.bound : Int) = g.bound)
    {u : Identifier} (hu : u ∈ g.listed w) :
    (enterNode g t u).Answers w (t.enterRow (g.position u) g.position (g.reported w u)) := by
  have hnames : g.Names w u := .inl hu
  obtain ⟨items, hitems, htested, hreported⟩ :=
    hg.followed_passes hnames (Identifier.isIn_of_mem hu)
  have hrow := Access.foldItems_answers (I := fun t : AdjacencyTable => (t.bound : Int) = g.bound)
    (f := fun t v => do
      let j ← Query.ofExcept (indexWithin g t.bound v)
      return t.insert (g.position u) j)
    (k := fun t v => t.insert (g.position u) (g.position v)) htested (by
      intro t ht v hv
      rw [← hreported] at hv
      refine ⟨?_, by rw [AdjacencyTable.bound_insert, ht]⟩
      have hindex := indexWithin_eq hg ht (.inr ⟨u, hu, hv⟩)
      rw [hindex]
      exact (Query.answers_ofExcept w _).bind (Query.answers_pure w _)) ht
  rw [← hreported] at hrow
  unfold enterNode
  rw [indexWithin_eq hg ht hnames]
  exact (Query.answers_ofExcept w _).bind (hitems.bind hrow)

/-- The oracle holds the pairs of positions of which a graph reports one to the other. -/
structure Tabulates (o : Oracle) (g : Access σ) (w : σ) : Prop where
  index : o.index = g.index
  bound : (o.bound : Int) = g.bound
  holds : ∀ i j, o.table.holds i j = true ↔ g.Reports w i j

/-- The oracle of what a graph shows: the pairs of its nodes are entered in their order. -/
def shown (g : Access σ) (w : σ) : Oracle where
  table := .enterRows (.empty g.bound.toNat) g.position g.position (g.reported w) (g.listed w)
  index := g.index

/-- The oracle of what a graph shows holds what the graph reports. -/
theorem shown_tabulates (g : Access σ) (w : σ) (hbound : 0 ≤ g.bound) : (shown g w).Tabulates g w where
  index := rfl
  bound := by
    rw [bound, shown, AdjacencyTable.bound_enterRows]
    show (g.bound.toNat : Int) = g.bound
    omega
  holds i j := by
    rw [shown, AdjacencyTable.holds_enterRows, AdjacencyTable.holds_empty, Access.Reports]
    simp only [Bool.false_eq_true, or_false]

/-- **Building the oracle of an orderly graph** comes down to whether its table can be copied. -/
theorem build_run (hg : g.Orderly w) {limit : Identifier} {n : Nat}
    (hwithin : Comparison.above.holds (.integer g.bound) limit = .ok false)
    (hn : IndexSpace.forPairs g.machine.room g.bound = .ok n) : (build g limit).run w
      = ((IndexSpace.forCopy g.machine.room g.bound.toNat).map fun _ => shown g w, w) := by
  have hbound := IndexSpace.forPairs_eq_ok hn
  have htable := Access.foldItems_answers (I := fun t : AdjacencyTable => (t.bound : Int) = g.bound)
    (f := enterNode g)
    (k := fun t u => t.enterRow (g.position u) g.position (g.reported w u)) hg.tested (by
      intro t ht u hu
      rw [← hg.listed_eq] at hu
      exact ⟨enterNode_answers hg ht hu, by rw [AdjacencyTable.bound_enterRow, ht]⟩)
    (t := .empty n) hbound
  have hsize : n = g.bound.toNat := by omega
  rw [← hg.listed_eq, hsize] at htable
  have hcopied : (do
      Query.ofExcept (IndexSpace.forCopy g.machine.room g.bound.toNat)
      return shown g w : Query σ Oracle).run w
        = ((IndexSpace.forCopy g.machine.room g.bound.toNat).map fun _ => shown g w, w) := by
    cases IndexSpace.forCopy g.machine.room g.bound.toNat <;> rfl
  unfold build
  simp only [hwithin, hn, hsize]
  exact (Query.run_bind_of_ok htable).trans hcopied

/-- **The oracle of an orderly graph** that fits is that of what it shows. -/
theorem build_shown (hg : g.Orderly w) {limit : Identifier} (hfits : g.Fits limit) :
    (build g limit).Answers w (shown g w) ∧ (shown g w).Tabulates g w := by
  obtain ⟨n, hn⟩ := hfits.tabulated
  have hbound := IndexSpace.forPairs_eq_ok hn
  refine ⟨?_, shown_tabulates g w (by omega)⟩
  rw [Query.Answers, build_run hg hfits.within hn, hfits.copied]
  rfl

/-- **An orderly graph that does not fit is refused**, for a reason that lies in the size of its index
space. -/
theorem build_refused {limit : Identifier} (hfits : ¬g.Fits limit) :
    ∃ e, ∀ h : Access σ, h.bound = g.bound → h.machine = g.machine → ∀ w, h.Orderly w →
      (build h limit).run w = (.error e, w) := by
  cases habove : Comparison.above.holds (.integer g.bound) limit with
  | error e => exact ⟨e, fun h hbound _ w _ => by rw [build, hbound, habove]; rfl⟩
  | ok beyond =>
    cases beyond with
    | true => exact ⟨_, fun h hbound _ w _ => by rw [build, hbound, habove]; rfl⟩
    | false =>
      cases hpairs : IndexSpace.forPairs g.machine.room g.bound with
      | error e =>
        refine ⟨e, fun h hbound hmachine w _ => ?_⟩
        simp only [build, hbound, hmachine, habove, hpairs]
        rfl
      | ok n =>
        cases hcopy : IndexSpace.forCopy g.machine.room g.bound.toNat with
        | ok _ => exact absurd ⟨habove, ⟨n, hpairs⟩, hcopy⟩ hfits
        | error e =>
          refine ⟨e, fun h hbound hmachine w hh => ?_⟩
          rw [← hbound] at habove hpairs hcopy
          rw [← hmachine] at hpairs hcopy
          rw [build_run hh habove hpairs, hcopy]
          rfl

/-! ### Mutual adjacency -/

/-- Are two positions different and in the table both ways? -/
def linked (o : Oracle) (i j : Nat) : Bool :=
  i != j && (o.table.holds i j && o.table.holds j i)

theorem linked_eq_true {o : Oracle} {i j : Nat} :
    o.linked i j = true ↔ i ≠ j ∧ o.table.holds i j = true ∧ o.table.holds j i = true := by
  rw [linked, Bool.and_eq_true, Bool.and_eq_true, bne_iff_ne]

/-- A named node is looked up at its position, and this is an index of the table. -/
theorem Tabulates.looks_up (hg : g.Orderly w) {o : Oracle} (ho : o.Tabulates g w) {x : Identifier}
    (hx : g.Names w x) :
    o.index x = .ok (g.position x : Int) ∧ o.checkIndex (g.position x) = .ok (g.position x) := by
  obtain ⟨hindex, hlt⟩ := hg.index_eq hx
  refine ⟨by rw [ho.index, hindex], ?_⟩
  unfold checkIndex
  rw [ho.bound, if_pos ⟨by omega, hlt⟩, Int.toNat_natCast]

theorem isAdjacent_eq (hg : g.Orderly w) {o : Oracle} (ho : o.Tabulates g w) {u v : Identifier}
    (hu : g.Names w u) (hv : g.Names w v) :
    o.isAdjacent u v = .ok (o.table.holds (g.position u) (g.position v)) := by
  obtain ⟨hui, huc⟩ := ho.looks_up hg hu
  obtain ⟨hvi, hvc⟩ := ho.looks_up hg hv
  simp only [isAdjacent, isAdjacentIndex, hui, huc, hvi, hvc, bind, Except.bind, pure, Except.pure]

theorem isMutuallyAdjacent_eq (hg : g.Orderly w) {o : Oracle} (ho : o.Tabulates g w)
    {u v : Identifier} (hu : g.Names w u) (hv : g.Names w v) :
    o.isMutuallyAdjacent u v = .ok (o.table.holds (g.position u) (g.position v)
      && o.table.holds (g.position v) (g.position u)) := by
  obtain ⟨hui, huc⟩ := ho.looks_up hg hu
  obtain ⟨hvi, hvc⟩ := ho.looks_up hg hv
  simp only [isMutuallyAdjacent, hui, huc, hvi, hvc, bind, Except.bind, pure, Except.pure]

/-- **Positions are linked if they are those of mutually adjacent nodes.** -/
theorem linked_iff_mutual (hg : g.Orderly w) {o : Oracle} (ho : o.Tabulates g w) {i j : Nat} :
    o.linked i j = true ↔ ∃ u v, g.Mutual w u v ∧ g.position u = i ∧ g.position v = j := by
  rw [linked_eq_true, ho.holds, ho.holds]
  constructor
  · intro h
    obtain ⟨hne, ⟨u, hu, v, hv, rfl, rfl⟩, ⟨u', hu', v', hv', hu'v, hv'u⟩⟩ := h
    -- `u'` is the listed spelling of the node that `u` reports, and `v'` a spelling of `u`
    have huu' : (v == u') = true := (hg.position_eq_iff (.inr ⟨u, hu, hv⟩) (.inl hu')).1 hu'v.symm
    have hv'u' : (v' == u) = true := (hg.position_eq_iff (.inr ⟨u', hu', hv'⟩) (.inl hu)).1 hv'u
    refine ⟨u, u', ⟨hu, hu', ?_, Identifier.isIn_iff.2 ⟨v, hv, huu'⟩,
      Identifier.isIn_iff.2 ⟨v', hv', hv'u'⟩⟩, rfl, hu'v⟩
    rw [← Bool.not_eq_true]
    intro hsame
    rw [← hg.position_eq_iff (.inl hu) (.inl hu'), hu'v] at hsame
    exact hne hsame
  · intro h
    obtain ⟨u, v, huv, rfl, rfl⟩ := h
    obtain ⟨hu, hv, hne, hout, hback⟩ := huv
    obtain ⟨v', hv', hv'v⟩ := Identifier.isIn_iff.1 hout
    obtain ⟨u', hu', hu'u⟩ := Identifier.isIn_iff.1 hback
    refine ⟨fun h => ?_, ⟨u, hu, v', hv', rfl, ?_⟩, ⟨v, hv, u', hu', rfl, ?_⟩⟩
    · rw [hg.position_eq_iff (.inl hu) (.inl hv), hne] at h
      exact absurd h (by decide)
    · exact (hg.position_eq_iff (.inr ⟨u, hu, hv'⟩) (.inl hv)).2 hv'v
    · exact (hg.position_eq_iff (.inr ⟨v, hv, hu'⟩) (.inl hu)).2 hu'u

end Oracle

end MaximalCliques
