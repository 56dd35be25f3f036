import MaximalCliques.Graph.Access

/-!
# Graphs that answer

What a graph object shows of itself in a state: the nodes that it lists, the neighbours that a node
reports, and the cliques of mutually adjacent nodes.

* **`Query.Answers`** — a question is answered, and asking it changes nothing.
* **`Access.listed`**, **`Access.reported`** — the listed nodes, and the neighbours that a node reports.
* **`Access.Mutual`**, **`Access.IsClique`**, **`Access.IsMaximalClique`** — mutual adjacency, and the
  sets of mutually adjacent nodes that no further node extends.
* **`Access.Orderly`** — the questions that an enumeration asks are answered, and indices tell the
  nodes apart.
* **`Access.foldItems_answers`** — going through items that are tested without a fault.
-/

namespace MaximalCliques

variable {σ α β τ : Type}

/-! ### Questions that are answered -/

/-- What comes after a change of the state goes on from what it leads to. -/
theorem run_bind_of_eq {α β : Type} {x : StateM σ α} {k : α → StateM σ β} {w' : σ} {a : α}
    (h : x.run w = (a, w')) : (x >>= k).run w = (k a).run w' := by
  show (k (x.run w).1).run (x.run w).2 = _
  rw [h]

namespace Query

theorem run_bind (q : Query σ α) (k : α → Query σ β) (w : σ) :
    (q >>= k).run w = match q.run w with
      | (.ok a, v) => (k a).run v
      | (.error e, v) => (.error e, v) := by
  show ExceptT.bindCont k (q.run w).1 (q.run w).2 = _
  cases q.run w with
  | mk answer v => cases answer <;> rfl

theorem run_bind_of_ok {q : Query σ α} {k : α → Query σ β} {v w : σ} {a : α}
    (h : q.run w = (.ok a, v)) : (q >>= k).run w = (k a).run v := by
  rw [run_bind, h]

theorem ok_of_run_bind {q : Query σ α} {k : α → Query σ β} {v w : σ} {b : β}
    (h : (q >>= k).run v = (.ok b, w)) : ∃ a u, q.run v = (.ok a, u) ∧ (k a).run u = (.ok b, w) := by
  rw [run_bind] at h
  split at h
  case h_1 a u hq => exact ⟨a, u, hq, h⟩
  case h_2 => cases h

/-- The question is answered by `a`, and asking it changes nothing. -/
def Answers (q : Query σ α) (w : σ) (a : α) : Prop := q.run w = (.ok a, w)

/-- The answer that a question gets in a state, if it is not refused. -/
def answer? (q : Query σ α) (w : σ) : Option α :=
  match (q.run w).1 with
  | .ok a => some a
  | .error _ => none

theorem Answers.answer? {q : Query σ α} {w : σ} {a : α} (h : q.Answers w a) :
    q.answer? w = some a := by
  unfold Answers at h
  rw [Query.answer?, h]

theorem answers_pure (w : σ) (a : α) : (pure a : Query σ α).Answers w a := rfl

theorem answers_ofExcept (w : σ) (a : α) : (ofExcept (.ok a) : Query σ α).Answers w a := rfl

theorem Answers.bind {q : Query σ α} {k : α → Query σ β} {w : σ} {a : α} {b : β}
    (h : q.Answers w a) (hk : (k a).Answers w b) : (q >>= k).Answers w b := by
  unfold Answers at h hk ⊢
  rw [run_bind_of_ok h, hk]

theorem Answers.unique {q : Query σ α} {w : σ} {a b : α} (ha : q.Answers w a) (hb : q.Answers w b) :
    a = b := by
  have h : ((Except.ok a : Except Fault α), w) = (.ok b, w) := ha.symm.trans hb
  exact Except.ok.inj (Prod.mk.inj h).1

/-- An answer that does not depend on the state is the answer in every state. -/
theorem Answers.of_stateless {q : Query σ α} {answer : Except Fault α} {v w : σ} {a : α}
    (h : q.Answers w a) (hq : ∀ w, q.run w = (answer, w)) : q.Answers v a := by
  unfold Answers at h ⊢
  rw [hq] at h ⊢
  rw [(Prod.mk.inj h).1]

end Query

/-! ### What a graph shows -/

namespace Access

variable (g : Access σ) (w : σ)

def listed : List Identifier := ((g.admitted g.nodes).answer? w).getD []

def reported (x : Identifier) : List Identifier :=
  ((do g.admitted (← g.neighbours x) : Query σ (List Identifier)).answer? w).getD []

/-- Is the value a listed node or a neighbour that a listed node reports? -/
def Names (x : Identifier) : Prop := x ∈ g.listed w ∨ ∃ u ∈ g.listed w, x ∈ g.reported w u

def position (x : Identifier) : Nat :=
  match g.index x with
  | .ok i => i.toNat
  | .error _ => 0

/-- Two different nodes of which each reports the other. -/
structure Mutual (u v : Identifier) : Prop where
  left_listed : u ∈ g.listed w
  right_listed : v ∈ g.listed w
  differ : (u == v) = false
  out : v.isIn (g.reported w u) = true
  back : u.isIn (g.reported w v) = true

/-- A set of nodes, given by a list, any two of which are mutually adjacent. -/
structure IsClique (K : List Identifier) : Prop where
  listed : ∀ x ∈ K, x ∈ g.listed w
  pairwise : ∀ x ∈ K, ∀ y ∈ K, (x == y) = false → g.Mutual w x y

/-- A clique that is part of no other one. -/
structure IsMaximalClique (K : List Identifier) : Prop extends g.IsClique w K where
  maximal : ∀ L, g.IsClique w L → (∀ x ∈ K, x.isIn L = true) → ∀ x ∈ L, x.isIn K = true

/-- **A graph that answers.**  The tests of the items that are reached are answered, and so are the
questions for the neighbours of listed nodes; no question changes anything.  Everything named has an
index below the bound, different nodes have different indices, and how a node is spelled does not
matter to the graph. -/
structure Orderly : Prop where
  tested : ∀ x ∈ g.nodes, ∃ b, (g.admits x).Answers w b
  followed : ∀ x, g.Names w x → x.isIn (g.listed w) = true →
    ∃ items, (g.neighbours x).Answers w items ∧ ∀ y ∈ items, ∃ b, (g.admits y).Answers w b
  indexed : ∀ x, g.Names w x → ∃ i : Nat, g.index x = .ok i ∧ (i : Int) < g.bound
  injective : ∀ x y, g.Names w x → g.Names w y → g.index x = g.index y → (x == y) = true
  index_congr : ∀ x y, g.Names w x → g.Names w y → (x == y) = true → g.index x = g.index y
  neighbours_congr : ∀ x y, g.Names w x → g.Names w y → (x == y) = true →
    x.isIn (g.listed w) = true → (g.neighbours x).run w = (g.neighbours y).run w

/-! ### Going through items -/

def passes (x : Identifier) : Bool := ((g.admits x).answer? w).getD false

variable {g w}

theorem admits_passes {x : Identifier} (h : ∃ b, (g.admits x).Answers w b) :
    (g.admits x).Answers w (g.passes w x) := by
  obtain ⟨b, hb⟩ := h
  rw [passes, hb.answer?]
  exact hb

/-- **Going through items** whose tests are answered is going through those that pass, as long as each
step is answered where `I` holds, and keeps `I`. -/
theorem foldItems_answers {f : τ → Identifier → Query σ τ} {k : τ → Identifier → τ} {I : τ → Prop}
    {items : List Identifier} (htested : ∀ x ∈ items, ∃ b, (g.admits x).Answers w b)
    (hf : ∀ t, I t → ∀ x ∈ items.filter (g.passes w), (f t x).Answers w (k t x) ∧ I (k t x))
    {t : τ} (ht : I t) :
    (g.foldItems f t items).Answers w ((items.filter (g.passes w)).foldl k t) := by
  unfold foldItems
  induction items generalizing t with
  | nil => exact Query.answers_pure w t
  | cons x items ih =>
    have hx := admits_passes (htested x List.mem_cons_self)
    have htested' := fun y hy => htested y (List.mem_cons_of_mem x hy)
    rw [List.foldlM_cons]
    cases hpass : g.passes w x with
    | true =>
      rw [hpass] at hx
      rw [List.filter_cons_of_pos hpass] at hf ⊢
      obtain ⟨hstep, hkeep⟩ := hf t ht x List.mem_cons_self
      exact (hx.bind hstep).bind
        (ih htested' (fun t ht y hy => hf t ht y (List.mem_cons_of_mem x hy)) hkeep)
    | false =>
      rw [hpass] at hx
      have hskip : ¬ g.passes w x = true := by simp [hpass]
      rw [List.filter_cons_of_neg hskip] at hf ⊢
      exact (hx.bind (Query.answers_pure w t)).bind (ih htested' hf ht)

theorem foldItems_answers' {f : τ → Identifier → Query σ τ} {k : τ → Identifier → τ}
    {items : List Identifier} (htested : ∀ x ∈ items, ∃ b, (g.admits x).Answers w b)
    (hf : ∀ t, ∀ x ∈ items.filter (g.passes w), (f t x).Answers w (k t x)) (t : τ) :
    (g.foldItems f t items).Answers w ((items.filter (g.passes w)).foldl k t) :=
  foldItems_answers (I := fun _ => True) htested (fun t _ x hx => ⟨hf t x hx, trivial⟩) trivial

theorem admitted_answers {items : List Identifier}
    (htested : ∀ x ∈ items, ∃ b, (g.admits x).Answers w b) :
    (g.admitted items).Answers w (items.filter (g.passes w)) := by
  have h := foldItems_answers' (f := fun kept x => pure (kept ++ [x]))
    (k := fun kept x => kept ++ [x]) htested (fun _ _ _ => Query.answers_pure w _) []
  have happend : ∀ (xs kept : List Identifier),
      xs.foldl (fun kept x => kept ++ [x]) kept = kept ++ xs := by
    intro xs
    induction xs with
    | nil => intro kept; rw [List.foldl_nil, List.append_nil]
    | cons x xs ih =>
      intro kept
      rw [List.foldl_cons, ih, List.append_assoc, List.singleton_append]
  rw [happend, List.nil_append] at h
  exact h

namespace Orderly

variable (hg : g.Orderly w)
include hg

theorem admitted_nodes : (g.admitted g.nodes).Answers w (g.listed w) := by
  have h := admitted_answers hg.tested
  rw [listed, h.answer?]
  exact h

theorem listed_eq : g.listed w = g.nodes.filter (g.passes w) :=
  hg.admitted_nodes.unique (admitted_answers hg.tested)

/-- The neighbours that a listed node reports are the items of its sequence that pass. -/
theorem followed_passes {x : Identifier} (hx : g.Names w x) (hlisted : x.isIn (g.listed w) = true) :
    ∃ items, (g.neighbours x).Answers w items ∧ (∀ y ∈ items, ∃ b, (g.admits y).Answers w b) ∧
      g.reported w x = items.filter (g.passes w) := by
  obtain ⟨items, hitems, htested⟩ := hg.followed x hx hlisted
  refine ⟨items, hitems, htested, ?_⟩
  rw [reported, (hitems.bind (admitted_answers htested)).answer?]
  rfl

theorem index_eq {x : Identifier} (hx : g.Names w x) :
    g.index x = .ok (g.position x) ∧ (g.position x : Int) < g.bound := by
  obtain ⟨i, hi, hlt⟩ := hg.indexed x hx
  rw [position, hi]
  exact ⟨rfl, hlt⟩

/-- **Positions tell nodes apart**, and spellings of one node have one position. -/
theorem position_eq_iff {x y : Identifier} (hx : g.Names w x) (hy : g.Names w y) :
    g.position x = g.position y ↔ (x == y) = true := by
  constructor
  · intro h
    refine hg.injective x y hx hy ?_
    rw [(hg.index_eq hx).1, (hg.index_eq hy).1, h]
  · intro h
    rw [position, position, hg.index_congr x y hx hy h]

theorem nodup_positions_iff {K : List Identifier} (hK : ∀ x ∈ K, g.Names w x) :
    (K.map g.position).Nodup ↔ K.Pairwise fun x y => (x == y) = false := by
  rw [List.Nodup, List.pairwise_map]
  refine List.Pairwise.iff_of_mem fun {x y} hx hy => ?_
  rw [Ne, hg.position_eq_iff (hK x hx) (hK y hy), Bool.not_eq_true]

theorem reported_congr {x y : Identifier} (hx : g.Names w x) (hy : g.Names w y)
    (hxy : (x == y) = true) (hlisted : x.isIn (g.listed w) = true) :
    g.reported w x = g.reported w y := by
  have hrun : ∀ z, (g.neighbours z >>= g.admitted).run w
      = ExceptT.bindCont g.admitted ((g.neighbours z).run w).1 ((g.neighbours z).run w).2 :=
    fun _ => rfl
  show ((g.neighbours x >>= g.admitted).answer? w).getD [] = _
  rw [Query.answer?, hrun, hg.neighbours_congr x y hx hy hxy hlisted, ← hrun]
  rfl

end Orderly

end Access

end MaximalCliques
