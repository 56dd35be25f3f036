import MaximalCliques.Proofs.Graph.Bases
import MaximalCliques.Proofs.Graph.OracleEntries

/-!
# What a graph shows when it is walked through

A graph is asked for its nodes in order, and for each node first for its index and then for those of its
neighbours.  The answers may change the state, as long as they are the same in every state that they lead
to.

* **`Query.Settles`** — a question is answered, or refused for a reason, in every state of a set.
* **`Access.refusal?`** — why a node is refused that has no index in the index space.
* **`Access.foldItems_settles`** — going through items up to the first one that is refused.
* **`Appearance`** — what a graph shows; **`Appearance.Of`** says that it shows that in every state.
* **`Appearance.walk`**, **`Appearance.pairs`** — whatever is asked for its index, and the pairs.
* **`Appearance.of_orderly`**, **`Appearance.ofTables_of`** — orderly graphs and tables show the same all
  the time.
-/

namespace MaximalCliques

variable {σ : Type}

/-! ### Answers unless there is a reason to refuse -/

/-- The answer, unless there is a reason to refuse it. -/
def answerUnless {α : Type} (refusal : Option Fault) (a : α) : Except Fault α :=
  match refusal with
  | some e => .error e
  | none => .ok a

namespace Query

variable {α β : Type} {I : σ → Prop}

/-- In every state of `I` the question is answered by `a`, or refused for the given reason if there is
one; the state stays in `I`. -/
def Settles (q : Query σ α) (I : σ → Prop) (refusal : Option Fault) (a : α) : Prop :=
  ∀ w, I w → ∃ v, I v ∧ q.run w = (answerUnless refusal a, v)

theorem settles_pure (I : σ → Prop) (a : α) : (pure a : Query σ α).Settles I none a :=
  fun w hw => ⟨w, hw, rfl⟩

theorem settles_ofExcept (I : σ → Prop) (refusal : Option Fault) (a : α) :
    (ofExcept (answerUnless refusal a) : Query σ α).Settles I refusal a := fun w hw => ⟨w, hw, rfl⟩

/-- Questions that follow one another are refused for the first reason that comes up. -/
theorem Settles.bind {q : Query σ α} {k : α → Query σ β} {r s : Option Fault} {a : α} {b : β}
    (h : q.Settles I r a) (hk : r = none → (k a).Settles I s b) : (q >>= k).Settles I (r.or s) b := by
  intro w hw
  obtain ⟨v, hv, hq⟩ := h w hw
  rw [run_bind, hq]
  cases r with
  | some e => exact ⟨v, hv, rfl⟩
  | none => exact hk rfl v hv

/-- What is answered in one state without a change is so in the set of that state. -/
theorem Answers.settles {q : Query σ α} {w : σ} {a : α} (h : q.Answers w a) :
    q.Settles (· = w) none a := by
  rintro v rfl
  exact ⟨v, rfl, h⟩

end Query

/-- The first reason is that of the first item, or the first one among the others. -/
theorem findSome?_cons_eq_or {β γ : Type} (reason : β → Option γ) (x : β) (xs : List β) :
    (x :: xs).findSome? reason = (reason x).or (xs.findSome? reason) := by
  rw [List.findSome?_cons]
  cases reason x <;> rfl

/-- The first reason among several items comes from the first part that has one. -/
theorem findSome?_flatMap {α β γ : Type} (f : α → List β) (reason : β → Option γ) (xs : List α) :
    (xs.flatMap f).findSome? reason = xs.findSome? fun x => (f x).findSome? reason := by
  induction xs with
  | nil => rfl
  | cons x xs ih =>
    rw [List.flatMap_cons, List.findSome?_append, ih, findSome?_cons_eq_or]

/-! ### What a graph shows -/

namespace Access

variable {g : Access σ} {I : σ → Prop} {τ : Type}

def Indexes (g : Access σ) (n : Nat) (x : Identifier) : Prop :=
  ∃ i : Nat, g.index x = .ok (i : Int) ∧ i < n

theorem Indexes.position_lt {n : Nat} {x : Identifier} (h : g.Indexes n x) : g.position x < n := by
  obtain ⟨i, hi, hlt⟩ := h
  rw [position, hi]
  exact hlt

/-- Why a node is refused, if it has no index below `n`. -/
def refusal? (g : Access σ) (n : Nat) (x : Identifier) : Option Fault :=
  match g.index x with
  | .error e => some e
  | .ok i => if 0 ≤ i ∧ i < n then none else some (Fault.nodeOutOfRange x i n).raised

theorem refusal?_eq_none {n : Nat} {x : Identifier} : g.refusal? n x = none ↔ g.Indexes n x := by
  unfold refusal? Indexes
  cases g.index x with
  | error e => simp
  | ok i =>
    constructor
    · intro h
      by_cases hi : 0 ≤ i ∧ i < n
      · exact ⟨i.toNat, by rw [Int.toNat_of_nonneg hi.1], by omega⟩
      · simp [hi] at h
    · rintro ⟨k, hk, hlt⟩
      injection hk with hk
      exact if_pos ⟨by omega, by omega⟩

/-- The reason why a node is refused is that of its index, or that the index lies outside. -/
theorem refusal?_eq_some {n : Nat} {x : Identifier} {e : Fault} (h : g.refusal? n x = some e) :
    g.index x = .error e ∨
      ∃ i : Int, g.index x = .ok i ∧ ¬(0 ≤ i ∧ i < n) ∧ e = (Fault.nodeOutOfRange x i n).raised := by
  unfold refusal? at h
  cases hx : g.index x with
  | error e' =>
    rw [hx] at h
    exact .inl (congrArg Except.error (Option.some.inj h))
  | ok i =>
    rw [hx] at h
    by_cases hi : 0 ≤ i ∧ i < n
    · simp [hi] at h
    · simp only [if_neg hi, Option.some.injEq] at h
      exact .inr ⟨i, rfl, hi, h.symm⟩

/-- **Going through items** that are tested without a fault ends at the first one that is refused. -/
theorem foldItems_settles {f : τ → Identifier → Query σ τ} {k : τ → Identifier → τ} {J : τ → Prop}
    {passes : Identifier → Bool} {refusal? : Identifier → Option Fault} {items : List Identifier}
    (htested : ∀ x ∈ items, (g.admits x).Settles I none (passes x))
    (hf : ∀ t, J t → ∀ x ∈ items.filter passes, (f t x).Settles I (refusal? x) (k t x) ∧ J (k t x))
    {t : τ} (ht : J t) :
    (g.foldItems f t items).Settles I ((items.filter passes).findSome? refusal?)
      ((items.filter passes).foldl k t) := by
  unfold foldItems
  induction items generalizing t with
  | nil => exact Query.settles_pure I t
  | cons x items ih =>
    have hx := htested x List.mem_cons_self
    have htested' := fun y hy => htested y (List.mem_cons_of_mem x hy)
    rw [List.foldlM_cons]
    cases hpass : passes x with
    | true =>
      rw [hpass] at hx
      rw [List.filter_cons_of_pos hpass] at hf ⊢
      obtain ⟨hstep, hkeep⟩ := hf t ht x List.mem_cons_self
      have hrest := ih htested' (fun t ht y hy => hf t ht y (List.mem_cons_of_mem x hy)) hkeep
      rw [List.foldl_cons, findSome?_cons_eq_or]
      exact .bind (.bind (r := none) (s := refusal? x) hx fun _ => hstep) fun _ => hrest
    | false =>
      rw [hpass] at hx
      have hskip : ¬ passes x = true := by simp [hpass]
      rw [List.filter_cons_of_neg hskip] at hf ⊢
      exact .bind (r := none) (.bind (r := none) (s := none) hx fun _ => Query.settles_pure I t)
        fun _ => ih htested' hf ht

end Access

/-- What a graph shows: which items pass its tests, and the neighbour sequences of its nodes. -/
structure Appearance where
  passes : Identifier → Bool
  sequence : Identifier → List Identifier

namespace Appearance

variable (a : Appearance) (g : Access σ)

def listed : List Identifier := g.nodes.filter a.passes

def reported (u : Identifier) : List Identifier := (a.sequence u).filter a.passes

/-- Whatever is asked for its index, in order: each node and then the neighbours that it reports. -/
def walk : List Identifier := (a.listed g).flatMap fun u => u :: a.reported u

/-- The pairs of indices of a listed node and of a neighbour that it reports. -/
def pairs : List (Nat × Nat) :=
  (a.listed g).flatMap fun u => (a.reported u).map fun v => (g.position u, g.position v)

/-- **A graph shows the same in every state** of `I`, whatever it is asked for when an oracle of size `n`
is built: its tests of the items that are reached are answered, and so are the questions for the
neighbours of listed nodes with an index. -/
structure Of (I : σ → Prop) (n : Nat) : Prop where
  tested : ∀ u ∈ g.nodes, (g.admits u).Settles I none (a.passes u)
  followed : ∀ u ∈ a.listed g, g.Indexes n u → (g.neighbours u).Settles I none (a.sequence u) ∧
    ∀ v ∈ a.sequence u, (g.admits v).Settles I none (a.passes v)

variable {a g}

theorem mem_pairs {i j : Nat} : (i, j) ∈ a.pairs g ↔
    ∃ u ∈ a.listed g, ∃ v ∈ a.reported u, g.position u = i ∧ g.position v = j := by
  simp only [pairs, List.mem_flatMap, List.mem_map, Prod.mk.injEq]

theorem of_orderly {w : σ} (hg : g.Orderly w) (n : Nat) :
    Of ⟨g.passes w, fun u => ((g.neighbours u).answer? w).getD []⟩ g (· = w) n := by
  refine ⟨fun u hu => (Access.admits_passes (hg.tested u hu)).settles, fun u hu _ => ?_⟩
  have hlisted : u ∈ g.listed w := by rw [hg.listed_eq]; exact hu
  obtain ⟨items, hitems, htested, -⟩ :=
    hg.followed_passes (.inl hlisted) (Identifier.isIn_of_mem hlisted)
  have hsequence : ((g.neighbours u).answer? w).getD [] = items := by rw [hitems.answer?]; rfl
  simp only [hsequence]
  exact ⟨hitems.settles, fun v hv => (Access.admits_passes (htested v hv)).settles⟩

/-- What tables show: nothing is tested. -/
def ofTables (t : TableGraph) : Appearance where
  passes _ := true
  sequence := t.lists

/-- Tables whose nodes are keys show the same all the time, whatever they hold. -/
theorem ofTables_of {t : TableGraph} (serial : Nat) (hkeys : ∀ u ∈ t.nodes, u.keyless? = none)
    (w : World) (n : Nat) :
    (ofTables t).Of ((Base.tableGraph serial t).access w) (fun _ => True) n := by
  refine ⟨fun u _ => Query.settles_pure _ true, fun u hu _ => ⟨?_, fun v _ =>
    Query.settles_pure _ true⟩⟩
  have hlisted : u ∈ t.nodes := List.mem_of_mem_filter hu
  show (Query.ofExcept (t.neighbours u) : Query World (List Identifier)).Settles _ none (t.lists u)
  rw [t.neighbours_of_key (hkeys u hlisted)]
  exact Query.settles_ofExcept _ none _

end Appearance

end MaximalCliques
