import MaximalCliques.Proofs.Graph.Restriction
import MaximalCliques.Proofs.Marks.Mirroring

/-!
# Views of marked nodes

Filters write notes, and change nothing else.  So two filters that judge the nodes of a network alike,
whatever has been noted, make views of it with the same sequences, over any further filters.

* **`World.SameMarks`** — worlds that differ in their notes at most.
* **`Query.KeepsMarks`** — a question that changes notes at most, as those to filters do.
* **`Filter.JudgesAlike`** — filters that judge nodes alike, whatever has been noted.
* **`Filter.JudgesAlike.pull`**, **`Filter.JudgesAlike.nodes`**, **`Filter.JudgesAlike.sequence`** — their
  views have the same sequences, held open or not.
* **`BitSet.Mirrors.judgesAlike`** — a bit set and a seen set that mirror one another are such filters;
  **`BitSet.Mirrors.test_unknown`** — a value that is unknown is refused by the bit set.
-/

namespace MaximalCliques

/-! ### Questions that change notes at most -/

/-- Worlds that differ in their notes at most, as far as networks and marks go. -/
structure World.SameMarks (w v : World) : Prop where
  networks : v.networks = w.networks
  bitSets : v.bitSets = w.bitSets
  seenSets : v.seenSets = w.seenSets

namespace World.SameMarks

theorem refl (w : World) : w.SameMarks w := ⟨rfl, rfl, rfl⟩

theorem trans {u v w : World} (huv : u.SameMarks v) (hvw : v.SameMarks w) : u.SameMarks w :=
  ⟨hvw.networks.trans huv.networks, hvw.bitSets.trans huv.bitSets, hvw.seenSets.trans huv.seenSets⟩

end World.SameMarks

/-- The question changes notes at most. -/
def Query.KeepsMarks {α : Type} (q : Query World α) : Prop :=
  ∀ w : World, w.SameMarks (q.run w).2

namespace Query.KeepsMarks

variable {α β : Type} {q : Query World α} {k : α → Query World β}

theorem ofExcept (answer : Except Fault α) : (Query.ofExcept answer : Query World α).KeepsMarks :=
  fun w => World.SameMarks.refl w

theorem pure (a : α) : (Pure.pure a : Query World α).KeepsMarks := fun w => World.SameMarks.refl w

theorem throw (e : Fault) : (MonadExcept.throw e : Query World α).KeepsMarks :=
  fun w => World.SameMarks.refl w

theorem bind (hq : q.KeepsMarks) (hk : ∀ a, (k a).KeepsMarks) : (q >>= k).KeepsMarks := by
  intro w
  rw [Query.run_bind]
  have hfirst := hq w
  split
  case h_1 a v hrun =>
    rw [hrun] at hfirst
    exact hfirst.trans (hk a v)
  case h_2 e v hrun =>
    rw [hrun] at hfirst
    exact hfirst

theorem get : (MonadState.get : Query World World).KeepsMarks := fun w => World.SameMarks.refl w

end Query.KeepsMarks

namespace Filter

theorem keepsMarks_judge (rule : Rule) (notebooks : List Notebook) (x : Identifier) :
    (rule.judge notebooks x).KeepsMarks := by
  have hnote : ∀ notebook : Notebook, (notebook.note x).KeepsMarks := by
    intro notebook
    cases notebook with
    | trace place => exact fun w => ⟨rfl, rfl, rfl⟩
    | unfit kind => exact .throw _
  have hnotes : ∀ notebooks : List Notebook, (notebooks.forM (Notebook.note x)).KeepsMarks := by
    intro notebooks
    induction notebooks with
    | nil => exact .pure ()
    | cons notebook notebooks ih => exact (hnote notebook).bind fun _ => ih
  exact (hnotes notebooks).bind fun _ => .ofExcept _

/-- **Filters write notes at most.** -/
theorem keepsMarks_answer (f : Filter) (x : Identifier) : (f.answer x).KeepsMarks := by
  induction f using Filter.answer.induct with
  | case1 serial rule notebooks =>
    exact (keepsMarks_judge rule notebooks x).bind fun _ => .pure _
  | case2 serial rule notebooks => exact keepsMarks_judge rule notebooks x
  | case3 set => exact (Query.KeepsMarks.ofExcept _).bind fun _ => .pure _
  | case4 place =>
    refine Query.KeepsMarks.get.bind fun w => ?_
    split
    · exact (Query.KeepsMarks.ofExcept _).bind fun _ => .pure _
    · exact .throw _
  | case5 place =>
    refine Query.KeepsMarks.get.bind fun w => ?_
    split
    · exact (Query.KeepsMarks.ofExcept _).bind fun _ => .pure _
    · exact .throw _
  | case6 base outer inner ih => exact ih

theorem keepsMarks_test (f : Filter) (x : Identifier) : (f.test x).KeepsMarks :=
  (keepsMarks_answer f x).bind fun _ => .pure _

theorem keepsMarks_testAll (fs : List Filter) (x : Identifier) : (testAll fs x).KeepsMarks := by
  induction fs with
  | nil => exact .pure true
  | cons f fs ih =>
    refine ih.bind fun included => ?_
    cases included with
    | true => exact keepsMarks_test f x
    | false => exact .pure false

theorem keepsMarks_testSource (fs : List Filter) (x : Identifier) : (testSource fs x).KeepsMarks := by
  induction fs with
  | nil => exact .pure true
  | cons f fs ih => exact (keepsMarks_test f x).bind fun _ => ih.bind fun _ => .pure _

/-! ### Filters that judge alike -/

/-- The filters judge the values among the names alike in every world that differs from this one in its
notes at most. -/
def JudgesAlike (w : World) (names : List Identifier) (f g : Filter) : Prop :=
  ∀ v, w.SameMarks v → ∀ x : Identifier, x.isIn names = true → (f.test x).run v = (g.test x).run v

namespace JudgesAlike

variable {w v : World} {names : List Identifier} {f g : Filter} {inner : List Filter}
variable (h : JudgesAlike w names f g)
include h

variable (inner) in
theorem testAll (hv : w.SameMarks v) {x : Identifier} (hx : x.isIn names = true) :
    (Filter.testAll (f :: inner) x).run v = (Filter.testAll (g :: inner) x).run v := by
  unfold Filter.testAll
  rw [Query.run_bind, Query.run_bind]
  have hkept := hv.trans (keepsMarks_testAll inner x v)
  cases hrun : (Filter.testAll inner x).run v with
  | mk answer u =>
    rw [hrun] at hkept
    cases answer with
    | error e => rfl
    | ok included =>
      cases included with
      | true => exact h u hkept x hx
      | false => rfl

variable (inner) in
theorem testSource (hv : w.SameMarks v) {x : Identifier} (hx : x.isIn names = true) :
    (Filter.testSource (f :: inner) x).run v = (Filter.testSource (g :: inner) x).run v := by
  unfold Filter.testSource
  rw [Query.run_bind, Query.run_bind, h v hv x hx]

/-- **Sequences held open** deliver the same next item. -/
theorem pull (hv : w.SameMarks v) {items : List Identifier}
    (hitems : ∀ x ∈ items, x.isIn names = true) :
    (MaximalCliques.pull (Filter.testAll (f :: inner)) items).run v
      = (MaximalCliques.pull (Filter.testAll (g :: inner)) items).run v := by
  induction items generalizing v with
  | nil => rfl
  | cons x items ih =>
    have hrest : ∀ y ∈ items, y.isIn names = true := fun y hy => hitems y (List.mem_cons_of_mem x hy)
    have hsame := h.testAll inner hv (hitems x List.mem_cons_self)
    have hkept := hv.trans (keepsMarks_testAll (f :: inner) x v)
    unfold MaximalCliques.pull
    cases hrun : (Filter.testAll (f :: inner) x).run v with
    | mk answer u =>
      have hrun' : StateT.run (Filter.testAll (f :: inner) x).run v = (answer, u) := hrun
      have hsame' : StateT.run (Filter.testAll (g :: inner) x).run v = (answer, u) :=
        hsame.symm.trans hrun
      rw [hrun] at hkept
      rw [run_bind_of_eq hrun', run_bind_of_eq hsame']
      cases answer with
      | error e => rfl
      | ok included =>
        cases included with
        | true => rfl
        | false => exact ih hkept hrest

theorem admitted (b : Base) (hv : w.SameMarks v) {items : List Identifier}
    (hitems : ∀ x ∈ items, x.isIn names = true) :
    ((Thing.access ⟨b, f :: inner⟩ w).admitted items).run v
      = ((Thing.access ⟨b, g :: inner⟩ w).admitted items).run v := by
  -- whatever has been kept so far
  suffices hfold : ∀ kept : List Identifier,
      ((Thing.access ⟨b, f :: inner⟩ w).foldItems (fun kept x => pure (kept ++ [x])) kept items).run v
        = ((Thing.access ⟨b, g :: inner⟩ w).foldItems (fun kept x => pure (kept ++ [x])) kept
          items).run v from hfold []
  unfold Access.foldItems
  induction items generalizing v with
  | nil => exact fun kept => rfl
  | cons x items ih =>
    intro kept
    have hrest : ∀ y ∈ items, y.isIn names = true := fun y hy => hitems y (List.mem_cons_of_mem x hy)
    have hsame := h.testAll inner hv (hitems x List.mem_cons_self)
    have hkept := hv.trans (keepsMarks_testAll (f :: inner) x v)
    simp only [List.foldlM_cons, bind_assoc]
    rw [Query.run_bind, Query.run_bind, Thing.admits_access, Thing.admits_access, ← hsame]
    cases hrun : (Filter.testAll (f :: inner) x).run v with
    | mk answer u =>
      rw [hrun] at hkept
      cases answer with
      | error e => rfl
      | ok included =>
        cases included with
        | true => exact ih hkept hrest (kept ++ [x])
        | false => exact ih hkept hrest kept

end JudgesAlike

end Filter

/-! ### Views of a network -/

section Network

variable {w v : World} {place : Nat} {net : IndexedNetwork} (hnet : w.networks[place]? = some net)
variable (hformed : net.network.WellFormed)
include hnet hformed

/-- A network answers for the neighbours of a node with nodes, and changes nothing. -/
theorem Base.network_follow (hv : w.SameMarks v) (d : Option Direction) (x : Identifier) :
    ∃ answer, (((Base.network place).access w).follow d x).run v = (answer, v) ∧
      ∀ items, answer = .ok items → ∀ y ∈ items, y.isIn net.network.nodes.toList = true := by
  have hplaced : v.networks[place]? = some net := by rw [hv.networks, hnet]
  refine ⟨_, network_follow_eq hplaced w d x, fun items hitems y hy => ?_⟩
  cases hnode : net.requireNode x with
  | error e =>
    rw [hnode] at hitems
    cases hitems
  | ok _ =>
    rw [hnode] at hitems
    rw [← Except.ok.inj hitems] at hy
    exact hformed.isIn_nodes_of_next (Identifier.isIn_of_mem hy)

/-- **Views of a network through filters that judge its nodes alike** have the same neighbour sequences. -/
theorem Filter.JudgesAlike.sequence {f g : Filter} {inner : List Filter}
    (h : JudgesAlike w net.network.nodes.toList f g) (d : Option Direction) {x : Identifier}
    (hx : x.isIn net.network.nodes.toList = true) :
    ((Thing.access ⟨.network place, f :: inner⟩ w).sequence d x).run w
      = ((Thing.access ⟨.network place, g :: inner⟩ w).sequence d x).run w := by
  have hsame := h.testSource inner (World.SameMarks.refl w) hx
  have hkept := keepsMarks_testSource (f :: inner) x w
  unfold Access.sequence
  rw [Thing.follow_access, Thing.follow_access]
  simp only [bind_assoc]
  rw [Query.run_bind, Query.run_bind, ← hsame]
  cases hrun : (Filter.testSource (f :: inner) x).run w with
  | mk included v =>
    rw [hrun] at hkept
    cases included with
    | error e => rfl
    | ok included =>
      obtain ⟨answer, hfollow, hnodes⟩ := Base.network_follow hnet hformed hkept d x
      simp only [Query.run_bind, hfollow]
      cases answer with
      | error e => rfl
      | ok items =>
        refine h.admitted (.network place) hkept fun y hy => ?_
        split at hy
        · exact hnodes items rfl y hy
        · exact absurd hy List.not_mem_nil

end Network

theorem Filter.test_bits {w : World} {p : Nat} {b : BitSet} (hb : w.bitSets[p]? = some b) (x : Identifier) :
    ((Filter.bits p).test x).run w = (b.isMarked x, w) := by
  have hanswer : (Filter.answer x (.bits p)).run w = ((b.isMarked x).map .truth, w) := by
    unfold Filter.answer
    rw [Query.run_bind_of_ok (rfl : (get : Query World World).run w = (.ok w, w)), hb]
    dsimp only
    cases b.isMarked x <;> rfl
  unfold Filter.test
  rw [Query.run_bind, hanswer]
  cases b.isMarked x <;> rfl

theorem Filter.test_seen {w : World} {q : Nat} {t : SeenSet} (ht : w.seenSets[q]? = some t) (x : Identifier) :
    ((Filter.seen q).test x).run w = (t.isMarked x, w) := by
  have hanswer : (Filter.answer x (.seen q)).run w = ((t.isMarked x).map .truth, w) := by
    unfold Filter.answer
    rw [Query.run_bind_of_ok (rfl : (get : Query World World).run w = (.ok w, w)), ht]
    dsimp only
    cases t.isMarked x <;> rfl
  unfold Filter.test
  rw [Query.run_bind, hanswer]
  cases t.isMarked x <;> rfl

/-- A bit set that mirrors a seen set refuses to answer about an unknown value. -/
theorem BitSet.Mirrors.test_unknown {w : World} {b : BitSet} {t : SeenSet} {names : List Identifier} {p : Nat}
    (h : b.Mirrors t names) (hb : w.bitSets[p]? = some b) {x : Identifier} (hx : x.isIn names = false) :
    ((Filter.bits p).test x).run w = (.error (Fault.unknownNode x).raised, w) := by
  rw [Filter.test_bits hb, isMarked, h.locate_unknown hx]
  rfl

/-- **A bit set and a seen set that mirror one another** judge the numbered nodes alike, whatever has been
noted. -/
theorem BitSet.Mirrors.judgesAlike {w : World} {b : BitSet} {t : SeenSet} {names : List Identifier}
    {p q : Nat} (h : b.Mirrors t names) (hkeys : ∀ x ∈ names, x.keyless? = none)
    (hb : w.bitSets[p]? = some b) (ht : w.seenSets[q]? = some t) :
    Filter.JudgesAlike w names (.bits p) (.seen q) := by
  intro v hv x hx
  obtain ⟨k, hk⟩ := Numbering.exists_place hx
  have hkey := Identifier.keyless?_of_isIn hkeys hx
  have hb' : v.bitSets[p]? = some b := by rw [hv.bitSets, hb]
  have ht' : v.seenSets[q]? = some t := by rw [hv.seenSets, ht]
  rw [Filter.test_bits hb', Filter.test_seen ht', isMarked, h.locate_eq hk, SeenSet.isMarked,
    Identifier.requireKey, hkey]
  simp only [bind, Except.bind, pure, Except.pure, h.contains_eq hk]

end MaximalCliques
