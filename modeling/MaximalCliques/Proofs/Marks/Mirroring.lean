import MaximalCliques.Proofs.Graph.Bases
import MaximalCliques.Proofs.Marks.Operations

/-!
# Bit sets and seen sets of numbered nodes

A bit set that is addressed through a numbering and a seen set mirror one another as long as the same
operations are done to both.

* **`BitSet.Mirrors`** — the marked indices are those of the seen nodes.
* **`BitSet.Mirrors.known`** — an operation that is not about an unknown value is answered alike by both,
  and they still mirror one another.
* **`BitSet.Mirrors.unknown`** — the bit set refuses an operation about an unknown value and stays as it
  is.
-/

namespace MaximalCliques

/-! ### Numbered values -/

namespace Numbering

variable {names : List Identifier} {x y : Identifier} {k : Nat}

theorem beq_of_place? (hx : (ofNames names).place? x = some k)
    (hy : (ofNames names).place? y = some k) : (x == y) = true := by
  obtain ⟨-, a, ha, hax⟩ := place?_ofNames hx
  obtain ⟨-, c, hc, hcy⟩ := place?_ofNames hy
  rw [ha] at hc
  rw [← Option.some.inj hc] at hcy
  exact BEq.trans (BEq.symm hax) hcy

end Numbering

/-- The operation is not about a value that is not among the names. -/
def MarkOperation.isKnown (names : List Identifier) (op : MarkOperation) : Bool :=
  op.value?.all (·.isIn names)

/-! ### Mirroring -/

/-- **A bit set that mirrors a seen set** of numbered nodes: the marked indices, in ascending order, are
the places of the seen nodes. -/
structure BitSet.Mirrors (b : BitSet) (t : SeenSet) (names : List Identifier) : Prop where
  size : b.size = names.length
  indexing : b.indexing = .byNumbering (.ofNames names)
  ascending : b.marked.Pairwise (· < ·)
  numbered : ∀ x ∈ t.members, x.isIn names = true
  places : b.marked.Perm (t.members.filterMap (Numbering.ofNames names).place?)

namespace BitSet.Mirrors

variable {b : BitSet} {t : SeenSet} {names : List Identifier} {x : Identifier} {k : Nat}
variable {op : MarkOperation}

theorem empty (names : List Identifier) :
    Mirrors ⟨names.length, [], .byNumbering (.ofNames names)⟩ {} names :=
  ⟨rfl, rfl, List.Pairwise.nil, fun _ h => absurd h List.not_mem_nil, List.Perm.refl _⟩

variable (h : b.Mirrors t names)
include h

theorem count_eq : b.count = t.count := by
  have hall : ∀ x ∈ t.members, ((Numbering.ofNames names).place? x).isSome = true := by
    intro x hx
    obtain ⟨k, hk⟩ := Numbering.exists_place (h.numbered x hx)
    rw [hk]
    rfl
  show b.marked.length = t.members.length
  rw [h.places.length_eq]
  clear h
  generalize t.members = seen at hall ⊢
  induction seen with
  | nil => rfl
  | cons x xs ih =>
    obtain ⟨k, hk⟩ := Option.isSome_iff_exists.1 (hall x List.mem_cons_self)
    rw [List.filterMap_cons_some hk, List.length_cons, List.length_cons,
      ih fun y hy => hall y (List.mem_cons_of_mem x hy)]

/-- **The marked indices** are the places of the seen nodes. -/
theorem mem_marked {i : Nat} :
    i ∈ b.marked ↔ ∃ x ∈ t.members, (Numbering.ofNames names).place? x = some i := by
  rw [h.places.mem_iff, List.mem_filterMap]

/-- A place is marked iff its node has been seen, in whatever spelling. -/
theorem contains_eq (hx : (Numbering.ofNames names).place? x = some k) :
    b.marked.contains k = x.isIn t.members := by
  rw [Bool.eq_iff_iff, List.contains_iff_mem, h.mem_marked, Identifier.isIn_iff]
  refine exists_congr fun y => and_congr_right fun _ => ⟨fun hy => ?_, fun hyx => ?_⟩
  · exact Numbering.beq_of_place? hy hx
  · rw [Numbering.place?_congr _ hyx, hx]

theorem locate_eq (hx : (Numbering.ofNames names).place? x = some k) : b.locate x = .ok k := by
  have hk := (Numbering.place?_ofNames hx).1
  rw [Numbering.size_ofNames] at hk
  have hbound : (0 : Int) ≤ (k : Int) ∧ (k : Int) < (b.size : Int) := by
    rw [h.size]
    omega
  simp [locate, h.indexing, Indexing.index, hx, bind, Except.bind, pure, Except.pure, h.size, hk]

theorem locate_unknown (hx : x.isIn names = false) : b.locate x = .error (Fault.unknownNode x).raised := by
  simp [locate, h.indexing, Indexing.index, Numbering.place?_eq_none hx, bind, Except.bind]

/-- **An operation about an unknown value** is refused by the bit set, which stays as it is. -/
theorem unknown (hop : op.value? = some x) (hx : x.isIn names = false) :
    op.onBits b = (.error (Fault.unknownNode x).raised, b) := onBits_refused hop (h.locate_unknown hx)

/-- A numbered node is marked in both or, if it has been before, in neither. -/
theorem mark (hkey : x.keyless? = none) (hx : (Numbering.ofNames names).place? x = some k) :
    ∃ r, ((MarkOperation.mark x).onBits b).1 = .ok r ∧
      ((MarkOperation.mark x).onSeen t).1 = .ok r ∧
      ((MarkOperation.mark x).onBits b).2.Mirrors ((MarkOperation.mark x).onSeen t).2 names := by
  have hnumbered : x.isIn names = true := by
    obtain ⟨-, y, hy, hyx⟩ := Numbering.place?_ofNames hx
    exact Identifier.isIn_iff.2 ⟨y, List.mem_of_getElem? hy, hyx⟩
  have hbits := (onBits_located (h.locate_eq hx)).1
  have hcontains := h.contains_eq hx
  cases hseen : x.isIn t.members with
  | true =>
    have hseen' : (MarkOperation.mark x).onSeen t = (.ok (.truth false), t) := by
      simp [MarkOperation.onSeen, SeenSet.mark, Identifier.requireKey, hkey, hseen, bind, Except.bind,
        pure, Except.pure]
    rw [hseen] at hcontains
    rw [hbits, hseen', hcontains]
    exact ⟨_, rfl, rfl, h⟩
  | false =>
    have hseen' : (MarkOperation.mark x).onSeen t = (.ok (.truth true), ⟨t.members ++ [x]⟩) := by
      simp [MarkOperation.onSeen, SeenSet.mark, Identifier.requireKey, hkey, hseen, bind, Except.bind,
        pure, Except.pure]
    rw [hseen] at hcontains
    have hfresh : k ∉ b.marked := by simpa using hcontains
    rw [hbits, hseen', hcontains]
    refine ⟨_, rfl, rfl, h.size, h.indexing, ascending_insertAscending h.ascending hfresh, ?_, ?_⟩
    · intro y hy
      rcases List.mem_append.1 hy with hy | hy
      · exact h.numbered y hy
      · rw [List.mem_singleton.1 hy]
        exact hnumbered
    · -- the new place comes last among the seen nodes, and somewhere among the marked ones
      have hplaces : (t.members ++ [x]).filterMap (Numbering.ofNames names).place?
          = t.members.filterMap (Numbering.ofNames names).place? ++ [k] := by
        rw [List.filterMap_append, List.filterMap_cons_some hx, List.filterMap_nil]
      show (insertAscending k b.marked).Perm _
      rw [hplaces]
      exact (perm_insertAscending k b.marked).trans
        ((h.places.cons k).trans (List.perm_append_singleton k _).symm)

/-- **An operation that is not about an unknown value** is answered alike by both sets, which still mirror
one another afterwards. -/
theorem known (hkeys : ∀ x ∈ names, x.keyless? = none) (hop : op.isKnown names = true) :
    ∃ r, (op.onBits b).1 = .ok r ∧ (op.onSeen t).1 = .ok r ∧
      (op.onBits b).2.Mirrors (op.onSeen t).2 names := by
  have hnode : ∀ x, op.value? = some x →
      x.keyless? = none ∧ ∃ k, (Numbering.ofNames names).place? x = some k := by
    intro x hx
    have hin : x.isIn names = true := by simpa [MarkOperation.isKnown, hx] using hop
    exact ⟨Identifier.keyless?_of_isIn hkeys hin, Numbering.exists_place hin⟩
  cases op with
  | mark x =>
    obtain ⟨hkey, k, hk⟩ := hnode x rfl
    exact h.mark hkey hk
  | isMarked x | contains x =>
    obtain ⟨hkey, k, hk⟩ := hnode x rfl
    obtain ⟨-, hasked, hheld⟩ := onBits_located (h.locate_eq hk)
    refine ⟨.truth (x.isIn t.members), ?_, ?_, h⟩
    · simp only [hasked, hheld, h.contains_eq hk]
    · simp [MarkOperation.onSeen, SeenSet.isMarked, Identifier.requireKey, hkey, bind, Except.bind,
        pure, Except.pure, Except.map]
  | count => exact ⟨_, rfl, by rw [MarkOperation.onSeen, h.count_eq], h⟩
  | clear | reset =>
    exact ⟨.nothing, rfl, rfl, h.size, h.indexing, List.Pairwise.nil,
      fun _ hx => absurd hx List.not_mem_nil, List.Perm.refl _⟩

end BitSet.Mirrors

end MaximalCliques
