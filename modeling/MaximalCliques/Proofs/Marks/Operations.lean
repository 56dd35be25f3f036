import MaximalCliques.Session.Request

/-!
# Operations on sets of marks

A bit set and a seen set offer the same operations.  A bit set is addressed through the indices of nodes;
what an operation about a node does to it is said in terms of the index.

* **`MarkOperation`** — the operations, and what either set answers to them.
* **`BitSet.after`** — a bit set after several operations.
* **`BitSet.onBits_located`**, **`BitSet.onBits_refused`** — an operation about a node with an index below
  the size, and about any other value.
-/

namespace MaximalCliques

/-! ### The operations -/

inductive MarkOperation where
  | mark (x : Identifier)
  | isMarked (x : Identifier)
  | contains (x : Identifier)
  | count
  | clear
  /-- Asks the graph that the set is for to remove all marks. -/
  | reset

namespace MarkOperation

def value? : MarkOperation → Option Identifier
  | mark x | isMarked x | contains x => some x
  | count | clear | reset => none

/-- What a bit set answers to an operation, and what it is afterwards. -/
def onBits (b : BitSet) : MarkOperation → Except Fault Reply × BitSet
  | mark x => match b.mark x with
    | .ok (isNew, b') => (.ok (.truth isNew), b')
    | .error e => (.error e, b)
  | isMarked x | contains x => ((b.isMarked x).map .truth, b)
  | count => (.ok (.number b.count), b)
  | clear | reset => (.ok .nothing, b.clear)

/-- What a seen set answers to an operation, and what it is afterwards. -/
def onSeen (t : SeenSet) : MarkOperation → Except Fault Reply × SeenSet
  | mark x => match t.mark x with
    | .ok (isNew, t') => (.ok (.truth isNew), t')
    | .error e => (.error e, t)
  | isMarked x | contains x => ((t.isMarked x).map .truth, t)
  | count => (.ok (.number t.count), t)
  | clear | reset => (.ok .nothing, t.clear)

end MarkOperation

def BitSet.after (b : BitSet) (ops : List MarkOperation) : BitSet :=
  ops.foldl (fun b op => (op.onBits b).2) b

namespace BitSet

variable {b : BitSet} {x : Identifier} {i : Nat} {e : Fault} {op : MarkOperation}

/-- A bit set that has been made has the size that it was made for, and no marks. -/
theorem ofSize_eq {room : Nat} {size : Int} {indexing : Indexing}
    (h : ofSize room size indexing = .ok b) :
    b = ⟨size.toNat, [], indexing⟩ ∧ 0 ≤ size := by
  unfold ofSize IndexSpace.forMarks at h
  split at h
  case isTrue => cases h
  case isFalse hsize =>
    split at h
    · cases h
    · split at h
      · cases h
      · cases h
        exact ⟨rfl, by omega⟩

/-! ### What an operation does -/

/-- **An operation about a node with an index below the size** is about that index. -/
theorem onBits_located (hx : b.locate x = .ok i) :
    (MarkOperation.mark x).onBits b = (.ok (.truth !(b.marked.contains i)),
      if b.marked.contains i then b else { b with marked := insertAscending i b.marked }) ∧
    (MarkOperation.isMarked x).onBits b = (.ok (.truth (b.marked.contains i)), b) ∧
    (MarkOperation.contains x).onBits b = (.ok (.truth (b.marked.contains i)), b) := by
  refine ⟨?_, ?_, ?_⟩
  · by_cases hi : i ∈ b.marked <;>
      simp [MarkOperation.onBits, mark, hx, bind, Except.bind, pure, Except.pure, hi]
  · simp [MarkOperation.onBits, isMarked, hx, bind, Except.bind, pure, Except.pure, Except.map]
  · simp [MarkOperation.onBits, isMarked, hx, bind, Except.bind, pure, Except.pure, Except.map]

/-- **An operation about a value without such an index** is refused and changes nothing. -/
theorem onBits_refused (hop : op.value? = some x) (hx : b.locate x = .error e) :
    op.onBits b = (.error e, b) := by
  cases op with
  | mark y =>
    cases hop
    simp [MarkOperation.onBits, mark, hx, bind, Except.bind]
  | isMarked y | contains y =>
    cases hop
    simp [MarkOperation.onBits, isMarked, hx, bind, Except.bind, Except.map]
  | count | clear | reset => cases hop

theorem locate_onBits (b : BitSet) (op : MarkOperation) :
    (op.onBits b).2.size = b.size ∧ (op.onBits b).2.indexing = b.indexing := by
  cases op with
  | mark x =>
    cases hx : b.locate x with
    | error e =>
      rw [onBits_refused rfl hx]
      exact ⟨rfl, rfl⟩
    | ok i =>
      rw [(onBits_located hx).1]
      split <;> exact ⟨rfl, rfl⟩
  | isMarked _ | contains _ | count | clear | reset => exact ⟨rfl, rfl⟩

/-! ### Ascending order -/

theorem ascending_insertAscending {js : List Nat} (hjs : js.Pairwise (· < ·)) (hi : i ∉ js) :
    (insertAscending i js).Pairwise (· < ·) := by
  induction js with
  | nil => simp [insertAscending]
  | cons j js ih =>
    obtain ⟨hj, hrest⟩ := List.pairwise_cons.1 hjs
    have hne : i ≠ j := fun h => hi (h ▸ List.mem_cons_self)
    unfold insertAscending
    split
    case isTrue hlt =>
      refine List.pairwise_cons.2 ⟨fun k hk => ?_, hjs⟩
      rcases List.mem_cons.1 hk with rfl | hk
      · exact hlt
      · have := hj k hk
        omega
    case isFalse hge =>
      refine List.pairwise_cons.2 ⟨fun k hk => ?_, ih hrest fun h => hi (List.mem_cons_of_mem j h)⟩
      rcases mem_insertAscending.1 hk with rfl | hk
      · omega
      · exact hj k hk

theorem perm_insertAscending (i : Nat) (js : List Nat) : (insertAscending i js).Perm (i :: js) := by
  induction js with
  | nil => exact List.Perm.refl _
  | cons j js ih =>
    unfold insertAscending
    split
    · exact List.Perm.refl _
    · exact (ih.cons j).trans (List.Perm.swap i j js)

end BitSet

end MaximalCliques
