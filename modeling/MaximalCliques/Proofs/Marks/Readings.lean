import Mathlib.Data.Rat.Floor
import MaximalCliques.Proofs.Identifier.Listing
import MaximalCliques.Proofs.Marks.Operations

/-!
# Bit sets addressed by value

A bit set without an indexing of its own reads each value as an integer: truth values are zero and one,
reals lose their fraction, texts are read as numerals.  So it tells values apart by their readings, which
for whole numbers is the same as telling the values apart.

* **`MarkOperation.visited`** — the values to be marked since all marks were last removed.
* **`BitSet.mem_marked_after`** — the marked indices are theirs.
* **`Indexing.ofIdentifier_congr`** — equal values are read alike.
* **`BitSet.ReadsByValue`** — what a bit set addressed by value answers, and what it refuses.
* **`BitSet.readsByValue`** — every such bit set does, after any operations.
-/

namespace MaximalCliques

/-! ### What has been marked -/

/-- The values to be marked by operations, since the last one that removes all marks. -/
def MarkOperation.visited (ops : List MarkOperation) : List Identifier :=
  ops.foldl (fun xs op => match op with
    | mark x => xs ++ [x]
    | clear | reset => []
    | isMarked _ | contains _ | count => xs) []

/-- What is answered about a value of which the index is marked or not: marking tells whether it was
unmarked. -/
def MarkOperation.replies (marked : Bool) : MarkOperation → Bool
  | mark _ => !marked
  | _ => marked

namespace BitSet

variable {b : BitSet} {x : Identifier} {i : Nat} {op : MarkOperation}

theorem after_concat (b : BitSet) (ops : List MarkOperation) (op : MarkOperation) :
    b.after (ops ++ [op]) = (op.onBits (b.after ops)).2 := by
  rw [after, List.foldl_append]
  rfl

theorem locate_after (b : BitSet) (ops : List MarkOperation) (x : Identifier) :
    (b.after ops).locate x = b.locate x := by
  induction ops generalizing b with
  | nil => rfl
  | cons op ops ih =>
    obtain ⟨hsize, hindexing⟩ := locate_onBits b op
    rw [after, List.foldl_cons, ← after, ih, locate, locate, hsize, hindexing]

/-- **What is answered about a located value.** -/
theorem answer_located (hx : b.locate x = .ok i) (hop : op.value? = some x) :
    (op.onBits b).1 = .ok (.truth (op.replies (b.marked.contains i))) := by
  obtain ⟨hmark, hmarked, hcontains⟩ := onBits_located hx
  cases op with
  | mark y =>
    cases hop
    rw [hmark]
    rfl
  | isMarked y =>
    cases hop
    rw [hmarked]
    rfl
  | contains y =>
    cases hop
    rw [hcontains]
    rfl
  | count | clear | reset => cases hop

/-- **The marked indices** of a set that was without marks are those of the values that were to be marked
since all marks were last removed. -/
theorem mem_marked_after (hempty : b.marked = []) (ops : List MarkOperation) :
    i ∈ (b.after ops).marked ↔ ∃ x ∈ MarkOperation.visited ops, b.locate x = .ok i := by
  induction ops using List.reverseRecOn with
  | nil =>
    show i ∈ b.marked ↔ ∃ x ∈ ([] : List Identifier), b.locate x = .ok i
    simp [hempty]
  | append_singleton ops op ih =>
    rw [after_concat]
    cases op with
    | mark x =>
      have hvisited : MarkOperation.visited (ops ++ [.mark x]) = MarkOperation.visited ops ++ [x] := by
        rw [MarkOperation.visited, List.foldl_append]
        rfl
      rw [hvisited]
      simp only [List.mem_append, List.mem_singleton, or_and_right, exists_or, exists_eq_left, ← ih]
      have hlocate := locate_after b ops x
      cases hx : b.locate x with
      | error e =>
        rw [onBits_refused rfl (hlocate.trans hx)]
        simp
      | ok k =>
        rw [(onBits_located (hlocate.trans hx)).1, Except.ok.injEq]
        by_cases hk : k ∈ (b.after ops).marked
        · simp only [List.contains_iff_mem, hk, if_true]
          constructor
          · exact .inl
          · rintro (h | rfl)
            · exact h
            · exact hk
        · simp only [List.contains_iff_mem, hk, if_false, mem_insertAscending]
          tauto
    | clear | reset =>
      rw [MarkOperation.visited, List.foldl_append]
      simp [MarkOperation.onBits, BitSet.clear]
    | isMarked _ | contains _ | count =>
      rw [MarkOperation.visited, List.foldl_append]
      exact ih

end BitSet

/-! ### Readings -/

theorem num_ediv_den_mkRat (m d : Nat) : (mkRat m d).num / ((mkRat m d).den : Int) = ((m / d : Nat) : Int) := by
  have hfloor : ⌊((m : Int) : Rat) / (d : Rat)⌋ = (m : Int) / (d : Int) :=
    Rat.floor_intCast_div_natCast m d
  rw [← Rat.mkRat_eq_div] at hfloor
  rw [← Rat.floor_def, Int.natCast_div]
  exact hfloor

/-- **A finite real loses its fraction.** -/
theorem Binary64.truncate?_eq {r : Binary64} {q : Rat} (h : r.toRat? = some q) :
    r.truncate? = some (q.num.tdiv q.den) := by
  cases r with
  | infinite negative => cases h
  | finite negative m e =>
    have hmagnitude : (mkRat (scaleUp 2 e m : Nat) (scaleUp 2 (-e) 1)).num.tdiv
        (mkRat (scaleUp 2 e m : Nat) (scaleUp 2 (-e) 1)).den
        = ((scaleUp 2 e m / scaleUp 2 (-e) 1 : Nat) : Int) := by
      rw [Int.tdiv_eq_ediv_of_nonneg (Rat.num_nonneg.2 (Rat.mkRat_nonneg (Int.natCast_nonneg _) _)),
        num_ediv_den_mkRat]
    simp only [toRat?, Option.some.injEq] at h
    simp only [truncate?, Option.some.injEq]
    rw [← h]
    cases negative with
    | false =>
      simp only [Bool.false_eq_true, if_false]
      exact hmagnitude.symm
    | true =>
      simp only [if_true, Rat.neg_num, Rat.neg_den, Int.neg_tdiv, hmagnitude]

namespace Indexing

variable {x y : Identifier} {n : Int}

theorem ofIdentifier_number {q : Rat} (h : x.identity = [.number q]) :
    ofIdentifier x = .ok (q.num.tdiv q.den) := by
  cases x with
  | truth b =>
    simp only [Identifier.identity, List.cons.injEq, Mark.number.injEq, and_true] at h
    rw [← h]
    cases b <;> rfl
  | integer n =>
    simp only [Identifier.identity, List.cons.injEq, Mark.number.injEq, and_true] at h
    rw [← h]
    simp [ofIdentifier]
  | real r =>
    cases hr : r.toRat? with
    | none => simp [Identifier.identity, hr] at h
    | some q' =>
      simp only [Identifier.identity, hr, List.cons.injEq, Mark.number.injEq, and_true] at h
      rw [← h]
      simp [ofIdentifier, Binary64.truncate?_eq hr]
  | absent | undefined _ | text _ | tuple _ | sequence _ | mapping _ =>
    simp [Identifier.identity] at h

theorem number_or_text (h : ofIdentifier x = .ok n) :
    (∃ q, x.identity = [.number q]) ∨ ∃ s, x = .text s := by
  cases x with
  | truth b => exact .inl ⟨_, rfl⟩
  | integer m => exact .inl ⟨_, rfl⟩
  | real r =>
    cases r with
    | infinite negative => simp [ofIdentifier, Binary64.truncate?] at h
    | finite negative m e => exact .inl ⟨_, rfl⟩
  | text s => exact .inr ⟨s, rfl⟩
  | absent | undefined _ | tuple _ | sequence _ | mapping _ => cases h

/-- **Equal values are read alike.** -/
theorem ofIdentifier_congr (hxy : (x == y) = true) (hx : ofIdentifier x = .ok n) :
    ofIdentifier y = .ok n := by
  have hidentity := Identifier.beq_iff.1 hxy
  rcases number_or_text hx with ⟨q, hq⟩ | ⟨s, rfl⟩
  · rw [ofIdentifier_number hq] at hx
    rw [hq] at hidentity
    rw [ofIdentifier_number hidentity.symm, ← hx]
  · -- no other value has the identity of a text
    have hy : y = .text s := by
      cases y with
      | text t => simpa [Identifier.identity] using hidentity.symm
      | truth _ | integer _ | absent | undefined _ | tuple _ | sequence _ | mapping _ =>
        simp [Identifier.identity] at hidentity
      | real r =>
        simp only [Identifier.identity, List.cons.injEq, and_true] at hidentity
        split at hidentity <;> cases hidentity
    rw [hy]
    exact hx

theorem ofIdentifier_whole (h : x.wholeValue? = some n) :
    x.identity = [.number n] ∧ ofIdentifier x = .ok n := by
  have hidentity : x.identity = [.number n] := by
    unfold Identifier.wholeValue? at h
    split at h
    case h_1 q hq =>
      split at h
      case isTrue hden =>
        have hnum : (n : Rat) = q := by
          rw [← Option.some.inj h]
          exact Rat.coe_int_num_of_den_eq_one hden
        rw [hq, hnum]
      case isFalse => cases h
    case h_2 => cases h
  refine ⟨hidentity, ?_⟩
  rw [ofIdentifier_number hidentity]
  simp

end Indexing

/-- The value is read as the whole number that it is, if it is read at all. -/
def Identifier.ReadsAsItself (x : Identifier) : Prop :=
  ∀ n, Indexing.ofIdentifier x = .ok n → x.wholeValue? = some n

/-- Every value is read as itself if it is read at all, but texts and reals with a fraction. -/
theorem Identifier.readsAsItself_of_whole {x : Identifier} (htext : ∀ s, x ≠ .text s)
    (hwhole : ∀ q : Rat, x.identity = [.number q] → q.den = 1) : x.ReadsAsItself := by
  intro n hn
  rcases Indexing.number_or_text hn with ⟨q, hq⟩ | ⟨s, hs⟩
  · rw [Indexing.ofIdentifier_number hq, hwhole q hq, Except.ok.injEq] at hn
    rw [wholeValue?, hq, ← hn]
    simp [hwhole q hq]
  · exact absurd hs (htext s)

/-! ### Bit sets addressed by value -/

/-- Why a value that is read as no index of a bit set is refused: an infinity for what it is, any other value
as an invalid node, unless it or the integer that it is read as has no text. -/
inductive Indexing.RefusedByValue (x : Identifier) : Fault → Prop where
  | infinite {negative : Bool} (h : x = .real (.infinite negative)) : RefusedByValue x .infiniteIndex
  | named {e : Fault} (hfinite : ∀ negative, x ≠ .real (.infinite negative))
      (hfamily : .invalidNode ∈ e.families) (hnode : e.node? = some x) : RefusedByValue x e
  | unwritable (hfinite : ∀ negative, x ≠ .real (.infinite negative))
      (h : x.isWritable = false ∨
        ∃ n, Indexing.ofIdentifier x = .ok n ∧ (Identifier.integer n).isWritable = false) :
      RefusedByValue x .unwritable

/-- **What a bit set addressed by value answers**, where these values have been visited. -/
structure BitSet.ReadsByValue (size : Int) (visited : List Identifier) (b : BitSet) : Prop where
  /-- A value that is read as an index below the size is marked iff some value of the same reading has been
  visited. -/
  read : ∀ (x : Identifier) (i : Nat), Indexing.ofIdentifier x = .ok (i : Int) → (i : Int) < size →
    ∃ marked : Bool, (marked = true ↔ ∃ y ∈ visited, Indexing.ofIdentifier y = .ok (i : Int)) ∧
      ∀ op : MarkOperation, op.value? = some x →
        (op.onBits b).1 = .ok (.truth (op.replies marked))
  /-- Any other value is refused and changes nothing. -/
  refused : ∀ (op : MarkOperation) (x : Identifier), op.value? = some x →
    (∀ i : Nat, Indexing.ofIdentifier x = .ok (i : Int) → size ≤ (i : Int)) →
    ∃ e, op.onBits b = (.error e, b) ∧ Indexing.RefusedByValue x e
  /-- A value that equals a visited one is not told apart from it. -/
  equal : ∀ (x : Identifier) (i : Nat), Indexing.ofIdentifier x = .ok (i : Int) → (i : Int) < size →
    x.isIn visited = true → ∀ op : MarkOperation, op.value? = some x →
      (op.onBits b).1 = .ok (.truth (op.replies true))
  /-- Values that are read as themselves are told apart. -/
  apart : ∀ (x : Identifier) (i : Nat), Indexing.ofIdentifier x = .ok (i : Int) → (i : Int) < size →
    x.ReadsAsItself → (∀ y ∈ visited, y.ReadsAsItself) → ∀ op : MarkOperation, op.value? = some x →
      (op.onBits b).1 = .ok (.truth (op.replies (x.isIn visited)))

namespace BitSet

variable {b : BitSet} {x : Identifier} {i : Nat}

/-- A value that is read as an index below the size is located there. -/
theorem locate_byValue (hindexing : b.indexing = .byValue)
    (hx : Indexing.ofIdentifier x = .ok (i : Int)) (hi : i < b.size) : b.locate x = .ok i := by
  simp [locate, hindexing, Indexing.index, hx, bind, Except.bind, pure, Except.pure, hi]

theorem read_of_locate (hindexing : b.indexing = .byValue) (hx : b.locate x = .ok i) :
    Indexing.ofIdentifier x = .ok (i : Int) ∧ i < b.size := by
  unfold locate at hx
  rw [hindexing] at hx
  cases hread : Indexing.ofIdentifier x with
  | error e => simp [Indexing.index, hread, bind, Except.bind] at hx
  | ok n =>
    simp only [Indexing.index, hread, bind, Except.bind] at hx
    split at hx
    case isTrue hrange =>
      have hni : n.toNat = i := by simpa [pure, Except.pure] using hx
      have hn : n = (i : Int) := by omega
      rw [hn] at hrange ⊢
      exact ⟨rfl, by omega⟩
    case isFalse => cases hx

/-- A value is refused as an invalid node if what the refusal shows has a text. -/
theorem refusedByValue_raised {e : Fault} (hfinite : ∀ negative, x ≠ .real (.infinite negative))
    (hfamily : .invalidNode ∈ e.families) (hnode : e.node? = some x)
    (hshown : ∀ y ∈ e.shown, y = x ∨ ∃ n, Indexing.ofIdentifier x = .ok n ∧ y = .integer n) :
    Indexing.RefusedByValue x e.raised := by
  unfold Fault.raised
  split
  case isTrue => exact .named hfinite hfamily hnode
  case isFalse h =>
    rw [Bool.not_eq_true, List.all_eq_false] at h
    obtain ⟨y, hy, hwritable⟩ := h
    rw [Bool.not_eq_true] at hwritable
    rcases hshown y hy with rfl | ⟨n, hn, rfl⟩
    · exact .unwritable hfinite (.inl hwritable)
    · exact .unwritable hfinite (.inr ⟨n, hn, hwritable⟩)

/-- **A value that is not located is refused.** -/
theorem locate_refused (hindexing : b.indexing = .byValue)
    (hx : ∀ i : Nat, Indexing.ofIdentifier x = .ok (i : Int) → b.size ≤ i) :
    ∃ e, b.locate x = .error e ∧ Indexing.RefusedByValue x e := by
  have hindex : b.indexing.index x = Indexing.ofIdentifier x := by rw [hindexing]; rfl
  cases hread : Indexing.ofIdentifier x with
  | ok n =>
    have hrange : ¬ (0 ≤ n ∧ n < (b.size : Int)) := by
      intro h
      have hn : n = (n.toNat : Int) := by omega
      have hsize := hx n.toNat (by rw [hread, ← hn])
      omega
    refine ⟨(Fault.nodeOutOfRange x n b.size).raised, ?_, refusedByValue_raised ?_
      (by simp [Fault.families]) rfl fun y hy => ?_⟩
    · simp only [locate, hindex, hread, bind, Except.bind, if_neg hrange]
      rfl
    · rintro negative rfl
      cases hread
    · rcases List.mem_pair.1 hy with rfl | rfl
      · exact .inr ⟨n, hread, rfl⟩
      · exact .inl rfl
  | error e =>
    refine ⟨e, by simp only [locate, hindex, hread, bind, Except.bind], ?_⟩
    have hother : (∀ negative, x ≠ .real (.infinite negative)) →
        Indexing.RefusedByValue x (Fault.notAnIndex x).raised := fun hfinite =>
      refusedByValue_raised hfinite (by simp [Fault.families]) rfl fun y hy =>
        .inl (List.mem_singleton.1 hy)
    cases x with
    | real r =>
      cases r with
      | infinite negative =>
        cases hread
        exact .infinite rfl
      | finite negative m k => cases hread
    | text s =>
      simp only [Indexing.ofIdentifier] at hread
      split at hread
      · cases hread
      · cases hread
        exact hother (by simp)
    | truth _ | integer _ => cases hread
    | absent | undefined _ | tuple _ | sequence _ | mapping _ =>
      cases hread
      exact hother (by simp)

/-- **A bit set addressed by value tells values apart by their readings**, after any operations. -/
theorem readsByValue {room : Nat} {size : Int} (hb : ofSize room size .byValue = .ok b)
    (ops : List MarkOperation) :
    (b.after ops).ReadsByValue size (MarkOperation.visited ops) := by
  obtain ⟨hempty, hsize⟩ := ofSize_eq hb
  have hindexing : b.indexing = .byValue := by rw [hempty]
  have hbound : (b.size : Int) = size := by
    rw [hempty]
    exact Int.toNat_of_nonneg hsize
  -- what is answered about a value depends on whether its index is marked, after the operations
  have hanswer : ∀ (x : Identifier) (i : Nat), Indexing.ofIdentifier x = .ok (i : Int) →
      (i : Int) < size → ∀ op : MarkOperation, op.value? = some x →
        (op.onBits (b.after ops)).1 = .ok (.truth (op.replies ((b.after ops).marked.contains i))) := by
    intro x i hx hi op hop
    have hlocate := locate_byValue hindexing hx (by omega)
    exact answer_located ((locate_after b ops x).trans hlocate) hop
  have hmarked : ∀ i : Nat, (i : Int) < size → ((b.after ops).marked.contains i = true ↔
      ∃ y ∈ MarkOperation.visited ops, Indexing.ofIdentifier y = .ok (i : Int)) := by
    intro i hi
    rw [List.contains_iff_mem, mem_marked_after (by rw [hempty])]
    refine exists_congr fun y => and_congr_right fun _ => ⟨fun hy => ?_, fun hy => ?_⟩
    · exact (read_of_locate hindexing hy).1
    · exact locate_byValue hindexing hy (by omega)
  have hequal : ∀ (x : Identifier) (i : Nat), Indexing.ofIdentifier x = .ok (i : Int) →
      (i : Int) < size → x.isIn (MarkOperation.visited ops) = true →
      (b.after ops).marked.contains i = true := by
    intro x i hx hi hin
    obtain ⟨y, hy, hyx⟩ := Identifier.isIn_iff.1 hin
    exact (hmarked i hi).2 ⟨y, hy, Indexing.ofIdentifier_congr (BEq.symm hyx) hx⟩
  refine ⟨fun x i hx hi => ⟨_, hmarked i hi, hanswer x i hx hi⟩, ?_, ?_, ?_⟩
  · intro op x hop hx
    obtain ⟨e, he, hkind⟩ := locate_refused hindexing fun i hi => by
      have := hx i hi
      omega
    exact ⟨e, onBits_refused hop ((locate_after b ops x).trans he), hkind⟩
  · intro x i hx hi hin op hop
    rw [hanswer x i hx hi op hop, hequal x i hx hi hin]
  · intro x i hx hi hitself hall op hop
    rw [hanswer x i hx hi op hop]
    congr 3
    rw [Bool.eq_iff_iff]
    refine ⟨fun h => ?_, hequal x i hx hi⟩
    obtain ⟨y, hy, hread⟩ := (hmarked i hi).1 h
    have hxwhole := (Indexing.ofIdentifier_whole (hitself _ hx)).1
    have hywhole := (Indexing.ofIdentifier_whole (hall y hy _ hread)).1
    exact Identifier.isIn_iff.2 ⟨y, hy, Identifier.beq_iff.2 (hywhole.trans hxwhole.symm)⟩

/-- Three indices, of which 1 has been visited: the bit set is asked about it in another spelling. -/
theorem readsByValue_three : ofSize 3 3 .byValue = .ok ⟨3, [], .byValue⟩ ∧
    ((⟨3, [], .byValue⟩ : BitSet).after [.mark (.integer 1)]).ReadsByValue 3 [.integer 1] ∧
    ((MarkOperation.isMarked (.truth true)).onBits
      ((⟨3, [], .byValue⟩ : BitSet).after [.mark (.integer 1)])).1 = .ok (.truth true) := by
  have hmade : ofSize 3 3 .byValue = .ok ⟨3, [], .byValue⟩ := rfl
  exact ⟨hmade, readsByValue hmade [.mark (.integer 1)], rfl⟩

/-- **A bit set addressed by value confuses values that are not equal, and an infinity is not refused as an
invalid node**: where 1 has been visited, so has one and a half. -/
theorem readsByValue_confused :
    (MarkOperation.isMarked (.real (.finite false 3 (-1)))).onBits
        ((⟨3, [], .byValue⟩ : BitSet).after [.mark (.integer 1)])
      = (.ok (.truth true), (⟨3, [], .byValue⟩ : BitSet).after [.mark (.integer 1)]) ∧
    (Identifier.real (.finite false 3 (-1)) == .integer 1) = false ∧
    (MarkOperation.mark (.real (.infinite false))).onBits
        ((⟨3, [], .byValue⟩ : BitSet).after [.mark (.integer 1)])
      = (.error .infiniteIndex, (⟨3, [], .byValue⟩ : BitSet).after [.mark (.integer 1)]) ∧
    Family.invalidNode ∉ Fault.infiniteIndex.families := by
  refine ⟨rfl, by decide +kernel, rfl, by decide⟩

end BitSet

end MaximalCliques
