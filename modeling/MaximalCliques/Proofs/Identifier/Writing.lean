import MaximalCliques.Fault
import Mathlib.Data.Nat.Digits.Defs

/-!
# Values that have no text

A fault is raised with its text, which shows the values that it is about.  An integer of more digits than a
numeral may have, and whatever holds such an integer, has no text; what is raised then is another fault,
about the text.

* **`Identifier.isWritable_integer`** — which integers have a text.
* **`Identifier.giant`** — the least integer that has none, counted from zero.
* **`Fault.raised_eq`**, **`Fault.raised_eq_unwritable`** — what is raised.
-/

namespace MaximalCliques

namespace Identifier

/-- An integer has a text if it lies below the power of ten that first has too many digits. -/
theorem isWritable_integer (n : Int) :
    (integer n).isWritable = true ↔ n.natAbs < Nat.pow 10 Text.digitLimit := by
  have hdigits : ∀ k, 0 < k → ((Nat.toDigits 10 n.natAbs).length ≤ k ↔ n.natAbs < Nat.pow 10 k) :=
    fun k hk => Nat.length_toDigits_le_iff (by decide) hk
  rw [isWritable, decide_eq_true_iff]
  exact hdigits Text.digitLimit (by decide)

/-- The least integer above zero that has no text. -/
def giant : Identifier := .integer (Nat.pow 10 Text.digitLimit)

theorem isWritable_giant : giant.isWritable = false := by
  rw [← Bool.not_eq_true, giant, isWritable_integer, Int.natAbs_natCast]
  exact Nat.lt_irrefl _

end Identifier

namespace Fault

variable {e : Fault} {x y : Identifier}

theorem raised_eq (h : ∀ x ∈ e.shown, x.isWritable = true) : e.raised = e :=
  if_pos (List.all_eq_true.2 h)

/-- A fault whose text shows one value. -/
theorem raised_eq_of_shown (hshown : e.shown = [x]) (h : x.isWritable = true) : e.raised = e :=
  raised_eq (hshown ▸ List.forall_mem_singleton.2 h)

/-- A fault whose text shows two values. -/
theorem raised_eq_of_shown_pair (hshown : e.shown = [x, y]) (hx : x.isWritable = true)
    (hy : y.isWritable = true) : e.raised = e :=
  raised_eq (hshown ▸ List.forall_mem_cons.2 ⟨hx, List.forall_mem_singleton.2 hy⟩)

theorem raised_eq_unwritable (hx : x ∈ e.shown) (h : x.isWritable = false) : e.raised = unwritable := by
  refine if_neg fun hall => ?_
  rw [List.all_eq_true.1 hall x hx] at h
  cases h

theorem raised_eq_or (e : Fault) : e.raised = e ∨ e.raised = unwritable := by
  unfold raised
  split
  · exact .inl rfl
  · exact .inr rfl

end Fault

end MaximalCliques
