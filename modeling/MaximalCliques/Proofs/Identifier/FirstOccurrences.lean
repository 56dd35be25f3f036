import MaximalCliques.Proofs.Identifier.Listing

/-!
# The different nodes of a list in their order

A list may name a node more than once and in more than one spelling.  What is left of it when every node is
kept once is ordered by the places where the nodes come first.

* **`Identifier.FirstOccurrences`** — the nodes of a list, each once, where and how it comes first.
* **`Identifier.firstOccurrences_distinct`** — `distinct` keeps these.
-/

namespace MaximalCliques.Identifier

variable {x y : Identifier} {xs ys : List Identifier}

/-- **The different nodes of a list**: the nodes that the list names, spelled as they are spelled there
first, and ordered by the places where they come first. -/
structure FirstOccurrences (ys xs : List Identifier) : Prop where
  named : ∀ x : Identifier, x.isIn ys = x.isIn xs
  spelled : ∀ y ∈ ys, xs.find? (· == y) = some y
  ordered : ys.Pairwise fun x y => xs.findIdx (· == x) < xs.findIdx (· == y)

/-- A list names a node if the node comes first at a place of the list. -/
theorem findIdx_lt_length_iff : xs.findIdx (· == x) < xs.length ↔ x.isIn xs = true := by
  rw [List.findIdx_lt_length, isIn_iff]

/-- A node of a list comes first where it did before the list grew. -/
theorem findIdx_append_of_isIn (h : x.isIn xs = true) :
    (xs ++ ys).findIdx (· == x) = xs.findIdx (· == x) := by
  rw [List.findIdx_append, if_pos (findIdx_lt_length_iff.2 h)]

theorem length_le_findIdx_append (h : x.isIn xs = false) :
    xs.length ≤ (xs ++ ys).findIdx (· == x) := by
  have hbehind : ¬xs.findIdx (· == x) < xs.length := by
    rw [findIdx_lt_length_iff, h]
    exact Bool.false_ne_true
  rw [List.findIdx_append, if_neg hbehind]
  exact Nat.le_add_left _ _

/-- **Keeping first spellings** keeps every node of a list once, where it comes first. -/
theorem firstOccurrences_distinct (xs : List Identifier) : FirstOccurrences (distinct xs) xs := by
  refine ⟨fun _ => isIn_distinct, ?_, ?_⟩
  all_goals induction xs using List.reverseRecOn with
  | nil => simp [distinct]
  | append_singleton xs x ih => ?_
  · -- spellings
    have hkept : ∀ y ∈ distinct xs, (xs ++ [x]).find? (· == y) = some y := by
      intro y hy
      rw [List.find?_append, ih y hy, Option.some_or]
    rw [distinct_concat]
    split
    case isTrue => exact hkept
    case isFalse hx =>
      intro y hy
      rcases List.mem_append.1 hy with hy | hy
      · exact hkept y hy
      · rw [List.mem_singleton.1 hy]
        rw [isIn_distinct, isIn, List.any_eq_true] at hx
        have hnone : xs.find? (· == x) = none :=
          List.find?_eq_none.2 fun z hz hzx => hx ⟨z, hz, hzx⟩
        simp [List.find?_append, hnone]
  · -- places
    have hkept : (distinct xs).Pairwise fun u v =>
        (xs ++ [x]).findIdx (· == u) < (xs ++ [x]).findIdx (· == v) := by
      refine ih.imp_of_mem fun {u v} hu hv hlt => ?_
      rwa [findIdx_append_of_isIn (isIn_of_mem (mem_of_mem_distinct hu)),
        findIdx_append_of_isIn (isIn_of_mem (mem_of_mem_distinct hv))]
    rw [distinct_concat]
    split
    case isTrue => exact hkept
    case isFalse hx =>
      refine List.pairwise_append.2 ⟨hkept, List.pairwise_singleton _ x, fun u hu v hv => ?_⟩
      rw [isIn_distinct, Bool.not_eq_true] at hx
      rw [List.mem_singleton.1 hv, findIdx_append_of_isIn (isIn_of_mem (mem_of_mem_distinct hu))]
      calc xs.findIdx (· == u) < xs.length :=
            findIdx_lt_length_iff.2 (isIn_of_mem (mem_of_mem_distinct hu))
        _ ≤ (xs ++ [x]).findIdx (· == x) := length_le_findIdx_append hx

end MaximalCliques.Identifier
