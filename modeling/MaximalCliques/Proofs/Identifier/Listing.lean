import Mathlib.Data.List.Induction
import MaximalCliques.Identifier

/-!
# Lists of identifiers as sets

Two spellings of one node are equal by `==` only, so membership in a list of nodes is membership of
some spelling.

* **`Identifier.isIn_iff`** — a node is in a list if the list holds a spelling of it.
* **`Identifier.sameSet_iff`** — lists that hold the same nodes.
* **`Identifier.PartOf`** — every node of a list is in another one.
* **`Identifier.distinct`** — its members are members of the list, no two of them name one node, and
  every node of the list is named.
-/

namespace MaximalCliques.Identifier

variable {x y : Identifier} {xs ys : List Identifier}

theorem isIn_iff : x.isIn xs = true ↔ ∃ y ∈ xs, (y == x) = true := by
  rw [isIn, List.any_eq_true]

theorem isIn_cons (x y : Identifier) (xs : List Identifier) :
    x.isIn (y :: xs) = (y == x || x.isIn xs) := rfl

theorem isIn_of_mem (h : x ∈ xs) : x.isIn xs = true :=
  isIn_iff.2 ⟨x, h, BEq.rfl⟩

theorem isIn_congr (h : (x == y) = true) : x.isIn xs = y.isIn xs := by
  rw [Bool.eq_iff_iff, isIn_iff, isIn_iff]
  exact exists_congr fun z => and_congr_right fun _ => by rw [BEq.congr_right h]

theorem sameSet_iff :
    sameSet xs ys = true ↔ (∀ x ∈ xs, x.isIn ys = true) ∧ ∀ y ∈ ys, y.isIn xs = true := by
  rw [sameSet, Bool.and_eq_true, List.all_eq_true, List.all_eq_true]

/-! ### Parts -/

def PartOf (xs ys : List Identifier) : Prop := ∀ x ∈ xs, x.isIn ys = true

namespace PartOf

variable {zs : List Identifier}

theorem refl (xs : List Identifier) : PartOf xs xs := fun _ hx => isIn_of_mem hx

theorem isIn (h : PartOf xs ys) (hx : x.isIn xs = true) : x.isIn ys = true := by
  obtain ⟨y, hy, hyx⟩ := isIn_iff.1 hx
  rw [← isIn_congr hyx]
  exact h y hy

theorem trans (h : PartOf xs ys) (h' : PartOf ys zs) : PartOf xs zs := fun x hx => h'.isIn (h x hx)

/-- Parts of a list that pass a test which does not depend on the spelling. -/
theorem filter (h : PartOf xs ys) {p : Identifier → Bool}
    (hp : ∀ x ∈ xs, ∀ y ∈ ys, (y == x) = true → p x = true → p y = true) :
    PartOf (xs.filter p) (ys.filter p) := by
  intro x hx
  obtain ⟨hx, hpx⟩ := List.mem_filter.1 hx
  obtain ⟨y, hy, hyx⟩ := isIn_iff.1 (h x hx)
  exact isIn_iff.2 ⟨y, List.mem_filter.2 ⟨hy, hp x hx y hy hyx hpx⟩, hyx⟩

end PartOf

theorem sameSet_iff_partOf : sameSet xs ys = true ↔ PartOf xs ys ∧ PartOf ys xs := sameSet_iff

theorem sameSet_comm (xs ys : List Identifier) : sameSet xs ys = sameSet ys xs := Bool.and_comm _ _

theorem sameSet_trans {zs : List Identifier} (h : sameSet xs ys = true) (h' : sameSet ys zs = true) :
    sameSet xs zs = true := by
  rw [sameSet_iff_partOf] at h h' ⊢
  exact ⟨h.1.trans h'.1, h'.2.trans h.2⟩

/-! ### First spellings -/

theorem distinct_concat (xs : List Identifier) (x : Identifier) :
    distinct (xs ++ [x]) = if x.isIn (distinct xs) then distinct xs else distinct xs ++ [x] := by
  rw [distinct, List.foldl_append]
  rfl

theorem mem_of_mem_distinct (h : x ∈ distinct xs) : x ∈ xs := by
  induction xs using List.reverseRecOn with
  | nil => exact h
  | append_singleton xs y ih =>
    rw [distinct_concat] at h
    split at h
    · exact List.mem_append_left [y] (ih h)
    · rcases List.mem_append.1 h with h | h
      · exact List.mem_append_left [y] (ih h)
      · exact List.mem_append_right xs h

theorem isIn_distinct : x.isIn (distinct xs) = x.isIn xs := by
  induction xs using List.reverseRecOn with
  | nil => rfl
  | append_singleton xs y ih =>
    rw [distinct_concat]
    have happend : ∀ zs : List Identifier, x.isIn (zs ++ [y]) = (x.isIn zs || y == x) := by
      intro zs
      simp [isIn]
    split
    case isTrue hy =>
      rw [ih, happend]
      cases hyx : y == x with
      | false => rw [Bool.or_false]
      | true => rw [Bool.or_true, ← ih, ← isIn_congr hyx, hy]
    case isFalse hy => rw [happend, happend, ih]

theorem pairwise_distinct (xs : List Identifier) :
    (distinct xs).Pairwise fun x y => (x == y) = false := by
  induction xs using List.reverseRecOn with
  | nil => exact List.Pairwise.nil
  | append_singleton xs y ih =>
    rw [distinct_concat]
    split
    case isTrue => exact ih
    case isFalse hy =>
      refine List.pairwise_append.2 ⟨ih, List.pairwise_singleton _ y, fun x hx z hz => ?_⟩
      rw [List.mem_singleton.1 hz]
      by_contra hxy
      rw [Bool.not_eq_false] at hxy
      exact hy (isIn_iff.2 ⟨x, hx, hxy⟩)

theorem pairwise_mergeSort_distinct (xs : List Identifier) (le : Identifier → Identifier → Bool) :
    ((distinct xs).mergeSort le).Pairwise fun x y => (x == y) = false := by
  refine (List.Perm.pairwise_iff ?_ (List.mergeSort_perm _ _)).2 (pairwise_distinct _)
  intro x y hxy
  rw [BEq.comm, hxy]

theorem place_inj (hxs : xs.Pairwise fun x y => (x == y) = false) {k l : Nat} (hx : xs[k]? = some x)
    (hy : xs[l]? = some y) (hxy : (x == y) = true) : k = l := by
  obtain ⟨hk, rfl⟩ := List.getElem?_eq_some_iff.1 hx
  obtain ⟨hl, rfl⟩ := List.getElem?_eq_some_iff.1 hy
  have hpair := List.pairwise_iff_getElem.1 hxs
  rcases Nat.lt_trichotomy k l with hlt | heq | hlt
  · rw [hpair k l hk hl hlt] at hxy
    exact absurd hxy (by decide)
  · exact heq
  · have hyx := BEq.symm hxy
    rw [hpair l k hl hk hlt] at hyx
    exact absurd hyx (by decide)

end MaximalCliques.Identifier
