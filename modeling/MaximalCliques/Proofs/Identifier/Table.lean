import Std.Data.HashMap.Lemmas
import Mathlib.Data.List.Enum

/-!
# Hash tables filled from a list

A table is filled by going through a list whose elements may each have an entry; of entries with equal
keys the last one counts.

* **`Filling`** — a step of the filling, by the entry that an element has.
* **`Filling.exists_of_getElem?`** — what a filled table gives comes from an element.
* **`Filling.isSome_getElem?`** — a filled table gives something for the key of an element.
* **`placesOf`** — the table of the places in a list.
-/

namespace MaximalCliques

variable {κ β γ : Type} [BEq κ] [Hashable κ] [EquivBEq κ] [LawfulHashable κ]

/-- The step puts the entry of an element into a table, if there is one. -/
def Filling (step : Std.HashMap κ β → γ → Std.HashMap κ β) (entry : γ → Option (κ × β)) : Prop :=
  ∀ m c, step m c = match entry c with
    | some (k, v) => m.insert k v
    | none => m

namespace Filling

variable {step : Std.HashMap κ β → γ → Std.HashMap κ β} {entry : γ → Option (κ × β)}
  (hstep : Filling step entry)
include hstep

/-- **What a filled table gives** comes from an element of the list, or was there before. -/
theorem exists_of_getElem? {cs : List γ} {m : Std.HashMap κ β} {y : κ} {v : β}
    (h : (cs.foldl step m)[y]? = some v) :
    (∃ c ∈ cs, ∃ k, entry c = some (k, v) ∧ (k == y) = true) ∨ m[y]? = some v := by
  induction cs generalizing m with
  | nil => exact .inr h
  | cons c cs ih =>
    rw [List.foldl_cons] at h
    rcases ih h with ⟨c', hc', hentry⟩ | h
    · exact .inl ⟨c', List.mem_cons_of_mem c hc', hentry⟩
    · rw [hstep] at h
      split at h
      case h_1 k v' hentry =>
        rw [Std.HashMap.getElem?_insert] at h
        split at h
        case isTrue hky =>
          rw [Option.some.inj h] at hentry
          exact .inl ⟨c, List.mem_cons_self, k, hentry, hky⟩
        case isFalse => exact .inr h
      case h_2 => exact .inr h

/-- **A filled table gives something** for the key of an element. -/
theorem isSome_getElem? {cs : List γ} {m : Std.HashMap κ β} {y : κ}
    (h : (∃ c ∈ cs, ∃ k v, entry c = some (k, v) ∧ (k == y) = true) ∨ m[y]?.isSome = true) :
    (cs.foldl step m)[y]?.isSome = true := by
  induction cs generalizing m with
  | nil =>
    rcases h with ⟨c, hc, _⟩ | h
    · exact absurd hc List.not_mem_nil
    · exact h
  | cons c cs ih =>
    rw [List.foldl_cons]
    have hkept : m[y]?.isSome = true → (step m c)[y]?.isSome = true := by
      intro hm
      rw [hstep]
      split
      · rw [Std.HashMap.getElem?_insert]
        split
        · rfl
        · exact hm
      · exact hm
    rcases h with ⟨c', hc', k, v, hentry, hky⟩ | h
    · rcases List.mem_cons.1 hc' with rfl | hc'
      · refine ih (.inr ?_)
        rw [hstep, hentry]
        show (m.insert k v)[y]?.isSome = true
        rw [Std.HashMap.getElem?_insert, if_pos hky]
        rfl
      · exact ih (.inl ⟨c', hc', k, v, hentry, hky⟩)
    · exact ih (.inr (hkept h))

end Filling

/-! ### Tables of places -/

def placesOf (xs : List κ) : Std.HashMap κ Nat := xs.zipIdx.foldl (fun m (x, i) => m.insert x i) ∅

omit [EquivBEq κ] [LawfulHashable κ] in
theorem filling_placesOf :
    Filling (fun (m : Std.HashMap κ Nat) (c : κ × Nat) => m.insert c.1 c.2) some :=
  fun _ _ => rfl

/-- At the place that a table of places gives for a key there is a spelling of the key. -/
theorem exists_of_placesOf {xs : List κ} {y : κ} {k : Nat} (h : (placesOf xs)[y]? = some k) :
    ∃ x, xs[k]? = some x ∧ (x == y) = true := by
  rcases filling_placesOf.exists_of_getElem? h with ⟨⟨x, i⟩, hx, z, hz, hzy⟩ | hempty
  · obtain ⟨rfl, rfl⟩ := Prod.mk.inj (Option.some.inj hz)
    exact ⟨x, List.mem_zipIdx_iff_getElem?.1 hx, hzy⟩
  · simp at hempty

/-- A table of places gives a place for every key of which the list has a spelling. -/
theorem isSome_placesOf {xs : List κ} {x y : κ} (hx : x ∈ xs) (hxy : (x == y) = true) :
    (placesOf xs)[y]?.isSome = true := by
  obtain ⟨k, hk⟩ := List.getElem?_of_mem hx
  exact filling_placesOf.isSome_getElem?
    (.inl ⟨(x, k), List.mem_zipIdx_iff_getElem?.2 hk, x, k, rfl, hxy⟩)

end MaximalCliques
