import Mathlib.Data.List.Sort
import MaximalCliques.Proofs.Search.Mirror

/-!
# Listing the candidates in another order

How the candidates of a node are listed does not matter to the search below it: they are put in order
before anything is done with them, and else only counted.

* **`Plan.Linear`** — a plan that leaves one order of given vertices only.
* **`Plan.choose_perm`** — candidates that are listed in different orders are parted alike.
* **`Plan.expand_perm`** — below nodes with such candidates the same happens.
-/

namespace MaximalCliques.Plan

variable {α β : Type} {plan : Plan α}

/-- The order of a plan is linear. -/
structure Linear (plan : Plan α) : Prop where
  trans : ∀ u v w, plan.le u v = true → plan.le v w = true → plan.le u w = true
  total : ∀ u v, (plan.le u v || plan.le v u) = true
  antisymm : ∀ u v, plan.le u v = true → plan.le v u = true → u = v

theorem Linear.ordered_perm (hplan : plan.Linear) {us vs : List α} (h : us.Perm vs) :
    plan.ordered us = plan.ordered vs := by
  have hsorted : ∀ us, (plan.ordered us).Pairwise fun u v => plan.le u v = true :=
    List.pairwise_mergeSort hplan.trans hplan.total
  have hperm : (plan.ordered us).Perm (plan.ordered vs) :=
    (List.mergeSort_perm us plan.le).trans (h.trans (List.mergeSort_perm vs plan.le).symm)
  exact hperm.eq_of_pairwise (fun u v _ _ => hplan.antisymm u v) (hsorted us) (hsorted vs)

/-- The widest neighbourhood does not depend on the order of the candidates. -/
theorem widest_perm {P P' : List α} (h : P.Perm P') (hoods : List (Hood α)) :
    widest P hoods = widest P' hoods := by
  have hwider : wider P = wider P' := by
    funext best hood
    simp only [wider, h.countP_eq]
  rw [widest, widest, hwider]

/-- **Candidates that are listed in different orders** are parted alike. -/
theorem choose_perm (hplan : plan.Linear) {P P' : List α} (h : P.Perm P') (X : List α)
    {k : Split P → Run α β} {k' : Split P' → Run α β}
    (hk : ∀ s s', s.todo = s'.todo → s.kept = s'.kept → k s = k' s') :
    plan.choose P X k = plan.choose P' X k' := by
  have hordered := hplan.ordered_perm h
  have heveryone : k (plan.everyone P) = k' (plan.everyone P') := hk _ _ hordered rfl
  have houtside : ∀ hood, k (plan.outside hood P) = k' (plan.outside hood P') := by
    intro hood
    refine hk _ _ ?_ ?_
    · exact congrArg (List.filter fun u => !hood.has u) hordered
    · exact congrArg (List.filter hood.has) hordered
  unfold choose
  rw [h.isEmpty_eq, hplan.ordered_perm (h.append_right X), heveryone]
  simp only [widest_perm h, houtside]

/-- **Below nodes whose candidates are listed in different orders** the same happens. -/
theorem expand_perm (hplan : plan.Linear) {P P' : List α} (h : P.Perm P') (R X : List α)
    (next : Run α β) : ∃ rest, plan.expand ⟨R, P, X⟩ next = .visit ⟨R, P, X⟩ rest ∧
      plan.expand ⟨R, P', X⟩ next = .visit ⟨R, P', X⟩ rest := by
  have hmaximal : (⟨R, P, X⟩ : SearchNode α).isMaximal = (⟨R, P', X⟩ : SearchNode α).isMaximal := by
    rw [SearchNode.isMaximal, SearchNode.isMaximal, h.isEmpty_eq]
  have hloop : plan.choose P X (fun s => plan.explore R s.todo s.kept X next)
      = plan.choose P' X (fun s => plan.explore R s.todo s.kept X next) := by
    refine choose_perm hplan h X fun s s' htodo hkept => ?_
    rw [htodo, hkept]
  refine ⟨_, rfl, ?_⟩
  rw [hmaximal, hloop]
  rfl

end MaximalCliques.Plan
