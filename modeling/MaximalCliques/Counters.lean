/-!
# Counters of a search

* **`Counters`** — search nodes visited, candidates expanded and cliques delivered.
* **`Counters.add`** — the counters of two searches together; a commutative monoid.
-/

namespace MaximalCliques

structure Counters where
  /-- Search nodes visited, leaves included. -/
  calls : Int := 0
  /-- Candidates expanded. -/
  branches : Int := 0
  /-- Maximal cliques delivered. -/
  cliques : Int := 0
deriving DecidableEq, Repr

namespace Counters

def add (a b : Counters) : Counters :=
  ⟨a.calls + b.calls, a.branches + b.branches, a.cliques + b.cliques⟩

instance : Add Counters := ⟨add⟩

theorem add_assoc (a b c : Counters) : a + b + c = a + (b + c) := by
  simp only [HAdd.hAdd, Add.add, add, mk.injEq]
  exact ⟨Int.add_assoc .., Int.add_assoc .., Int.add_assoc ..⟩

theorem add_comm (a b : Counters) : a + b = b + a := by
  simp only [HAdd.hAdd, Add.add, add, mk.injEq]
  exact ⟨Int.add_comm .., Int.add_comm .., Int.add_comm ..⟩

theorem add_zero (a : Counters) : a + {} = a := by
  simp only [HAdd.hAdd, Add.add, add]
  simp

theorem add_calls (a : Counters) (n : Int) : a + { calls := n } = { a with calls := a.calls + n } := by
  simp only [HAdd.hAdd, Add.add, add]
  simp

theorem add_branches (a : Counters) (n : Int) :
    a + { branches := n } = { a with branches := a.branches + n } := by
  simp only [HAdd.hAdd, Add.add, add]
  simp

theorem add_cliques (a : Counters) (n : Int) :
    a + { cliques := n } = { a with cliques := a.cliques + n } := by
  simp only [HAdd.hAdd, Add.add, add]
  simp

end Counters

end MaximalCliques
