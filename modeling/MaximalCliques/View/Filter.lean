import MaximalCliques.View.Thing
import MaximalCliques.View.World

/-!
# Graphs seen through filters

* **`Filter.answer`** — a filter's answer about a node; **`Filter.test`** is that answer read as yes or
  no.
* **`Filter.testAll`**, **`Filter.testSource`** — the test of an item, and of a node whose neighbours are
  asked for, by a stack of filters.
* **`Thing.access`** — what an enumeration may ask of a thing: its base, restricted by each filter.
-/

namespace MaximalCliques

/-! ### Answers -/

def Notebook.note (x : Identifier) : Notebook → Query World Unit
  | trace place => modify (·.note place x)
  | unfit kind => throw (.lacking kind "append")

/-- The verdict of a rule about a node, which is noted first. -/
def Rule.judge (rule : Rule) (notebooks : List Notebook) (x : Identifier) : Query World Identifier := do
  notebooks.forM (Notebook.note x)
  Query.ofExcept (rule.verdict x)

namespace Filter

/-- The answer of a filter about a node. -/
def answer (x : Identifier) : Filter → Query World Identifier
  | rule _ r notebooks => do return .truth (← r.judge notebooks x).isTruthy
  | custom _ r notebooks => r.judge notebooks x
  | members set => do return .truth (← Query.ofExcept (set.isMarked x))
  | bits place => do
    match (← get).bitSets[place]? with
    | some b => return .truth (← Query.ofExcept (b.isMarked x))
    | none => throw (.unavailable "bit set")
  | seen place => do
    match (← get).seenSets[place]? with
    | some s => return .truth (← Query.ofExcept (s.isMarked x))
    | none => throw (.unavailable "seen set")
  | view _ outer _ => outer.answer x

def test (f : Filter) (x : Identifier) : Query World Bool := do return (← f.answer x).isTruthy

/-- The test of an item by a stack of filters: the innermost judges first, and the first refusal ends
the test. -/
def testAll : List Filter → Identifier → Query World Bool
  | [], _ => pure true
  | f :: inner, x => do if ← testAll inner x then f.test x else pure false

/-- Is a node admitted whose neighbours are asked for?  Every filter is asked, the outermost first. -/
def testSource : List Filter → Identifier → Query World Bool
  | [], _ => pure true
  | f :: inner, x => do
    let included ← f.test x
    return (← testSource inner x) && included

end Filter

/-! ### Graphs seen through filters -/

def Base.access (w : World) : Base → Access World
  | .network place =>
    let numbering := ((w.networks[place]?).map (·.numbering)).getD (.ofNames [])
    { bound := numbering.size
      index := (Indexing.byNumbering numbering).index
      nodes := numbering.names.toList
      follow := fun d x => do
        match (← get).networks[place]? with
        | some g => Query.ofExcept (match d with
          | none => g.neighbours x
          | some d => g.neighboursToward d x)
        | none => throw (.unavailable "network")
      admits := fun _ => pure true
      machine := w.machine }
  | .tableGraph _ g =>
    { bound := g.bound.toInt?.getD 0
      index := g.index
      nodes := g.nodes
      follow := fun d x => Query.ofExcept (match d with
        | none => g.neighbours x
        | some d => g.neighboursToward d x)
      admits := fun _ => pure true
      machine := w.machine }
  | base =>
    { bound := 0
      index := fun _ => .error (.refusal base.fullKindName "to_index")
      nodes := []
      follow := fun d _ =>
        throw (.refusal base.fullKindName (if d.isNone then "neighbors" else "neighbors_directed"))
      admits := fun _ => pure true
      machine := w.machine }

def Thing.access (g : Thing) (w : World) : Access World :=
  g.filters.foldr (fun f inner => inner.restrict f.test) (g.base.access w)

theorem Thing.admits_access (b : Base) (fs : List Filter) (w : World) (x : Identifier) :
    (Thing.access ⟨b, fs⟩ w).admits x = Filter.testAll fs x := by
  induction fs with
  | nil => cases b <;> rfl
  | cons f fs ih =>
    simp only [Thing.access, List.foldr_cons, Access.restrict, Filter.testAll] at ih ⊢
    rw [ih]

/-- The neighbours in a view are those in its base, if the node is admitted by all its filters. -/
theorem Thing.follow_access (b : Base) (fs : List Filter) (w : World) (d : Option Direction)
    (x : Identifier) :
    (Thing.access ⟨b, fs⟩ w).follow d x = do
      let included ← Filter.testSource fs x
      let items ← (b.access w).follow d x
      return if included then items else [] := by
  induction fs with
  | nil => simp [Thing.access, Filter.testSource]
  | cons f fs ih =>
    simp only [Thing.access, List.foldr_cons, Access.restrict, Filter.testSource] at ih ⊢
    rw [ih]
    simp only [bind_assoc, pure_bind]
    congr; funext included
    congr; funext inner
    congr; funext items
    cases included <;> cases inner <;> rfl

end MaximalCliques
