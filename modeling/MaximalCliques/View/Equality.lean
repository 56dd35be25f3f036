import MaximalCliques.View.Value

/-!
# Equality of things

Views are equal if what they are over is equal and their filters are.  Sets and values are compared by
what they hold, counters by what they have counted, and all else that may change by place.  A table is
compared entry by entry, except that inside a view it equals itself.

* **`Filter.equals`** — are two filters equal?
* **`Thing.equals`** — are two things equal?  A comparison with a table may have no single answer.
-/

namespace MaximalCliques

/-- Is a table equal to a thing, entry by entry? -/
def AdjacencyTable.equals (w : World) (t : AdjacencyTable) (thing : Thing) : Except Fault Bool := do
  onlyAnswer (← t.toBlock.compare (← thing.toBlock w))

/-- Is a base equal to something that is neither a value nor a table? -/
def Base.equalsOther : Base → Except Fault Bool
  | .table _ t => do onlyAnswer (← t.toBlock.compare (← Identifier.absent.toBlock))
  | _ => .ok false

mutual

def Base.equals (w : World) : Base → Base → Except Fault Bool
  | .network p, .network q => .ok (p == q)
  | .tableGraph m _, .tableGraph n _ => .ok (m == n)
  | .filter f, .filter g => f.equals w g
  | .bits p, .bits q => .ok (p == q)
  | .seen p, .seen q => .ok (p == q)
  | .oracle m _, .oracle n _ => .ok (m == n)
  | .table m t, .table n u => if m = n then .ok true else t.equals w ⟨.table n u, []⟩
  | .table _ t, b => t.equals w ⟨b, []⟩
  | b, .table _ t => t.equals w ⟨b, []⟩
  | .tally p, .tally q => .ok (w.tally p == w.tally q)
  | .sequence p _, .sequence q _ => .ok (p == q)
  | .enumeration p, .enumeration q => .ok (p == q)
  | a, b => match a.value? w, b.value? w with
    | some x, some y => .ok (x == y)
    | _, _ => .ok false
termination_by structural a => a

def Filter.equals (w : World) : Filter → Filter → Except Fault Bool
  | .rule m .., .rule n .. => .ok (m == n)
  | .custom m .., .custom n .. => .ok (m == n)
  | .members s, .members t => .ok (s.sameMembers t)
  | .bits p, .bits q => .ok (p == q)
  | .seen p, .seen q => .ok (p == q)
  | .view b f fs, .view c g gs => do
    if ← Filter.equalsAll w b c (b.equals w c) fs gs then f.equals w g else return false
  | _, _ => .ok false
termination_by structural f => f

/-- Are two bases under filters equal, given whether the bases are?  What filters are over is compared
before the filters. -/
def Filter.equalsAll (w : World) (b c : Base) (bases : Except Fault Bool) :
    List Filter → List Filter → Except Fault Bool
  | [], [] => bases
  | f :: fs, g :: gs => do if ← Filter.equalsAll w b c bases fs gs then f.equals w g else return false
  | [], _ :: _ => b.equalsOther
  | _ :: _, [] => c.equalsOther
termination_by structural filters => filters

end

def Thing.equals (w : World) : Thing → Thing → Except Fault Bool
  | ⟨.table _ t, []⟩, b => t.equals w b
  | a, ⟨.table _ t, []⟩ => t.equals w a
  | a, b => Filter.equalsAll w a.base b.base (a.base.equals w b.base) a.filters b.filters

/-- Two views are equal if what they are over is and their outermost filters are. -/
theorem Thing.equals_view (w : World) (b c : Base) (f g : Filter) (fs gs : List Filter) :
    Thing.equals w ⟨b, f :: fs⟩ ⟨c, g :: gs⟩ = do
      if ← Filter.equalsAll w b c (b.equals w c) fs gs then f.equals w g else return false := by
  simp [Thing.equals, Filter.equalsAll]

end MaximalCliques
