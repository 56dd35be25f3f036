import MaximalCliques.Proofs.Graph.Orderly
import MaximalCliques.Proofs.Marks.Operations
import MaximalCliques.Session.Perform

/-!
# Requests about sets of marks

What a session does and answers when a set of marks that it holds is asked something.

* **`Session.ask`**, **`Session.askAll`** — requests, and what the session is afterwards.
* **`MarkOperation.request`** — an operation as a request.
* **`Session.ask_bits`**, **`Session.ask_seen`** — an operation does to the set that is held what it does to
  the set.
* **`Session.ask_makeVisitMap`**, **`Session.ask_openMarked`**, **`Session.ask_next`** — a bit set for a
  graph, and its marked indices delivered one by one.
-/

namespace MaximalCliques

def Session.ask (s : Session) (request : Request) : Except Fault Reply × Session :=
  (Action.perform request).run s

/-- What a session answers to several requests, and what it is afterwards. -/
def Session.askAll (s : Session) : List Request → List (Except Fault Reply) × Session
  | [] => ([], s)
  | request :: rest =>
    (((s.ask request).1 :: ((s.ask request).2.askAll rest).1), ((s.ask request).2.askAll rest).2)

theorem Session.performAll_eq (s : Session) (requests : List Request) :
    s.performAll (requests.map .ok) = (s.askAll requests).1 := by
  induction requests generalizing s with
  | nil => rfl
  | cons request rest ih =>
    have hrun : (Action.ofExcept (.ok request) >>= Action.perform).run s = s.ask request := rfl
    rw [List.map_cons, performAll, askAll]
    show ((Action.ofExcept (.ok request) >>= Action.perform).run s).1 ::
      ((Action.ofExcept (.ok request) >>= Action.perform).run s).2.performAll (rest.map .ok) = _
    rw [hrun, ih]

/-- The request that puts an operation to the set of a name; a graph of another name is asked to remove
the marks. -/
def MarkOperation.request (graph name : String) : MarkOperation → Request
  | mark x => .askMark name .mark x
  | isMarked x => .askMark name .isMarked x
  | contains x => .contains name x
  | count => .count name
  | clear => .clear name
  | reset => .resetMap graph name

namespace Session

/-! ### Sessions with something put back -/

def withBits (s : Session) (place : Nat) (b : BitSet) : Session :=
  { s with world := { s.world with bitSets := s.world.bitSets.setIfInBounds place b } }

def withSeen (s : Session) (place : Nat) (t : SeenSet) : Session :=
  { s with world := { s.world with seenSets := s.world.seenSets.setIfInBounds place t } }

def withSequence (s : Session) (place : Nat) (sequence : OpenSequence) : Session :=
  { s with sequences := s.sequences.setIfInBounds place sequence }

def pushBits (s : Session) (b : BitSet) : Session :=
  { s with world := { s.world with bitSets := s.world.bitSets.push b } }

def pushSeen (s : Session) (t : SeenSet) : Session :=
  { s with world := { s.world with seenSets := s.world.seenSets.push t } }

def pushSequence (s : Session) (sequence : OpenSequence) : Session :=
  { s with sequences := s.sequences.push sequence }

def named (s : Session) (name : String) (thing : Thing) : Session :=
  { s with names := (name, thing) :: s.names.filter (·.1 != name) }

variable {s : Session} {name other : String} {place p q : Nat} {b : BitSet} {t : SeenSet}

theorem setIfInBounds_self {α : Type} {xs : Array α} {i : Nat} {a : α} (h : xs[i]? = some a) :
    xs.setIfInBounds i a = xs := by
  obtain ⟨hlt, ha⟩ := Array.getElem?_eq_some_iff.1 h
  rw [Array.setIfInBounds_def, dif_pos hlt, ← ha]
  exact Array.set_getElem_self hlt

theorem withBits_self (h : s.world.bitSets[p]? = some b) : s.withBits p b = s := by
  rw [withBits, setIfInBounds_self h]

theorem withSeen_self (h : s.world.seenSets[q]? = some t) : s.withSeen q t = s := by
  rw [withSeen, setIfInBounds_self h]

theorem withSequence_self {sequence : OpenSequence} (h : s.sequences[place]? = some sequence) :
    s.withSequence place sequence = s := by
  rw [withSequence, setIfInBounds_self h]

theorem bitSets_withBits (h : s.world.bitSets[p]? = some b) (b' : BitSet) :
    (s.withBits p b').world.bitSets[p]? = some b' := by
  obtain ⟨hlt, -⟩ := Array.getElem?_eq_some_iff.1 h
  simp [withBits, hlt]

theorem seenSets_withSeen (h : s.world.seenSets[q]? = some t) (t' : SeenSet) :
    (s.withSeen q t').world.seenSets[q]? = some t' := by
  obtain ⟨hlt, -⟩ := Array.getElem?_eq_some_iff.1 h
  simp [withSeen, hlt]

theorem thing?_named (s : Session) (name : String) (thing : Thing) :
    (s.named name thing).thing? name = some thing := by
  simp [thing?, named]

theorem thing?_named_of_ne (h : other ≠ name) (thing : Thing) :
    (s.named name thing).thing? other = s.thing? other := by
  have hne : (name == other) = false := by simpa using h.symm
  have hfind : (s.names.filter (·.1 != name)).find? (·.1 == other)
      = s.names.find? (·.1 == other) := by
    rw [List.find?_filter]
    congr 1
    funext entry
    by_cases hentry : entry.1 = other
    · simp [hentry, h]
    · simp [hentry]
  show (((name, thing) :: s.names.filter (·.1 != name)).find? (·.1 == other)).map (·.2) = _
  rw [List.find?_cons_of_neg (by simp [hne]), hfind]
  rfl

/-! ### Looking things up -/

theorem run_find {thing : Thing} (h : s.thing? name = some thing) :
    (Action.find name).run s = (.ok thing, s) := by
  unfold Action.find
  rw [Query.run_bind_of_ok (rfl : (get : Action Session).run s = (.ok s, s)), h]
  rfl

theorem run_findGraph {thing : Thing} {operation : String} (h : s.thing? name = some thing)
    (hgraph : thing.base.refusal? operation = none) :
    (Action.findGraph name operation).run s = (.ok thing, s) := by
  unfold Action.findGraph
  rw [Query.run_bind_of_ok (run_find h), hgraph]
  rfl

theorem run_findView {thing : Thing} {operation : String} (h : s.thing? name = some thing)
    (hgraph : thing.base.refusal? operation = none) :
    (Action.findView name operation).run s = (.ok thing, s) := by
  obtain ⟨base, filters⟩ := thing
  unfold Action.findView
  rw [Query.run_bind_of_ok (run_find h)]
  cases filters with
  | nil => exact run_findGraph h hgraph
  | cons f fs => rfl

theorem run_bitSetAt (h : s.world.bitSets[p]? = some b) :
    (Action.bitSetAt p).run s = (.ok b, s) := by
  unfold Action.bitSetAt
  rw [Query.run_bind_of_ok (rfl : (get : Action Session).run s = (.ok s, s)), h]
  rfl

theorem run_seenSetAt (h : s.world.seenSets[q]? = some t) :
    (Action.seenSetAt q).run s = (.ok t, s) := by
  unfold Action.seenSetAt
  rw [Query.run_bind_of_ok (rfl : (get : Action Session).run s = (.ok s, s)), h]
  rfl

/-! ### Operations -/

section Asked

variable {thing : Thing} (hname : s.thing? name = some thing)
include hname

theorem ask_count :
    s.ask (.count name) = ((thing.size s.world).map fun (n : Nat) => .number n, s) := by
  show (do return Reply.number (← Action.ofExcept ((← Action.find name).size (← get).world))
    : Action Reply).run s = _
  rw [Query.run_bind_of_ok (run_find hname),
    Query.run_bind_of_ok (rfl : (get : Action Session).run s = (.ok s, s))]
  cases thing.size s.world <;> rfl

theorem ask_contains {x : Identifier} {answer : Except Fault Bool}
    (h : (Action.contains thing x).run s = (answer, s)) :
    s.ask (.contains name x) = (answer.map .truth, s) := by
  show (do return Reply.truth (← Action.contains (← Action.find name) x) : Action Reply).run s = _
  rw [Query.run_bind_of_ok (run_find hname), Query.run_bind, h]
  cases answer <;> rfl

omit hname in
theorem ask_clear {s' : Session} (h : (Action.clearMarks name).run s = (.ok (), s')) :
    s.ask (.clear name) = (.ok .nothing, s') := by
  show (do Action.clearMarks name; return Reply.nothing : Action Reply).run s = _
  rw [Query.run_bind_of_ok h]
  rfl

/-- A graph that is asked to remove marks has the set removed of them. -/
theorem ask_resetMap {graph : String} {g : Thing} (hgraph : s.thing? graph = some g)
    (hreset : g.base.refusal? "reset_map" = none) :
    s.ask (.resetMap graph name) = s.ask (.clear name) := by
  refine (Query.run_bind_of_ok (run_findView hgraph hreset)).trans ?_
  refine (Query.run_bind_of_ok (run_find hname)).trans ?_
  rw [hreset]
  rfl

end Asked

section Kept

variable {graph : String} {g : Thing} (hgraph : s.thing? graph = some g)
variable (hreset : g.base.refusal? "reset_map" = none)
include hgraph hreset

/-- **An operation on a bit set that is held.** -/
theorem ask_bits (hname : s.thing? name = some ⟨.bits p, []⟩) (hb : s.world.bitSets[p]? = some b)
    (op : MarkOperation) :
    s.ask (op.request graph name) = ((op.onBits b).1, s.withBits p (op.onBits b).2) := by
  have hclear : (Action.clearMarks name).run s = (.ok (), s.withBits p b.clear) := by
    unfold Action.clearMarks
    rw [Query.run_bind_of_ok (run_find hname)]
    simp only
    rw [Query.run_bind_of_ok (run_bitSetAt hb)]
    rfl
  cases op with
  | mark x =>
    show (Action.askMark name .mark x).run s = _
    unfold Action.askMark MarkOperation.onBits
    rw [Query.run_bind_of_ok (run_find hname)]
    simp only
    rw [Query.run_bind_of_ok (run_bitSetAt hb)]
    cases b.mark x with
    | error e =>
      rw [withBits_self hb]
      rfl
    | ok r => rfl
  | isMarked x =>
    show (Action.askMark name .isMarked x).run s = ((b.isMarked x).map .truth, s.withBits p b)
    unfold Action.askMark
    rw [Query.run_bind_of_ok (run_find hname), withBits_self hb]
    simp only
    rw [Query.run_bind_of_ok (run_bitSetAt hb)]
    cases b.isMarked x <;> rfl
  | contains x =>
    show s.ask (.contains name x) = ((b.isMarked x).map .truth, s.withBits p b)
    rw [withBits_self hb]
    refine ask_contains hname ?_
    unfold Action.contains
    rw [Query.run_bind_of_ok (run_bitSetAt hb)]
    rfl
  | count =>
    show s.ask (.count name) = (.ok (.number b.count), s.withBits p b)
    rw [withBits_self hb, ask_count hname]
    simp only [Thing.size, Base.size, hb]
    rfl
  | clear => exact ask_clear hclear
  | reset => exact (ask_resetMap hname hgraph hreset).trans (ask_clear hclear)

/-- **An operation on a seen set that is held.** -/
theorem ask_seen (hname : s.thing? name = some ⟨.seen q, []⟩) (ht : s.world.seenSets[q]? = some t)
    (op : MarkOperation) :
    s.ask (op.request graph name) = ((op.onSeen t).1, s.withSeen q (op.onSeen t).2) := by
  have hclear : (Action.clearMarks name).run s = (.ok (), s.withSeen q t.clear) := by
    unfold Action.clearMarks
    rw [Query.run_bind_of_ok (run_find hname)]
    simp only
    rw [Query.run_bind_of_ok (run_seenSetAt ht)]
    rfl
  cases op with
  | mark x =>
    show (Action.askMark name .mark x).run s = _
    unfold Action.askMark MarkOperation.onSeen
    rw [Query.run_bind_of_ok (run_find hname)]
    simp only
    rw [Query.run_bind_of_ok (run_seenSetAt ht)]
    cases t.mark x with
    | error e =>
      rw [withSeen_self ht]
      rfl
    | ok r => rfl
  | isMarked x =>
    show (Action.askMark name .isMarked x).run s = ((t.isMarked x).map .truth, s.withSeen q t)
    unfold Action.askMark
    rw [Query.run_bind_of_ok (run_find hname), withSeen_self ht]
    simp only
    rw [Query.run_bind_of_ok (run_seenSetAt ht)]
    cases t.isMarked x <;> rfl
  | contains x =>
    show s.ask (.contains name x) = ((t.isMarked x).map .truth, s.withSeen q t)
    rw [withSeen_self ht]
    refine ask_contains hname ?_
    unfold Action.contains
    rw [Query.run_bind_of_ok (run_seenSetAt ht)]
    rfl
  | count =>
    show s.ask (.count name) = (.ok (.number t.count), s.withSeen q t)
    rw [withSeen_self ht, ask_count hname]
    simp only [Thing.size, Base.size, ht]
    rfl
  | clear => exact ask_clear hclear
  | reset => exact (ask_resetMap hname hgraph hreset).trans (ask_clear hclear)

end Kept

/-! ### What the sets hold -/

theorem ask_marked (hname : s.thing? name = some ⟨.bits p, []⟩) (hb : s.world.bitSets[p]? = some b) :
    s.ask (.marked name) = (.ok (.values (b.marked.map fun (i : Nat) => .integer i)), s) := by
  refine (Query.run_bind_of_ok (run_find hname)).trans ?_
  exact Query.run_bind_of_ok (run_bitSetAt hb)

theorem ask_members (hname : s.thing? name = some ⟨.seen q, []⟩)
    (ht : s.world.seenSets[q]? = some t) : s.ask (.members name) = (.ok (.members t.members), s) := by
  have hitems : (Action.itemsOf ⟨.seen q, []⟩).run s = (.ok t.members, s) := by
    unfold Action.itemsOf
    rw [Query.run_bind_of_ok (run_seenSetAt ht)]
    rfl
  show (do return Reply.members (← Action.itemsOf (← Action.find name)) : Action Reply).run s = _
  rw [Query.run_bind_of_ok (run_find hname), Query.run_bind_of_ok hitems]
  rfl

theorem ask_indexOf {g : Thing} (hname : s.thing? name = some g)
    (hgraph : g.base.refusal? "to_index" = none) (x : Identifier) :
    s.ask (.indexOf name x) = ((g.base.indexOf s.world x).map .value, s) := by
  show (do
    let g ← Action.findGraph name "to_index"
    return Reply.value (← Action.ofExcept (g.base.indexOf (← get).world x)) : Action Reply).run s = _
  rw [Query.run_bind_of_ok (run_findGraph hname hgraph),
    Query.run_bind_of_ok (rfl : (get : Action Session).run s = (.ok s, s))]
  cases g.base.indexOf s.world x <;> rfl

/-! ### New sets -/

/-- A graph makes a bit set for its nodes, or tells why it cannot. -/
theorem ask_makeVisitMap {graph : String} {g : Thing} {n : Nat}
    (hgraph : s.thing? graph = some g) (hvisit : g.base.refusal? "visit_map" = none)
    (hbound : g.base.bound s.world = .integer n) :
    (∀ b, BitSet.ofSize s.world.machine.room n (g.base.indexing s.world) = .ok b →
      s.ask (.makeVisitMap name graph) =
        (.ok .nothing, (s.pushBits b).named name ⟨.bits s.world.bitSets.size, []⟩)) ∧
      ∀ e, BitSet.ofSize s.world.machine.room n (g.base.indexing s.world) = .error e →
        s.ask (.makeVisitMap name graph) = (.error e, s) := by
  have hsize : IndexSpace.sizeOf (g.base.bound s.world) = .ok (n : Int) := by
    have hbelow : Comparison.below.holds (.integer n) (.integer 0) = .ok false := by
      rw [Comparison.below_holds_integer]
      simp
    simp [IndexSpace.sizeOf, hbound, hbelow, bind, Except.bind, pure, Except.pure]
  have hasked : s.ask (.makeVisitMap name graph) = (do
      let b ← Action.ofExcept (BitSet.ofSize s.world.machine.room n (g.base.indexing s.world))
      Action.bindBase name (.bits (← Action.newBitSet b))
      return Reply.nothing : Action Reply).run s := by
    show (do
      let g ← Action.findGraph graph "visit_map"
      let w := (← get).world
      let size ← Action.ofExcept (IndexSpace.sizeOf (g.base.bound w))
      let b ← Action.ofExcept (BitSet.ofSize w.machine.room size (g.base.indexing w))
      Action.bindBase name (.bits (← Action.newBitSet b))
      return Reply.nothing : Action Reply).run s = _
    rw [Query.run_bind_of_ok (run_findGraph hgraph hvisit),
      Query.run_bind_of_ok (rfl : (get : Action Session).run s = (.ok s, s))]
    simp only [hsize]
    rw [Query.run_bind_of_ok (rfl : (Action.ofExcept (.ok (n : Int))).run s = (.ok (n : Int), s))]
  refine ⟨fun b hb => ?_, fun e he => ?_⟩
  · rw [hasked, hb]
    rfl
  · rw [hasked, he]
    rfl

theorem ask_makeSeenSet (s : Session) (name : String) :
    s.ask (.makeSeenSet name [])
      = (.ok .nothing, (s.pushSeen {}).named name ⟨.seen s.world.seenSets.size, []⟩) := rfl

/-! ### Marked indices delivered one by one -/

theorem ask_openMarked (hname : s.thing? name = some ⟨.bits p, []⟩)
    (hb : s.world.bitSets[p]? = some b) (z : String) :
    s.ask (.openMarked z name) = (.ok .nothing,
      (s.pushSequence { items := b.marked.map fun (i : Nat) => .integer i }).named z
        ⟨.sequence s.sequences.size "generator", []⟩) := by
  refine (Query.run_bind_of_ok (run_find hname)).trans ?_
  exact Query.run_bind_of_ok (run_bitSetAt hb)

/-- **The next item of a sequence** that neither filters nor watches. -/
theorem ask_next {kind : String} {items : List Identifier} {ended : Bool}
    (hname : s.thing? name = some ⟨.sequence place kind, []⟩)
    (hsequence : s.sequences[place]? = some { items, ended }) (hended : ended = true → items = []) :
    s.ask (.next name) = (.ok (.item items.head?),
      s.withSequence place { items := items.tail, ended := items.isEmpty }) := by
  have hnext : (Action.nextItem place).run s = (.ok items.head?,
      s.withSequence place { items := items.tail, ended := items.isEmpty }) := by
    unfold Action.nextItem
    rw [Query.run_bind_of_ok (rfl : (get : Action Session).run s = (.ok s, s)), hsequence]
    cases ended with
    | true =>
      rw [hended rfl] at hsequence ⊢
      rw [List.tail_nil, List.isEmpty_nil, withSequence_self hsequence]
      rfl
    | false => cases items <;> rfl
  refine (Query.run_bind_of_ok (run_find hname)).trans ?_
  exact Query.run_bind_of_ok hnext

end Session

end MaximalCliques
