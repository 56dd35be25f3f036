import Mathlib.Data.Finset.Card
import MaximalCliques.Proofs.Graph.Appearances
import MaximalCliques.Proofs.Identifier.Writing
import MaximalCliques.Settings

/-!
# Which graphs have an oracle, and which one

Too large an index space is refused at once.  Otherwise the first of what is asked for its index that has
none in the index space ends the building; if there is none, the oracle holds the pairs of indices that
have come up.

* **`Settings.capacity_of_toInt?`**, **`IndexSpace.forPairs_eq`** — which index spaces are too large.
* **`Oracle.Exact`** — an oracle that answers from given pairs, and for indices of its space only.
* **`Oracle.build_settles`** — building goes through what is asked for its index.
* **`Oracle.build_exact`** — which graphs have an oracle, and which one.
-/

namespace MaximalCliques

variable {σ : Type}

/-! ### The limit of the settings -/

theorem Comparison.holds_of_toInt? (c : Comparison) {x : Identifier} {m : Int}
    (h : x.toInt? = some m) (b : Int) :
    c.holds (.integer b) x = c.holds (.integer b) (.integer m) := by
  cases x with
  | integer n => rw [Option.some.inj h]
  | truth t =>
    rw [← Option.some.inj h]
    cases t <;> rfl
  | _ => cases h

theorem Comparison.above_holds_of_toInt? {x : Identifier} {b m : Int} (h : x.toInt? = some m) :
    above.holds (.integer b) x = .ok (decide (m < b)) := by
  rw [holds_of_toInt? above h, above_holds_integer]

/-- The largest index space is the number in the settings, as long as it is an index. -/
theorem Settings.capacity_of_toInt? (s : Settings) {m : Int} (h : s.maxOracleNodes.toInt? = some m) :
    ∃ limit, s.capacity = .ok limit ∧ limit.toInt? = some (min m largestIndex) := by
  unfold capacity
  rw [Comparison.holds_of_toInt? .below h, Comparison.below_holds_integer]
  by_cases hm : largestIndex < m
  · exact ⟨.integer largestIndex, by simp [hm, bind, Except.bind, pure, Except.pure],
      by rw [Int.min_eq_right hm.le]; rfl⟩
  · exact ⟨s.maxOracleNodes, by simp [hm, bind, Except.bind, pure, Except.pure],
      by rw [Int.min_eq_left (Int.not_lt.1 hm), h]⟩

/-- An index space of a size that is an index can be tabulated if its pairs have positions in memory and
the machine has room for them. -/
theorem IndexSpace.forPairs_eq {bound : Int} (room : Nat) (hbound : 0 ≤ bound)
    (hle : bound ≤ largestIndex) :
    (largestIndex < bound * bound → forPairs room bound = .error .tooManyPairs) ∧
      (bound * bound ≤ largestIndex → (room : Int) < bound * bound →
        forPairs room bound = .error (.outOfMemory [bound.toNat, bound.toNat])) ∧
      (bound * bound ≤ largestIndex → bound * bound ≤ room →
        forPairs room bound = .ok bound.toNat) := by
  have hword : fitsWord bound = true := by
    unfold fitsWord
    rw [Bool.and_eq_true, decide_eq_true_iff, decide_eq_true_iff]
    unfold largestIndex at hle ⊢
    constructor <;> omega
  unfold forPairs
  rw [hword, if_neg (by decide), if_neg (by omega)]
  refine ⟨fun h => if_pos h, fun h h' => ?_, fun h h' => ?_⟩
  · rw [if_neg (by omega), if_pos h']
  · rw [if_neg (by omega), if_neg (by omega)]

def IndexSpace.copyRefusal? (room n : Nat) : Option Fault :=
  if room < 2 * (n * n) then some (.outOfMemory [n, n]) else none

theorem IndexSpace.forCopy_eq_answerUnless (room n : Nat) :
    forCopy room n = answerUnless (copyRefusal? room n) () := by
  unfold forCopy copyRefusal?
  split <;> rfl

/-- A fault that is about a node or an index is one of an invalid node. -/
theorem Fault.families_of_node? {e : Fault} {x : Identifier} (h : e.node? = some x) :
    e.families = [.cliqueFault, .invalidNode, .lookup] := by
  cases e <;> first | rfl | cases h

/-! ### Answers of an oracle -/

/-- The number of pairs in a table is that of any list of them, each counted once. -/
theorem AdjacencyTable.count_eq (t : AdjacencyTable) {pairs : List (Nat × Nat)}
    (h : ∀ i j, t.holds i j = true ↔ (i, j) ∈ pairs) : t.count = pairs.toFinset.card := by
  have hnodup : t.pairs.toList.Nodup :=
    Std.HashSet.distinct_toList.imp fun hne heq => by simp [heq] at hne
  rw [AdjacencyTable.count, ← Std.HashSet.length_toList, ← List.toFinset_card_of_nodup hnodup]
  congr 1
  ext ⟨i, j⟩
  rw [List.mem_toFinset, List.mem_toFinset, Std.HashSet.mem_toList, ← h i j,
    AdjacencyTable.holds, Std.HashSet.contains_iff_mem]

namespace Oracle

/-- The answer for two indices: it is `b` if both lie below `n`, and refuses one of them that does not, which
is named if it has a text. -/
def AnswersWithin (n : Nat) (i j : Int) (b : Bool) (answer : Except Fault Bool) : Prop :=
  ((0 ≤ i ∧ i < n) ∧ (0 ≤ j ∧ j < n) → answer = .ok b) ∧
  (¬((0 ≤ i ∧ i < n) ∧ (0 ≤ j ∧ j < n)) →
    ∃ k, (k = i ∨ k = j) ∧ ¬(0 ≤ k ∧ k < n) ∧ ∃ e, answer = .error e ∧
      ((Identifier.integer k).isWritable = true → e = .indexOutOfRange (.integer k) n))

/-- What two accepted indices are answered with is an answer within the space. -/
theorem answersWithin_checkIndex (o : Oracle) (i j : Int) (answer : Nat → Nat → Bool) :
    AnswersWithin o.bound i j (answer i.toNat j.toNat) (do
      let i ← o.checkIndex i
      let j ← o.checkIndex j
      return answer i j) := by
  have hnamed : ∀ k : Int, (Identifier.integer k).isWritable = true →
      (Fault.indexOutOfRange (.integer k) o.bound).raised = .indexOutOfRange (.integer k) o.bound :=
    fun k hk => Fault.raised_eq_of_shown rfl hk
  constructor
  · rintro ⟨hi, hj⟩
    simp only [checkIndex, if_pos hi, if_pos hj, bind, Except.bind, pure, Except.pure]
  · intro hout
    by_cases hi : 0 ≤ i ∧ i < o.bound
    · have hj : ¬(0 ≤ j ∧ j < o.bound) := fun hj => hout ⟨hi, hj⟩
      refine ⟨j, .inr rfl, hj, _, ?_, hnamed j⟩
      simp only [checkIndex, if_pos hi, if_neg hj, bind, Except.bind]
    · refine ⟨i, .inl rfl, hi, _, ?_, hnamed i⟩
      simp only [checkIndex, if_neg hi, bind, Except.bind]

theorem isAdjacentAt_integer (o : Oracle) (i j : Int) :
    o.isAdjacentAt (.integer i) (.integer j) = o.isAdjacentIndex i j := by
  have hwithin : ∀ k : Int, (Identifier.integer k).isWithin o.bound
      = .ok (decide (0 ≤ k ∧ k < o.bound)) := by
    intro k
    rw [Identifier.isWithin, Comparison.notAbove_holds_integer, Comparison.below_holds_integer]
    by_cases hk : 0 ≤ k
    · simp [hk, bind, Except.bind]
    · simp [hk, bind, Except.bind, pure, Except.pure]
  by_cases hi : 0 ≤ i ∧ i < o.bound
  · by_cases hj : 0 ≤ j ∧ j < o.bound
    · simp [isAdjacentAt, isAdjacentIndex, checkIndex, hwithin, hi, hj, bind, Except.bind, pure,
        Except.pure]
    · simp [isAdjacentAt, isAdjacentIndex, checkIndex, hwithin, hi, hj, bind, Except.bind, pure,
        Except.pure, throw, throwThe, MonadExceptOf.throw]
  · simp [isAdjacentAt, isAdjacentIndex, checkIndex, hwithin, hi, bind, Except.bind, throw, throwThe,
      MonadExceptOf.throw]

/-- **An oracle that answers from given pairs**, for indices below `n` and for no others.  Its answers
about nodes are those about their indices. -/
structure Exact (o : Oracle) (g : Access σ) (n : Nat) (pairs : List (Nat × Nat)) : Prop where
  bound : o.bound = n
  holds : ∀ i j, o.table.holds i j = true ↔ (i, j) ∈ pairs
  within : ∀ p ∈ pairs, p.1 < n ∧ p.2 < n
  edgeCount : o.edgeCount = pairs.toFinset.card
  isAdjacentIndex : ∀ i j,
    AnswersWithin n i j (o.table.holds i.toNat j.toNat) (o.isAdjacentIndex i j)
  isAdjacentAt : ∀ i j : Int, o.isAdjacentAt (.integer i) (.integer j) = o.isAdjacentIndex i j
  isAdjacent : ∀ u v i j, g.index u = .ok i → g.index v = .ok j →
    AnswersWithin n i j (o.table.holds i.toNat j.toNat) (o.isAdjacent u v)
  isMutuallyAdjacent : ∀ u v i j, g.index u = .ok i → g.index v = .ok j →
    AnswersWithin n i j (o.table.holds i.toNat j.toNat && o.table.holds j.toNat i.toNat)
      (o.isMutuallyAdjacent u v)

theorem exact_of_holds {t : AdjacencyTable} {g : Access σ} {pairs : List (Nat × Nat)}
    (hholds : ∀ i j, t.holds i j = true ↔ (i, j) ∈ pairs)
    (hwithin : ∀ p ∈ pairs, p.1 < t.bound ∧ p.2 < t.bound) :
    Exact { table := t, index := g.index } g t.bound pairs where
  bound := rfl
  holds := hholds
  within := hwithin
  edgeCount := t.count_eq hholds
  isAdjacentIndex i j := answersWithin_checkIndex { table := t, index := g.index } i j t.holds
  isAdjacentAt i j := isAdjacentAt_integer _ i j
  isAdjacent u v i j hu hv := by
    have hanswer : Oracle.isAdjacent { table := t, index := g.index } u v
        = Oracle.isAdjacentIndex { table := t, index := g.index } i j := by
      simp only [Oracle.isAdjacent, hu, hv, bind, Except.bind]
    rw [hanswer]
    exact answersWithin_checkIndex { table := t, index := g.index } i j t.holds
  isMutuallyAdjacent u v i j hu hv := by
    have hanswer : Oracle.isMutuallyAdjacent { table := t, index := g.index } u v = (do
        let i ← Oracle.checkIndex { table := t, index := g.index } i
        let j ← Oracle.checkIndex { table := t, index := g.index } j
        return t.holds i j && t.holds j i) := by
      simp only [Oracle.isMutuallyAdjacent, hu, hv, bind, Except.bind]
    rw [hanswer]
    exact answersWithin_checkIndex { table := t, index := g.index } i j
      fun i j => t.holds i j && t.holds j i

/-! ### Building -/

variable {g : Access σ} {a : Appearance} {I : σ → Prop}

/-- The index of a node that the graph has named is its position, unless the node is refused. -/
theorem indexWithin_eq_answerUnless (g : Access σ) (n : Nat) (x : Identifier) :
    indexWithin g n x = answerUnless (g.refusal? n x) (g.position x) := by
  unfold indexWithin Access.refusal? Access.position
  cases g.index x with
  | error e => rfl
  | ok i =>
    by_cases hi : 0 ≤ i ∧ i < (n : Int)
    · simp [hi, bind, Except.bind, pure, Except.pure, answerUnless]
    · simp [hi, bind, Except.bind, answerUnless, throw, throwThe, MonadExceptOf.throw]

/-- **Entering a node** ends at the first of the node and its neighbours that is refused. -/
theorem enterNode_settles {t : AdjacencyTable} {u : Identifier} (ha : a.Of g I t.bound)
    (hu : u ∈ a.listed g) : (enterNode g t u).Settles I
      ((u :: a.reported u).findSome? (g.refusal? t.bound))
      (t.enterRow (g.position u) g.position (a.reported u)) := by
  rw [findSome?_cons_eq_or]
  unfold enterNode
  rw [indexWithin_eq_answerUnless]
  refine (Query.settles_ofExcept I _ _).bind fun hindexed => ?_
  obtain ⟨hsequence, htested⟩ := ha.followed u hu (Access.refusal?_eq_none.1 hindexed)
  refine .bind (r := none) hsequence fun _ => ?_
  refine Access.foldItems_settles (J := fun t' : AdjacencyTable => t'.bound = t.bound)
    (k := fun t' v => t'.insert (g.position u) (g.position v)) htested (fun t' ht' v _ => ⟨?_, ht'⟩) rfl
  rw [indexWithin_eq_answerUnless, ht']
  have hentered := (Query.settles_ofExcept I (g.refusal? t.bound v) (g.position v)).bind
    (k := fun j => pure (t'.insert (g.position u) j)) fun _ => Query.settles_pure I _
  rwa [Option.or_none] at hentered

/-- **Building an oracle** ends at the first of what is asked for its index that is refused, and otherwise
where the table cannot be copied. -/
theorem build_settles {limit : Identifier} {n : Nat}
    (hwithin : Comparison.above.holds (.integer g.bound) limit = .ok false)
    (hn : IndexSpace.forPairs g.machine.room g.bound = .ok n) (ha : a.Of g I n) :
    (build g limit).Settles I
      (((a.walk g).findSome? (g.refusal? n)).or (IndexSpace.copyRefusal? g.machine.room n))
      { table := .enterRows (.empty n) g.position g.position a.reported (a.listed g)
        index := g.index } := by
  have htable : (g.foldItems (enterNode g) (.empty n) g.nodes).Settles I
      ((a.listed g).findSome? fun u => (u :: a.reported u).findSome? (g.refusal? n))
      (.enterRows (.empty n) g.position g.position a.reported (a.listed g)) :=
    Access.foldItems_settles (J := fun t : AdjacencyTable => t.bound = n) ha.tested
      (fun t ht u hu => by
        rw [← ht] at ha ⊢
        exact ⟨enterNode_settles ha hu, AdjacencyTable.bound_enterRow _ _ _ _⟩) rfl
  have hcopied := (Query.settles_ofExcept I (IndexSpace.copyRefusal? g.machine.room n) ()).bind
    (k := fun _ => pure { table := .enterRows (.empty n) g.position g.position a.reported (a.listed g),
                          index := g.index : Oracle }) fun _ => Query.settles_pure I _
  rw [Option.or_none, ← IndexSpace.forCopy_eq_answerUnless] at hcopied
  have hbuilt := htable.bind (k := fun table => do
    Query.ofExcept (IndexSpace.forCopy g.machine.room n)
    return { table, index := g.index : Oracle }) fun _ => hcopied
  rw [← findSome?_flatMap (fun u => u :: a.reported u)] at hbuilt
  unfold build
  simp only [hwithin, hn]
  exact hbuilt

/-- **What comes of a graph whose index space has size `n`.**  The first of what is asked for its index
that has none below `n` is refused: for the reason that the index gives, or because it lies outside; the
fault names it if the reason does and the index and the node have texts.  If there is none, the oracle
answers from the pairs, if the machine has room for a second table. -/
structure BuiltFrom (g : Access σ) (a : Appearance) (n : Nat) (answer : Except Fault Oracle) :
    Prop where
  refused : ∀ before x after, a.walk g = before ++ x :: after → (∀ y ∈ before, g.Indexes n y) →
    ¬g.Indexes n x → ∃ e, answer = .error e ∧
      (g.index x = .error e ∨
        ∃ i : Int, g.index x = .ok i ∧ ¬(0 ≤ i ∧ i < n) ∧ (x.isWritable = true →
          (Identifier.integer i).isWritable = true → e = .nodeOutOfRange x i n)) ∧
      ((∀ e, g.index x = .error e → e.node? = some x) → x.isWritable = true →
        (∀ i : Int, g.index x = .ok i → (Identifier.integer i).isWritable = true) →
          e.node? = some x ∧ e.families = [.cliqueFault, .invalidNode, .lookup])
  uncopied : (∀ x ∈ a.walk g, g.Indexes n x) → g.machine.room < 2 * (n * n) →
    answer = .error (.outOfMemory [n, n])
  built : (∀ x ∈ a.walk g, g.Indexes n x) → 2 * (n * n) ≤ g.machine.room →
    ∃ o, answer = .ok o ∧ o.Exact g n (a.pairs g)

/-- The first reason to refuse what is asked for its index decides, and then the room for a copy. -/
theorem builtFrom_answerUnless (g : Access σ) (a : Appearance) (n : Nat) :
    BuiltFrom g a n (answerUnless
      (((a.walk g).findSome? (g.refusal? n)).or (IndexSpace.copyRefusal? g.machine.room n))
      { table := .enterRows (.empty n) g.position g.position a.reported (a.listed g)
        index := g.index }) where
  refused before x after hwalk hbefore hx := by
    have hnone : before.findSome? (g.refusal? n) = none :=
      List.findSome?_eq_none_iff.2 fun y hy => Access.refusal?_eq_none.2 (hbefore y hy)
    cases he : g.refusal? n x with
    | none => exact absurd (Access.refusal?_eq_none.1 he) hx
    | some e =>
      have hreason := Access.refusal?_eq_some he
      have houtside : ∀ i : Int, x.isWritable = true → (Identifier.integer i).isWritable = true →
          (Fault.nodeOutOfRange x i n).raised = .nodeOutOfRange x i n :=
        fun i hnode hindex => Fault.raised_eq_of_shown_pair rfl hindex hnode
      refine ⟨e, ?_, ?_, fun hnamed hnode hindex => ?_⟩
      · rw [hwalk, List.findSome?_append, hnone, findSome?_cons_eq_or, he]
        rfl
      · rcases hreason with hrefused | ⟨i, hi, hout, rfl⟩
        · exact .inl hrefused
        · exact .inr ⟨i, hi, hout, houtside i⟩
      · have hnode : e.node? = some x := by
          rcases hreason with hrefused | ⟨i, hi, -, rfl⟩
          · exact hnamed e hrefused
          · rw [houtside i hnode (hindex i hi)]
            rfl
        exact ⟨hnode, Fault.families_of_node? hnode⟩
  uncopied hall hroom := by
    rw [List.findSome?_eq_none_iff.2 fun x hx => Access.refusal?_eq_none.2 (hall x hx),
      IndexSpace.copyRefusal?, if_pos hroom]
    rfl
  built hall hroom := by
    rw [List.findSome?_eq_none_iff.2 fun x hx => Access.refusal?_eq_none.2 (hall x hx),
      IndexSpace.copyRefusal?, if_neg (by omega)]
    refine ⟨_, rfl, ?_⟩
    have hbound : (AdjacencyTable.enterRows (.empty n) g.position g.position a.reported
        (a.listed g)).bound = n := AdjacencyTable.bound_enterRows _ _ _ _ _
    nth_rewrite 2 [← hbound]
    refine exact_of_holds (fun i j => ?_) ?_
    · rw [AdjacencyTable.holds_enterRows, AdjacencyTable.holds_empty, Appearance.mem_pairs]
      simp only [Bool.false_eq_true, or_false]
    · rintro ⟨i, j⟩ hp
      obtain ⟨u, hu, v, hv, rfl, rfl⟩ := Appearance.mem_pairs.1 hp
      rw [AdjacencyTable.bound_enterRows]
      exact ⟨(hall u (List.mem_flatMap.2 ⟨u, hu, List.mem_cons_self⟩)).position_lt,
        (hall v (List.mem_flatMap.2 ⟨u, hu, List.mem_cons_of_mem u hv⟩)).position_lt⟩

/-- Every graph with this index space is refused for the reason, on this machine, in every state and without
a change. -/
def RefusesAtOnce (g : Access σ) (limit : Identifier) (e : Fault) : Prop :=
  ∀ h : Access σ, h.bound = g.bound → h.machine = g.machine → ∀ w, (build h limit).run w = (.error e, w)

theorem refusesAtOnce_of_exceeds {limit : Identifier}
    (hexceeds : Comparison.above.holds (.integer g.bound) limit = .ok true) :
    RefusesAtOnce g limit (Fault.capacityExceeded (.integer g.bound) limit).raised := by
  intro h hbound _ w
  rw [build, hbound, hexceeds]
  rfl

/-- An index space within the limit that cannot be tabulated is refused at once. -/
theorem refusesAtOnce_of_forPairs {limit : Identifier} {e : Fault}
    (hwithin : Comparison.above.holds (.integer g.bound) limit = .ok false)
    (he : IndexSpace.forPairs g.machine.room g.bound = .error e) : RefusesAtOnce g limit e := by
  intro h hbound hmachine w
  simp only [build, hbound, hmachine, hwithin, he]
  rfl

/-- **Which graphs have an oracle, and which one.**  A graph whose index space exceeds the limit of the
settings is refused before it is asked for anything, as too large if its size has a text; and so is one
whose pairs are more than positions in memory, or than the machine has room for.  Of any other graph whatever
is asked for its index decides, in its order. -/
theorem build_exact {settings : Settings} {m : Int}
    (hm : settings.maxOracleNodes.toInt? = some m) (hbound : 0 ≤ g.bound) :
    ∃ limit, settings.capacity = .ok limit ∧ limit.toInt? = some (min m largestIndex) ∧
      (min m largestIndex < g.bound → ∃ e, RefusesAtOnce g limit e ∧
        ((Identifier.integer g.bound).isWritable = true → limit.isWritable = true →
          e = .capacityExceeded (.integer g.bound) limit)) ∧
      (g.bound ≤ min m largestIndex →
        (largestIndex < g.bound * g.bound → RefusesAtOnce g limit .tooManyPairs) ∧
        (g.bound * g.bound ≤ largestIndex → (g.machine.room : Int) < g.bound * g.bound →
          RefusesAtOnce g limit (.outOfMemory [g.bound.toNat, g.bound.toNat])) ∧
        (g.bound * g.bound ≤ largestIndex → g.bound * g.bound ≤ g.machine.room →
          ∀ (I : σ → Prop) (a : Appearance), a.Of g I g.bound.toNat → ∀ w, I w → ∃ answer v, I v ∧
            (build g limit).run w = (answer, v) ∧ BuiltFrom g a g.bound.toNat answer)) := by
  obtain ⟨limit, hcapacity, hlimit⟩ := settings.capacity_of_toInt? hm
  have habove := Comparison.above_holds_of_toInt? (b := g.bound) hlimit
  refine ⟨limit, hcapacity, hlimit, fun hexceeds => ?_, fun hle => ?_⟩
  · rw [decide_eq_true hexceeds] at habove
    exact ⟨_, refusesAtOnce_of_exceeds habove, fun hsize hmost =>
      Fault.raised_eq_of_shown_pair rfl hsize hmost⟩
  · rw [decide_eq_false (by omega)] at habove
    obtain ⟨hmany, hmemory, hroom⟩ := IndexSpace.forPairs_eq g.machine.room hbound (by omega)
    exact ⟨fun h => refusesAtOnce_of_forPairs habove (hmany h),
      fun h h' => refusesAtOnce_of_forPairs habove (hmemory h h'), fun h h' I a ha w hw => by
        obtain ⟨v, hv, hrun⟩ := build_settles habove (hroom h h') ha w hw
        exact ⟨_, v, hv, hrun, builtFrom_answerUnless g a _⟩⟩

end Oracle

/-- Two nodes that share an index, one of them listed twice, and a node whose index is negative. -/
def TableGraph.skewed : TableGraph where
  nodes := [.integer 1, .integer 2, .integer 1, .integer 3]
  bound := .integer 2
  indices := ⟨[(.integer 1, .integer 0), (.integer 2, .integer 0), (.integer 3, .integer (-1))]⟩
  outgoing := ⟨[(.integer 1, [.integer 2]), (.integer 2, [.integer 1, .integer 1])]⟩
  incoming := {}
  directed := true

/-- The node with the negative index is the one that is refused, after all that comes before it. -/
theorem Oracle.build_exact_skewed :
    ({} : Settings).maxOracleNodes.toInt? = some 16384 ∧
      0 ≤ ((Base.tableGraph 0 .skewed).access {}).bound ∧
      ∃ limit answer w, ({} : Settings).capacity = .ok limit ∧
        (build ((Base.tableGraph 0 .skewed).access {}) limit).run {} = (answer, w) ∧
        BuiltFrom ((Base.tableGraph 0 .skewed).access {}) (.ofTables .skewed) 2 answer ∧
        ∃ e, answer = .error e ∧ e.node? = some (.integer 3) := by
  have hm : ({} : Settings).maxOracleNodes.toInt? = some 16384 := rfl
  have hbound : 0 ≤ ((Base.tableGraph 0 .skewed).access {}).bound := by decide
  have hkeys : ∀ u ∈ TableGraph.skewed.nodes, u.keyless? = none := by decide
  obtain ⟨limit, hcapacity, -, -, hwithin⟩ := build_exact hm hbound
  obtain ⟨-, -, hroom⟩ := hwithin (by decide)
  obtain ⟨answer, w, -, hrun, hbuilt⟩ := hroom (by decide) (by decide) _ _
    (Appearance.ofTables_of 0 hkeys {} 2) {} trivial
  have hindexed : ∀ y ∈ [Identifier.integer 1, .integer 2, .integer 2, .integer 1, .integer 1,
      .integer 1, .integer 2], ((Base.tableGraph 0 .skewed).access {}).Indexes 2 y := by
    intro y hy
    simp only [List.mem_cons, List.not_mem_nil, or_false] at hy
    rcases hy with rfl | rfl | rfl | rfl | rfl | rfl | rfl <;> exact ⟨0, rfl, by decide⟩
  obtain ⟨e, he, -, hnamed⟩ := hbuilt.refused _ (.integer 3) [] rfl hindexed (by
    rintro ⟨i, hi, -⟩
    cases hi)
  exact ⟨hm, hbound, limit, answer, w, hcapacity, hrun, hbuilt, e, he,
    (hnamed (fun e he => by cases he) rfl fun i hi => by cases hi; rfl).1⟩

/-- A graph without nodes, whose index space has this size. -/
def TableGraph.bare (bound : Nat) : TableGraph where
  nodes := []
  bound := .integer bound
  indices := {}
  outgoing := {}
  incoming := {}
  directed := false

/-- An index space within the limit of the settings can be too large for its pairs, and the machine may have
room for one table of them and not for two.  An index space beyond the limit is not reported as such if its
size has no text. -/
theorem Oracle.build_vast :
    (Settings.capacity { maxOracleNodes := .integer 3037000500 } = .ok (.integer 3037000500) ∧
      ((Base.tableGraph 0 (.bare 3037000500)).access {}).bound = 3037000500 ∧
      ((Base.tableGraph 0 (.bare 3037000500)).access {}).nodes = [] ∧
      (build ((Base.tableGraph 0 (.bare 3037000500)).access {}) (.integer 3037000500)).run ({} : World)
        = (.error .tooManyPairs, {})) ∧
    (build ((Base.tableGraph 0 (.bare 2)).access { machine := { room := 7 } }) (.integer 16384)).run
        ({ machine := { room := 7 } } : World)
      = (.error (.outOfMemory [2, 2]), { machine := { room := 7 } }) ∧
    (build ((Base.tableGraph 0 (.bare (Nat.pow 10 Text.digitLimit))).access {}) (.integer 16384)).run
        ({} : World)
      = (.error .unwritable, {}) := by
  have hwithin : Comparison.above.holds (.integer 3037000500) (.integer 3037000500) = .ok false :=
    Comparison.above_holds_integer _ _
  have hexceeds : Comparison.above.holds .giant (.integer 16384) = .ok true := by
    have hlt : (16384 : Int) < (Nat.pow 10 Text.digitLimit : Nat) := by decide +kernel
    rw [Identifier.giant, Comparison.above_holds_integer, decide_eq_true hlt]
  refine ⟨⟨Settings.capacity_of_le rfl (by decide), rfl, rfl,
    refusesAtOnce_of_forPairs (g := (Base.tableGraph 0 (.bare 3037000500)).access {}) hwithin rfl _ rfl rfl
      {}⟩, rfl, ?_⟩
  have hrefused := refusesAtOnce_of_exceeds
    (g := (Base.tableGraph 0 (.bare (Nat.pow 10 Text.digitLimit))).access {}) hexceeds _ rfl rfl {}
  rwa [Fault.raised_eq_unwritable List.mem_cons_self Identifier.isWritable_giant] at hrefused

end MaximalCliques
