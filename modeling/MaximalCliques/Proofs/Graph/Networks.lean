import MaximalCliques.Graph.Direction
import MaximalCliques.Graph.Network
import MaximalCliques.Proofs.Identifier.Listing

/-!
# Networks that hold together

However a network is made, its nodes are different keys and its links join nodes.  Its edges, listed at
one end or at both, say the same as the neighbours of its nodes.

* **`Identifier.keyless?_congr`** — whether a value can be a key does not depend on its spelling.
* **`Network.WellFormed`** — the nodes are different keys, and links join nodes; every way to make a
  network keeps that.
* **`Network.isIn_successors`** — the neighbours, by the links.
* **`Network.next`** — the neighbours in a direction; **`Network.isIn_next_comm`** says how two nodes see a
  link between them.
* **`Network.Lists`** — edges that are listed at least once each, and **`Network.lists_edges`** for the
  edges of a network.
-/

namespace MaximalCliques

/-! ### Keys -/

namespace Identifier

mutual

/-- A value can be a key if no sequence and no mapping begins in it. -/
theorem keyless?_eq_none_iff : (x : Identifier) →
    (x.keyless? = none ↔ Mark.openSequence ∉ x.identity ∧ Mark.openMapping ∉ x.identity)
  | absent | truth _ | integer _ | undefined _ | text _ => by simp [keyless?, identity]
  | real r => by
    simp only [keyless?, identity, List.mem_singleton, true_iff]
    cases r.toRat? <;> simp
  | tuple xs => by simpa [keyless?, identity] using firstKeyless?_eq_none_iff xs
  | sequence xs => by simp [keyless?, identity]
  | mapping es => by simp [keyless?, identity]

/-- The items of a tuple can be keys if no sequence and no mapping begins in them. -/
theorem firstKeyless?_eq_none_iff : (xs : List Identifier) →
    (firstKeyless? xs = none ↔
      Mark.openSequence ∉ identities xs ∧ Mark.openMapping ∉ identities xs)
  | [] => by simp [firstKeyless?, identities]
  | x :: xs => by
    have hx := keyless?_eq_none_iff x
    have hxs := firstKeyless?_eq_none_iff xs
    rw [firstKeyless?, identities, List.mem_append, List.mem_append]
    cases h : keyless? x with
    | some part =>
      rw [h] at hx
      simp only [reduceCtorEq, false_iff] at hx ⊢
      tauto
    | none =>
      rw [h] at hx
      simp only [true_iff] at hx
      rw [hxs]
      tauto

end

theorem keyless?_congr {x y : Identifier} (h : (x == y) = true) (hx : x.keyless? = none) :
    y.keyless? = none := by
  rw [keyless?_eq_none_iff] at hx ⊢
  rwa [← beq_iff.1 h]

theorem keyless?_of_isIn {names : List Identifier} (hkeys : ∀ x ∈ names, x.keyless? = none)
    {x : Identifier} (hx : x.isIn names = true) : x.keyless? = none := by
  obtain ⟨y, hy, hyx⟩ := isIn_iff.1 hx
  exact keyless?_congr hyx (hkeys y hy)

end Identifier

/-! ### Made step by step -/

/-- What holds in the beginning and is kept by every step holds in the end. -/
theorem foldlM_induction {α β : Type} {f : β → α → Except Fault β} {P : β → Prop}
    (hf : ∀ b a b', P b → f b a = .ok b' → P b') {xs : List α} {b r : β} (hb : P b)
    (h : xs.foldlM f b = .ok r) : P r := by
  induction xs generalizing b with
  | nil =>
    cases h
    exact hb
  | cons x xs ih =>
    rw [List.foldlM_cons] at h
    cases hx : f b x with
    | error e =>
      rw [hx] at h
      cases h
    | ok b' =>
      rw [hx] at h
      exact ih (hf b x b' hb hx) h

namespace Network

variable {g : Network} {x y : Identifier}

/-- **A network that holds together.**  Its nodes are different, all of them are keys, and its links join
nodes. -/
structure WellFormed (g : Network) : Prop where
  nodup : g.nodes.toList.Pairwise fun x y => (x == y) = false
  keys : ∀ x ∈ g.nodes.toList, x.keyless? = none
  closed : ∀ l ∈ g.links.toList,
    l.1.isIn g.nodes.toList = true ∧ l.2.isIn g.nodes.toList = true

theorem contains_eq (g : Network) (x : Identifier) : g.contains x = x.isIn g.nodes.toList := by
  rw [contains, Identifier.isIn, Array.any_toList]

/-- Adding a node adds it at the end, unless the network contains it. -/
theorem addNode_cases {g' : Network} (h : g.addNode x = .ok g') :
    (g.contains x = true ∧ g' = g) ∨
      (g.contains x = false ∧ x.keyless? = none ∧ g' = { g with nodes := g.nodes.push x }) := by
  unfold addNode at h
  cases hkey : x.keyless? with
  | some part =>
    simp [Identifier.requireKey, hkey, bind, Except.bind] at h
  | none =>
    simp only [Identifier.requireKey, hkey, bind, Except.bind] at h
    cases hx : g.contains x with
    | true => exact .inl ⟨rfl, by simpa [hx, pure, Except.pure] using h.symm⟩
    | false =>
      refine .inr ⟨rfl, rfl, ?_⟩
      cases x with
      | absent => simp [hx, throw, throwThe, MonadExceptOf.throw] at h
      | _ => simpa [hx, pure, Except.pure] using h.symm

theorem directed_addNode {g' : Network} (h : g.addNode x = .ok g') : g'.directed = g.directed := by
  rcases addNode_cases h with ⟨-, rfl⟩ | ⟨-, -, rfl⟩ <;> rfl

/-- Drawing a link leaves the directions, also if one of its ends is refused. -/
theorem directed_addLink (g : Network) (x y : Identifier) :
    (g.addLink x y).1.directed = g.directed := by
  unfold addLink
  cases hx : g.addNode x with
  | error e => rfl
  | ok g' =>
    cases hy : g'.addNode y with
    | error e =>
      simp only [hy]
      exact directed_addNode hx
    | ok g'' =>
      simp only [hy]
      exact (directed_addNode hy).trans (directed_addNode hx)

theorem wellFormed_empty (directed parallel : Bool) : WellFormed { directed, parallel } where
  nodup := List.Pairwise.nil
  keys _ h := absurd h List.not_mem_nil
  closed _ h := absurd h List.not_mem_nil

namespace WellFormed

variable (hg : g.WellFormed)
include hg

theorem addNode {g' : Network} (h : g.addNode x = .ok g') :
    g'.WellFormed ∧ x.isIn g'.nodes.toList = true ∧
      ∀ y : Identifier, y.isIn g.nodes.toList = true → y.isIn g'.nodes.toList = true := by
  rcases addNode_cases h with ⟨hx, rfl⟩ | ⟨hx, hkey, rfl⟩
  · rw [contains_eq] at hx
    exact ⟨hg, hx, fun y hy => hy⟩
  · have hkept : ∀ y : Identifier, y.isIn g.nodes.toList = true →
        y.isIn (g.nodes.push x).toList = true := by
      intro y hy
      obtain ⟨z, hz, hzy⟩ := Identifier.isIn_iff.1 hy
      rw [Array.toList_push]
      exact Identifier.isIn_iff.2 ⟨z, List.mem_append_left [x] hz, hzy⟩
    refine ⟨⟨?_, ?_, fun l hl => ⟨hkept _ (hg.closed l hl).1, hkept _ (hg.closed l hl).2⟩⟩, ?_, hkept⟩
    · rw [Array.toList_push]
      refine List.pairwise_append.2 ⟨hg.nodup, List.pairwise_singleton _ x, fun y hy z hz => ?_⟩
      rw [List.mem_singleton.1 hz]
      by_contra hyx
      rw [Bool.not_eq_false] at hyx
      rw [contains_eq, Identifier.isIn_iff.2 ⟨y, hy, hyx⟩] at hx
      exact Bool.noConfusion hx
    · rw [Array.toList_push]
      intro y hy
      rcases List.mem_append.1 hy with hy | hy
      · exact hg.keys y hy
      · rw [List.mem_singleton.1 hy]
        exact hkey
    · rw [Array.toList_push]
      exact Identifier.isIn_of_mem (List.mem_append_right _ List.mem_cons_self)

theorem push_link (hx : x.isIn g.nodes.toList = true) (hy : y.isIn g.nodes.toList = true) :
    WellFormed { g with links := g.links.push (x, y) } where
  nodup := hg.nodup
  keys := hg.keys
  closed l hl := by
    rw [Array.toList_push] at hl
    rcases List.mem_append.1 hl with hl | hl
    · exact hg.closed l hl
    · rw [List.mem_singleton.1 hl]
      exact ⟨hx, hy⟩

/-- Drawing a link keeps a network together, also if one of its ends is refused. -/
theorem addLink (x y : Identifier) : (g.addLink x y).1.WellFormed := by
  unfold Network.addLink
  cases hx : g.addNode x with
  | error e => exact hg
  | ok g' =>
    obtain ⟨hg', hx', -⟩ := hg.addNode hx
    cases hy : g'.addNode y with
    | error e =>
      simp only [hy]
      exact hg'
    | ok g'' =>
      obtain ⟨hg'', hy', hkept⟩ := hg'.addNode hy
      simp only [hy]
      exact hg''.push_link (hkept x hx') hy'

theorem addLinks {links : List Identifier} {g' : Network} (h : g.addLinks links = .ok g') :
    g'.WellFormed := by
  refine foldlM_induction (P := WellFormed) (fun g link g' hg h => ?_) hg h
  cases hpair : link.pair with
  | error e =>
    rw [hpair] at h
    cases h
  | ok pair =>
    obtain ⟨u, v⟩ := pair
    have hdrawn := hg.addLink u v
    rw [hpair] at h
    simp only [bind, Except.bind] at h
    cases hanswer : g.addLink u v with
    | mk g'' answer =>
      rw [hanswer] at hdrawn h
      cases answer with
      | error e => cases h
      | ok _ =>
        cases h
        exact hdrawn

theorem joinNodes {g' : Network} (h : g.joinNodes x y = .ok g') : g'.WellFormed := by
  unfold Network.joinNodes at h
  cases hx : g.contains x with
  | false => simp [hx] at h
  | true =>
    cases hy : g.contains y with
    | false => simp [hx, hy] at h
    | true =>
      simp only [hx, hy, Bool.not_true, Bool.false_eq_true, if_false, Except.ok.injEq] at h
      rw [contains_eq] at hx hy
      rw [← h]
      exact hg.push_link hx hy

end WellFormed

/-- **Networks of listed nodes hold together.** -/
theorem wellFormed_ofNodes {directed parallel : Bool} {entries : List Identifier}
    (h : ofNodes directed parallel entries = .ok g) : g.WellFormed := by
  refine foldlM_induction (fun g entry g' hg h => ?_) (wellFormed_empty directed parallel) h
  cases hnode : NodeEntry.node entry with
  | error e =>
    rw [hnode] at h
    cases h
  | ok x =>
    rw [hnode] at h
    exact (hg.addNode h).1

/-- **Networks of listed nodes and edges hold together.** -/
theorem wellFormed_ofEdges {directed : Bool} {nodes : List Identifier}
    {edges : List (Identifier × Identifier)} (h : ofEdges directed nodes edges = .ok g) :
    g.WellFormed := by
  unfold ofEdges at h
  cases hnodes : ofNodes directed false nodes with
  | error e =>
    rw [hnodes] at h
    cases h
  | ok g' =>
    rw [hnodes] at h
    exact foldlM_induction (fun g e g' hg h => hg.joinNodes h) (wellFormed_ofNodes hnodes) h

/-! ### Neighbours -/

theorem successors_congr (g : Network) (h : (x == y) = true) : g.successors x = g.successors y := by
  have hends : ∀ a : Identifier, (a == x) = (a == y) := fun _ => BEq.congr_right h
  unfold successors
  simp only [hends]

/-- **A neighbour** is the other end of a link. -/
theorem isIn_successors : y.isIn (g.successors x) = true ↔ ∃ l ∈ g.links.toList,
    ((l.1 == x) = true ∧ (l.2 == y) = true) ∨
      (g.directed = false ∧ (l.2 == x) = true ∧ (l.1 == y) = true) := by
  rw [successors, Identifier.isIn_distinct, Identifier.isIn_iff]
  simp only [List.mem_filterMap]
  constructor
  · rintro ⟨z, ⟨⟨a, b⟩, hl, hz⟩, hzy⟩
    refine ⟨(a, b), hl, ?_⟩
    split at hz
    case isTrue hax =>
      rw [Option.some.inj hz]
      exact .inl ⟨hax, hzy⟩
    case isFalse =>
      split at hz
      case isTrue hb =>
        rw [Bool.and_eq_true, Bool.not_eq_true'] at hb
        rw [Option.some.inj hz]
        exact .inr ⟨hb.1, hb.2, hzy⟩
      case isFalse => cases hz
  · rintro ⟨⟨a, b⟩, hl, ⟨hax, hby⟩ | ⟨hdirected, hbx, hay⟩⟩
    · exact ⟨b, ⟨(a, b), hl, if_pos hax⟩, hby⟩
    · cases hax : a == x with
      | true =>
        -- both ends spell the same node
        have hby : (b == y) = true := BEq.trans hbx (BEq.trans (BEq.symm hax) hay)
        exact ⟨b, ⟨(a, b), hl, if_pos hax⟩, hby⟩
      | false => exact ⟨a, ⟨(a, b), hl, by simp [hax, hdirected, hbx]⟩, hay⟩

theorem isIn_successors_comm (hdirected : g.directed = false) :
    y.isIn (g.successors x) = true ↔ x.isIn (g.successors y) = true := by
  simp only [isIn_successors, hdirected, true_and]
  exact exists_congr fun l => and_congr_right fun _ => by tauto

theorem WellFormed.isIn_nodes (hg : g.WellFormed) (hy : y.isIn (g.successors x) = true) :
    y.isIn g.nodes.toList = true := by
  obtain ⟨l, hl, ⟨-, hly⟩ | ⟨-, -, hly⟩⟩ := isIn_successors.1 hy
  · rw [← Identifier.isIn_congr hly]
    exact (hg.closed l hl).2
  · rw [← Identifier.isIn_congr hly]
    exact (hg.closed l hl).1

/-! ### Links the other way round -/

def reversed (g : Network) : Network := { g with links := g.links.map Prod.swap }

/-- The predecessors are the successors if every link is the other way round. -/
theorem successors_reversed (g : Network) (x : Identifier) :
    g.reversed.successors x = g.predecessors x := by
  simp only [successors, predecessors, reversed, Array.toList_map, List.filterMap_map]
  rfl

/-- **Successors and predecessors are transposes of each other.** -/
theorem isIn_predecessors : y.isIn (g.predecessors x) = true ↔ x.isIn (g.successors y) = true := by
  rw [← successors_reversed, isIn_successors, isIn_successors]
  simp only [reversed, Array.toList_map, List.mem_map, exists_exists_and_eq_and, Prod.fst_swap,
    Prod.snd_swap]
  exact exists_congr fun l => and_congr_right fun _ => by tauto

theorem WellFormed.isIn_nodes_of_predecessors (hg : g.WellFormed)
    (hy : y.isIn (g.predecessors x) = true) : y.isIn g.nodes.toList = true := by
  obtain ⟨l, hl, ⟨hly, -⟩ | ⟨-, hly, -⟩⟩ := isIn_successors.1 (isIn_predecessors.1 hy)
  · rw [← Identifier.isIn_congr hly]
    exact (hg.closed l hl).1
  · rw [← Identifier.isIn_congr hly]
    exact (hg.closed l hl).2

/-- The neighbours of a node in a direction, or the way the links lead.  Without directions all are the
same. -/
def next (g : Network) (d : Option Direction) (x : Identifier) : List Identifier :=
  if g.directed && d = some .incoming then g.predecessors x else g.successors x

/-- What is followed from one node is followed back from the other one against the direction. -/
theorem isIn_next_comm : y.isIn (g.next (some .outgoing) x) = true ↔
    x.isIn (g.next (some .incoming) y) = true := by
  unfold next
  cases hdirected : g.directed with
  | true => simpa using isIn_predecessors.symm
  | false => simpa using isIn_successors_comm hdirected

theorem pairwise_next (g : Network) (d : Option Direction) (x : Identifier) :
    (g.next d x).Pairwise fun y z => (y == z) = false := by
  unfold next
  split
  · exact Identifier.pairwise_distinct _
  · exact Identifier.pairwise_distinct _

theorem WellFormed.isIn_nodes_of_next (hg : g.WellFormed) {d : Option Direction}
    (hy : y.isIn (g.next d x) = true) : y.isIn g.nodes.toList = true := by
  unfold next at hy
  split at hy
  · exact hg.isIn_nodes_of_predecessors hy
  · exact hg.isIn_nodes hy

/-! ### Edges -/

/-- The edges of a network, listed at least once each: every pair that is listed is one of neighbours, and
every neighbour of a node is listed with it, in either order if there are no directions. -/
structure Lists (g : Network) (edges : List (Identifier × Identifier)) : Prop where
  sound : ∀ e ∈ edges, e.1.isIn g.nodes.toList = true ∧ e.2.isIn (g.successors e.1) = true
  complete : ∀ x y, x.isIn g.nodes.toList = true → y.isIn (g.successors x) = true →
    ∃ e ∈ edges, ((e.1 == x) = true ∧ (e.2 == y) = true) ∨
      (g.directed = false ∧ (e.1 == y) = true ∧ (e.2 == x) = true)

theorem sound_edgesFrom {passed rest : List Identifier} {e : Identifier × Identifier}
    (h : e ∈ g.edgesFrom passed rest) :
    e.1 ∈ rest ∧ e.2 ∈ g.successors e.1 := by
  induction rest generalizing passed with
  | nil => exact absurd h List.not_mem_nil
  | cons x rest ih =>
    rw [edgesFrom] at h
    rcases List.mem_append.1 h with h | h
    · obtain ⟨y, hy, rfl⟩ := List.mem_map.1 h
      exact ⟨List.mem_cons_self, (List.mem_filter.1 hy).1⟩
    · exact ⟨List.mem_cons_of_mem x (ih h).1, (ih h).2⟩

/-- A node comes with its neighbours, apart from those passed before. -/
theorem exists_of_successor {passed : List Identifier} (rest : List Identifier)
    (hy : y.isIn (g.successors x) = true) (hpassed : g.directed = true ∨ y.isIn passed = false) :
    ∃ e ∈ g.edgesFrom passed (x :: rest), (e.1 == x) = true ∧ (e.2 == y) = true := by
  obtain ⟨z, hz, hzy⟩ := Identifier.isIn_iff.1 hy
  have hkept : z ∈ (g.successors x).filter fun y => g.directed || !y.isIn passed := by
    refine List.mem_filter.2 ⟨hz, ?_⟩
    rw [Identifier.isIn_congr hzy]
    rcases hpassed with h | h <;> simp [h]
  rw [edgesFrom]
  exact ⟨(x, z), List.mem_append_left _ (List.mem_map_of_mem hkept), BEq.rfl, hzy⟩

/-- **Every edge from nodes is listed**, at the end that comes first if there are no directions. -/
theorem complete_edgesFrom {passed rest : List Identifier}
    (hrest : rest.Pairwise fun x y => (x == y) = false)
    (hfresh : ∀ x ∈ rest, x.isIn passed = false) (hx : x ∈ rest)
    (hy : y.isIn (g.successors x) = true) (hpassed : g.directed = true ∨ y.isIn passed = false) :
    ∃ e ∈ g.edgesFrom passed rest, ((e.1 == x) = true ∧ (e.2 == y) = true) ∨
      (g.directed = false ∧ (e.1 == y) = true ∧ (e.2 == x) = true) := by
  induction rest generalizing passed with
  | nil => exact absurd hx List.not_mem_nil
  | cons z rest ih =>
    have hlater : ∀ {P : Identifier × Identifier → Prop},
        (∃ e ∈ g.edgesFrom (z :: passed) rest, P e) → ∃ e ∈ g.edgesFrom passed (z :: rest), P e := by
      rintro P ⟨e, he, hP⟩
      rw [edgesFrom]
      exact ⟨e, List.mem_append_right _ he, hP⟩
    obtain ⟨hz, hrest⟩ := List.pairwise_cons.1 hrest
    rcases List.mem_cons.1 hx with rfl | hx
    · obtain ⟨e, he, hends⟩ := exists_of_successor rest hy hpassed
      exact ⟨e, he, .inl hends⟩
    · have hfresh' : ∀ u ∈ rest, u.isIn (z :: passed) = false := by
        intro u hu
        rw [Identifier.isIn_cons, hz u hu, hfresh u (List.mem_cons_of_mem z hu)]
        rfl
      cases hzy : z == y with
      | false =>
        refine hlater (ih hrest hfresh' hx (hpassed.imp id fun h => ?_))
        rw [Identifier.isIn_cons, hzy, h]
        rfl
      | true =>
        cases hdirected : g.directed with
        | true => exact hlater (by simpa [hdirected] using ih hrest hfresh' hx (.inl hdirected))
        | false =>
          -- the edge is listed at its other end, which is `z`
          have hxz : x.isIn (g.successors z) = true := by
            rw [isIn_successors_comm hdirected, Identifier.isIn_congr hzy]
            exact hy
          obtain ⟨e, he, hez, hex⟩ := exists_of_successor rest hxz
            (.inr (hfresh x (List.mem_cons_of_mem z hx)))
          exact ⟨e, he, .inr ⟨rfl, BEq.trans hez hzy, hex⟩⟩

/-- **The edges of a network that holds together are listed.** -/
theorem lists_edges (hg : g.WellFormed) : g.Lists g.edges := by
  refine ⟨fun e he => ?_, fun x y hx hy => ?_⟩
  · obtain ⟨hnode, hend⟩ := sound_edgesFrom he
    exact ⟨Identifier.isIn_of_mem hnode, Identifier.isIn_of_mem hend⟩
  · obtain ⟨z, hz, hzx⟩ := Identifier.isIn_iff.1 hx
    rw [← g.successors_congr hzx] at hy
    obtain ⟨e, he, hends⟩ := complete_edgesFrom hg.nodup (fun _ _ => rfl) hz hy
      (.inr (rfl : y.isIn [] = false))
    refine ⟨e, he, hends.imp (fun h => ⟨BEq.trans h.1 hzx, h.2⟩) fun h => ?_⟩
    exact ⟨h.1, h.2.1, BEq.trans h.2.2 hzx⟩

end Network

end MaximalCliques
