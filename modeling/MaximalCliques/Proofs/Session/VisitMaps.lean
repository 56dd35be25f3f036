import MaximalCliques.Proofs.Graph.Adjacency
import MaximalCliques.Proofs.Graph.ViewsOfMarks
import MaximalCliques.Proofs.Identifier.Writing
import MaximalCliques.Proofs.Session.Marks

/-!
# The two kinds of visit maps

A bit set that a graph makes for its nodes, and a seen set without nodes, through the same operations:
they answer alike, hold the same nodes, and filter the graph alike.

* **`MarkOperation.requests`** — an operation put to both; one about an unknown value is put to the bit
  set only.
* **`Session.MapsAgree`** — how the two maps agree at a moment.
* **`Session.HoldsMaps`** — the invariant: the session holds both, and they mirror one another.
* **`Session.HoldsMaps.step`**, **`Session.HoldsMaps.run`** — operations keep it.
* **`Session.HoldsMaps.delivered`** — marked indices that are held open are delivered as they were marked
  when they were opened, whatever is done in between.
* **`Session.visitMaps_agree`** — the maps agree at every moment.
-/

namespace MaximalCliques

/-! ### Operations on both maps -/

/-- The names that a session has for a graph and for two maps of its nodes. -/
structure MapNames where
  graph : String
  bits : String
  seen : String

/-- An operation is put to the bit set and, unless it is about an unknown value, to the seen set. -/
def MarkOperation.requests (m : MapNames) (names : List Identifier) (op : MarkOperation) :
    List Request :=
  op.request m.graph m.bits :: if op.isKnown names then [op.request m.graph m.seen] else []

/-- Graphs that have the same sequences at a moment: the node sequence, the neighbour sequences of the
nodes, and what is next in a sequence of nodes that is held open. -/
structure Thing.SameSequences (w : World) (names : List Identifier) (g h : Thing) : Prop where
  nodes : ((g.access w).admitted (g.access w).nodes).run w
    = ((h.access w).admitted (h.access w).nodes).run w
  neighbours : ∀ d (x : Identifier), x.isIn names = true →
    ((g.access w).sequence d x).run w = ((h.access w).sequence d x).run w
  next : ∀ items : List Identifier, (∀ x ∈ items, x.isIn names = true) →
    (pull (Filter.testAll g.filters) items).run w = (pull (Filter.testAll h.filters) items).run w

/-- **How the two maps agree at a moment.** -/
structure Session.MapsAgree (m : MapNames) (names : List Identifier) (s : Session) : Prop where
  /-- An operation that is not about an unknown value is answered alike. -/
  known : ∀ op : MarkOperation, op.isKnown names = true →
    ∃ r, (s.askAll (op.requests m names)).1 = [.ok r, .ok r]
  /-- The bit set refuses an unknown value, by its text if it has one, and nothing changes. -/
  unknown : ∀ (op : MarkOperation) (x : Identifier), op.value? = some x → x.isIn names = false →
    ∃ e, s.askAll (op.requests m names) = ([.error e], s) ∧ (x.isWritable = true → e = .unknownNode x)
  /-- The marked indices, in ascending order, are those of the seen nodes, and both maps count them. -/
  marked : ∃ (marked : List Nat) (members : List Identifier),
    s.ask (.marked m.bits) = (.ok (.values (marked.map fun (i : Nat) => .integer i)), s) ∧
    s.ask (.members m.seen) = (.ok (.members members), s) ∧
    marked.Pairwise (· < ·) ∧
    (∀ i : Nat, i ∈ marked ↔
      ∃ x ∈ members, s.ask (.indexOf m.graph x) = (.ok (.value (.integer i)), s)) ∧
    s.ask (.count m.bits) = (.ok (.number marked.length), s) ∧
    s.ask (.count m.seen) = (.ok (.number marked.length), s)
  /-- The network, filtered by either map over whatever other filters, has the same sequences. -/
  views : ∃ place fs p q, s.thing? m.graph = some ⟨.network place, fs⟩ ∧
    s.thing? m.bits = some ⟨.bits p, []⟩ ∧ s.thing? m.seen = some ⟨.seen q, []⟩ ∧
    ∀ inner : List Filter, Thing.SameSequences s.world names ⟨.network place, .bits p :: inner⟩
      ⟨.network place, .seen q :: inner⟩

/-- The answers to those who ask for the next item of a sequence, among operations on both maps. -/
def Session.delivered (m : MapNames) (names : List Identifier) (z : String) (s : Session) :
    List (Option MarkOperation) → List (Except Fault Reply) × Session
  | [] => ([], s)
  | none :: rest =>
    ((s.ask (.next z)).1 :: (delivered m names z (s.ask (.next z)).2 rest).1,
      (delivered m names z (s.ask (.next z)).2 rest).2)
  | some op :: rest => delivered m names z (s.askAll (op.requests m names)).2 rest

theorem Session.askAll_append (s : Session) (first rest : List Request) :
    (s.askAll (first ++ rest)).2 = ((s.askAll first).2.askAll rest).2 := by
  induction first generalizing s with
  | nil => rfl
  | cons request first ih => exact ih (s.ask request).2

/-! ### The invariant -/

/-- **A session that holds a graph and two maps of its nodes** which mirror one another. -/
structure Session.HoldsMaps (m : MapNames) (place : Nat) (fs : List Filter) (net : IndexedNetwork)
    (p q : Nat) (b : BitSet) (t : SeenSet) (s : Session) : Prop where
  graph : s.thing? m.graph = some ⟨.network place, fs⟩
  bits : s.thing? m.bits = some ⟨.bits p, []⟩
  seen : s.thing? m.seen = some ⟨.seen q, []⟩
  network : s.world.networks[place]? = some net
  bitSet : s.world.bitSets[p]? = some b
  seenSet : s.world.seenSets[q]? = some t
  mirrors : b.Mirrors t net.network.nodes.toList

namespace Session.HoldsMaps

variable {m : MapNames} {place p q : Nat} {fs : List Filter} {net : IndexedNetwork} {b : BitSet}
variable {t : SeenSet} {s : Session} (h : s.HoldsMaps m place fs net p q b t)
include h

/-- **An operation about an unknown value** is refused by the bit set, and nothing changes. -/
theorem unknown {op : MarkOperation} {x : Identifier} (hop : op.value? = some x)
    (hx : x.isIn net.network.nodes.toList = false) :
    s.askAll (op.requests m net.network.nodes.toList) = ([.error (Fault.unknownNode x).raised], s) := by
  have hasked := ask_bits h.graph rfl h.bits h.bitSet op
  rw [h.mirrors.unknown hop hx, withBits_self h.bitSet] at hasked
  have hunknown : op.isKnown net.network.nodes.toList = false := by
    rw [MarkOperation.isKnown, hop]
    exact hx
  rw [MarkOperation.requests, hunknown, askAll, hasked]
  rfl

/-- **An operation that is not about an unknown value** is answered alike by both maps, which still mirror
one another. -/
theorem known (hkeys : ∀ x ∈ net.network.nodes.toList, x.keyless? = none) {op : MarkOperation}
    (hop : op.isKnown net.network.nodes.toList = true) :
    ∃ r b' t', s.askAll (op.requests m net.network.nodes.toList)
        = ([.ok r, .ok r], (s.withBits p b').withSeen q t') ∧
      ((s.withBits p b').withSeen q t').HoldsMaps m place fs net p q b' t' := by
  obtain ⟨r, hbits, hseen, hmirrors⟩ := h.mirrors.known hkeys hop
  have hasked := ask_bits h.graph rfl h.bits h.bitSet op
  -- the seen set is asked after the bit set has been put back
  have hasked' : (s.withBits p (op.onBits b).2).ask (op.request m.graph m.seen)
      = ((op.onSeen t).1, (s.withBits p (op.onBits b).2).withSeen q (op.onSeen t).2) :=
    ask_seen (s := s.withBits p (op.onBits b).2) h.graph rfl h.seen h.seenSet op
  refine ⟨r, (op.onBits b).2, (op.onSeen t).2, ?_, h.graph, h.bits, h.seen, h.network, ?_, ?_, hmirrors⟩
  · rw [MarkOperation.requests, hop, if_pos rfl, askAll, askAll, askAll, hasked, hasked', hbits, hseen]
  · exact bitSets_withBits h.bitSet (op.onBits b).2
  · exact seenSets_withSeen h.seenSet (op.onSeen t).2

/-- **One operation keeps the invariant**, and changes neither names nor open sequences. -/
theorem step (hkeys : ∀ x ∈ net.network.nodes.toList, x.keyless? = none) (op : MarkOperation) :
    ∃ b' t', (s.askAll (op.requests m net.network.nodes.toList)).2.HoldsMaps m place fs net p q b' t' ∧
      (s.askAll (op.requests m net.network.nodes.toList)).2.names = s.names ∧
      (s.askAll (op.requests m net.network.nodes.toList)).2.sequences = s.sequences := by
  cases hop : op.isKnown net.network.nodes.toList with
  | true =>
    obtain ⟨r, b', t', hasked, hholds⟩ := h.known hkeys hop
    rw [hasked]
    exact ⟨b', t', hholds, rfl, rfl⟩
  | false =>
    cases hvalue : op.value? with
    | none =>
      rw [MarkOperation.isKnown, hvalue] at hop
      cases hop
    | some x =>
      rw [MarkOperation.isKnown, hvalue] at hop
      rw [h.unknown hvalue hop]
      exact ⟨b, t, h, rfl, rfl⟩

/-- **Any operations keep it.** -/
theorem run (hkeys : ∀ x ∈ net.network.nodes.toList, x.keyless? = none) (ops : List MarkOperation) :
    ∃ b' t', (s.askAll (ops.flatMap (·.requests m net.network.nodes.toList))).2.HoldsMaps m place fs
      net p q b' t' := by
  induction ops generalizing s b t with
  | nil => exact ⟨b, t, h⟩
  | cons op ops ih =>
    obtain ⟨b', t', hstep, -⟩ := h.step hkeys op
    rw [List.flatMap_cons, askAll_append]
    exact ih hstep

/-- **The maps agree wherever the invariant holds.** -/
theorem mapsAgree (hnumbering : net.numbering = .ofNames net.network.nodes.toList)
    (hformed : net.network.WellFormed) : s.MapsAgree m net.network.nodes.toList where
  known := by
    intro op hop
    obtain ⟨r, b', t', hasked, -⟩ := h.known hformed.keys hop
    exact ⟨r, by rw [hasked]⟩
  unknown op x hop hx := ⟨_, h.unknown hop hx, fun hwritable =>
    Fault.raised_eq_of_shown (e := .unknownNode x) rfl hwritable⟩
  marked := by
    have hcount := ask_bits h.graph rfl h.bits h.bitSet .count
    have hcount' := ask_seen h.graph rfl h.seen h.seenSet .count
    rw [MarkOperation.onBits, withBits_self h.bitSet] at hcount
    rw [MarkOperation.onSeen, withSeen_self h.seenSet, ← h.mirrors.count_eq] at hcount'
    refine ⟨b.marked, t.members, ask_marked h.bits h.bitSet, ask_members h.seen h.seenSet,
      h.mirrors.ascending, fun i => ?_, hcount, hcount'⟩
    rw [h.mirrors.mem_marked]
    refine exists_congr fun x => and_congr_right fun hx => ?_
    obtain ⟨k, hk⟩ := Numbering.exists_place (h.mirrors.numbered x hx)
    have hindex : (Base.network place).indexOf s.world x = .ok (.integer k) := by
      simp [Base.indexOf, Base.indexing, h.network, hnumbering, Indexing.index, hk, Except.map]
    rw [ask_indexOf h.graph rfl, hindex, hk]
    simp only [Except.map, Option.some.injEq, Prod.mk.injEq, Except.ok.injEq, Reply.value.injEq,
      Identifier.integer.injEq, and_true]
    omega
  views := by
    have halike := h.mirrors.judgesAlike hformed.keys h.bitSet h.seenSet
    have hnodes : ∀ filters : List Filter,
        (Thing.access ⟨.network place, filters⟩ s.world).nodes = net.network.nodes.toList := by
      intro filters
      rw [Thing.access_eq, Access.nodes_restrictAll]
      simp [Base.access, h.network, hnumbering, Numbering.ofNames]
    refine ⟨place, fs, p, q, h.graph, h.bits, h.seen, fun inner => ⟨?_, fun d x hx => ?_, ?_⟩⟩
    · rw [hnodes, hnodes]
      exact halike.admitted (.network place) (World.SameMarks.refl s.world)
        fun x hx => Identifier.isIn_of_mem hx
    · exact halike.sequence h.network hformed d hx
    · exact fun items hitems => halike.pull (World.SameMarks.refl s.world) hitems

/-- **Marked indices that are held open** are delivered one by one, with whatever operations in between. -/
theorem delivered (hkeys : ∀ x ∈ net.network.nodes.toList, x.keyless? = none) {z kind : String}
    {pl : Nat} {items : List Identifier} {ended : Bool}
    (hz : s.thing? z = some ⟨.sequence pl kind, []⟩)
    (hsequence : s.sequences[pl]? = some { items, ended }) (hended : ended = true → items = [])
    (later : List (Option MarkOperation)) :
    (s.delivered m net.network.nodes.toList z later).1
        = (List.range (later.countP (·.isNone))).map (fun k => .ok (.item items[k]?)) ∧
      ∃ b' t', (s.delivered m net.network.nodes.toList z later).2.HoldsMaps m place fs net p q b' t' := by
  induction later generalizing s b t items ended with
  | nil => exact ⟨rfl, b, t, h⟩
  | cons turn later ih =>
    cases turn with
    | none =>
      have hasked := ask_next hz hsequence hended
      obtain ⟨hlt, -⟩ := Array.getElem?_eq_some_iff.1 hsequence
      have hheld : (s.withSequence pl { items := items.tail, ended := items.isEmpty }).HoldsMaps m place
          fs net p q b t := ⟨h.graph, h.bits, h.seen, h.network, h.bitSet, h.seenSet, h.mirrors⟩
      have hput : (s.withSequence pl { items := items.tail, ended := items.isEmpty }).sequences[pl]?
          = some { items := items.tail, ended := items.isEmpty } := by
        simp [withSequence, hlt]
      have hempty : items.isEmpty = true → items.tail = [] := by
        intro hitems
        rw [List.isEmpty_iff.1 hitems]
        rfl
      obtain ⟨hanswers, hholds⟩ := ih hheld hz hput hempty
      rw [Session.delivered, hasked]
      refine ⟨?_, hholds⟩
      show Except.ok (Reply.item items.head?) :: _ = _
      rw [hanswers, List.countP_cons_of_pos rfl, List.range_succ_eq_map, List.map_cons, List.map_map]
      congr 1
      · rw [List.head?_eq_getElem?]
      · refine List.map_congr_left fun k _ => ?_
        show Except.ok (Reply.item items.tail[k]?) = Except.ok (Reply.item items[k + 1]?)
        rw [List.getElem?_tail]
    | some op =>
      obtain ⟨b', t', hstep, hnames, hsequences⟩ := h.step hkeys op
      rw [Session.delivered, List.countP_cons_of_neg (by simp)]
      refine ih hstep ?_ ?_ hended
      · rw [thing?, hnames]
        exact hz
      · rw [hsequences]
        exact hsequence

end Session.HoldsMaps

/-! ### Maps that a session makes -/

section Made

variable {m : MapNames} {place : Nat} {fs : List Filter} {net : IndexedNetwork} {s : Session}
variable (hw : s.world.networks[place]? = some net)
variable (hgraph : s.thing? m.graph = some ⟨.network place, fs⟩)
variable (hnumbering : net.numbering = .ofNames net.network.nodes.toList)
include hw hgraph hnumbering

/-- What a network answers when it is to make a bit set for its nodes. -/
theorem Session.ask_makeVisitMap_network :
    (∀ b, BitSet.ofSize s.world.machine.room net.network.nodes.size (.byNumbering net.numbering) = .ok b →
      s.ask (.makeVisitMap m.bits m.graph)
        = (.ok .nothing, (s.pushBits b).named m.bits ⟨.bits s.world.bitSets.size, []⟩)) ∧
      ∀ e, BitSet.ofSize s.world.machine.room net.network.nodes.size (.byNumbering net.numbering) = .error e →
        s.ask (.makeVisitMap m.bits m.graph) = (.error e, s) := by
  have hbound : (Base.network place).bound s.world = .integer net.network.nodes.size := by
    simp [Base.bound, hw, IndexedNetwork.bound, hnumbering, Numbering.size, Numbering.ofNames]
  have hindexing : (Base.network place).indexing s.world = .byNumbering net.numbering := by
    simp [Base.indexing, hw]
  rw [← hindexing]
  exact ask_makeVisitMap hgraph rfl hbound

theorem Session.exists_maps_made (hindex : (net.network.nodes.size : Int) ≤ largestIndex)
    (hroom : net.network.nodes.size ≤ s.world.machine.room) :
    ∃ made, s.askAll [.makeVisitMap m.bits m.graph, .makeSeenSet m.seen []]
      = ([.ok .nothing, .ok .nothing], made) := by
  have hsize : BitSet.ofSize s.world.machine.room net.network.nodes.size (.byNumbering net.numbering)
      = .ok ⟨net.network.nodes.size, [], .byNumbering net.numbering⟩ := by
    rw [BitSet.ofSize, IndexSpace.forMarks_natCast hindex hroom]
    rfl
  rw [askAll, askAll, (ask_makeVisitMap_network hw hgraph hnumbering).1 _ hsize]
  exact ⟨_, rfl⟩

/-- **Maps that have been made** mirror one another, both being empty. -/
theorem Session.holdsMaps_made (hnames : m.graph ≠ m.bits ∧ m.graph ≠ m.seen ∧ m.bits ≠ m.seen)
    {made : Session} (hmade : s.askAll [.makeVisitMap m.bits m.graph, .makeSeenSet m.seen []]
      = ([.ok .nothing, .ok .nothing], made)) :
    made.HoldsMaps m place fs net s.world.bitSets.size s.world.seenSets.size
      ⟨net.network.nodes.size, [], .byNumbering net.numbering⟩ {} := by
  obtain ⟨hgb, hgs, hbs⟩ := hnames
  obtain ⟨hdone, hrefused⟩ := ask_makeVisitMap_network hw hgraph hnumbering
  rw [askAll, askAll, askAll] at hmade
  cases hb : BitSet.ofSize s.world.machine.room net.network.nodes.size (.byNumbering net.numbering) with
  | error e =>
    rw [hrefused e hb] at hmade
    cases hmade
  | ok b =>
    have hempty := BitSet.Mirrors.empty net.network.nodes.toList
    rw [hdone b hb, ask_makeSeenSet, (BitSet.ofSize_eq hb).1, Int.toNat_natCast] at hmade
    rw [← hnumbering, Array.length_toList] at hempty
    obtain ⟨-, rfl⟩ := Prod.mk.inj hmade
    refine ⟨?_, ?_, thing?_named _ m.seen _, hw, ?_, ?_, hempty⟩
    · rw [thing?_named_of_ne hgs]
      exact (thing?_named_of_ne hgb _).trans hgraph
    · rw [thing?_named_of_ne hbs]
      exact thing?_named _ m.bits _
    · simp [named, pushSeen, pushBits]
    · simp [named, pushSeen, pushBits]

end Made

/-- **The two kinds of visit maps agree.**  A network that holds together, with any links drawn later
between its nodes, or a view of it, makes a bit set for its nodes if there is room.  After any operations
on that and on a seen set without nodes, about any values, the maps agree; and if the marked indices are
then held open, they are delivered as they were marked at that time, whatever operations come in between,
after which the maps agree again. -/
theorem Session.visitMaps_agree {G : Network} (hG : G.WellFormed)
    {links : List (Identifier × Identifier)}
    (hlinks : ∀ l ∈ links, G.contains l.1 = true ∧ G.contains l.2 = true)
    {s : Session} {m : MapNames} {place : Nat} {fs : List Filter}
    (hnames : m.graph ≠ m.bits ∧ m.graph ≠ m.seen ∧ m.bits ≠ m.seen)
    (hw : s.world.networks[place]? = some ((IndexedNetwork.ofNetwork G).addLinks links))
    (hgraph : s.thing? m.graph = some ⟨.network place, fs⟩) :
    ((G.nodes.size : Int) ≤ largestIndex → G.nodes.size ≤ s.world.machine.room →
      ∃ made, s.askAll [.makeVisitMap m.bits m.graph, .makeSeenSet m.seen []]
        = ([.ok .nothing, .ok .nothing], made)) ∧
    ∀ made, s.askAll [.makeVisitMap m.bits m.graph, .makeSeenSet m.seen []]
        = ([.ok .nothing, .ok .nothing], made) →
      ∀ (ops : List MarkOperation) (now : Session),
        now = (made.askAll (ops.flatMap (·.requests m G.nodes.toList))).2 →
        now.MapsAgree m G.nodes.toList ∧
        ∀ z, z ≠ m.graph → z ≠ m.bits → z ≠ m.seen →
          ∃ (marked : List Nat) (opened : Session),
            now.ask (.marked m.bits) = (.ok (.values (marked.map fun (i : Nat) => .integer i)), now) ∧
            now.ask (.openMarked z m.bits) = (.ok .nothing, opened) ∧
            ∀ later : List (Option MarkOperation),
              (opened.delivered m G.nodes.toList z later).1
                = (List.range (later.countP (·.isNone))).map
                  (fun k => .ok (.item (marked[k]?.map fun (i : Nat) => .integer i))) ∧
              (opened.delivered m G.nodes.toList z later).2.MapsAgree m G.nodes.toList := by
  obtain ⟨hnumbering, hnodes, -, hformed⟩ := IndexedNetwork.addLinks_of_contains hG hlinks
  rw [← hnodes] at hnumbering ⊢
  refine ⟨exists_maps_made hw hgraph hnumbering, fun made hmade ops now hnow => ?_⟩
  obtain ⟨b, t, hholds⟩ := (holdsMaps_made hw hgraph hnumbering hnames hmade).run hformed.keys ops
  rw [← hnow] at hholds
  refine ⟨hholds.mapsAgree hnumbering hformed, fun z hzg hzb hzs => ?_⟩
  refine ⟨b.marked, _, ask_marked hholds.bits hholds.bitSet, ask_openMarked hholds.bits hholds.bitSet z,
    fun later => ?_⟩
  have hopened : ((now.pushSequence { items := b.marked.map fun (i : Nat) => .integer i }).named z
      ⟨.sequence now.sequences.size "generator", []⟩).HoldsMaps m place fs
        ((IndexedNetwork.ofNetwork G).addLinks links) s.world.bitSets.size s.world.seenSets.size b t := by
    refine ⟨?_, ?_, ?_, hholds.network, hholds.bitSet, hholds.seenSet, hholds.mirrors⟩
    · exact (thing?_named_of_ne hzg.symm _).trans hholds.graph
    · exact (thing?_named_of_ne hzb.symm _).trans hholds.bits
    · exact (thing?_named_of_ne hzs.symm _).trans hholds.seen
  obtain ⟨hanswers, b', t', hlater⟩ := hopened.delivered hformed.keys (thing?_named _ z _)
    (Array.getElem?_push_size) (fun h => Bool.noConfusion h) later
  refine ⟨hanswers.trans ?_, hlater.mapsAgree hnumbering hformed⟩
  simp only [List.getElem?_map]

/-- A session that holds a view of a network with a loop, without one of its nodes. -/
def Session.looped : Session where
  world := { networks := #[.looped] }
  names := [("view", ⟨.network 0, [.rule 0 (.differsFrom (.integer 2)) []]⟩)]

/-- Maps of three nodes, after a node has been marked in one spelling. -/
theorem Session.visitMaps_agree_looped :
    Network.looped.WellFormed ∧
      (∀ l ∈ [(Identifier.integer 2, Identifier.truth true), (.integer 2, .integer 2)],
        Network.looped.contains l.1 = true ∧ Network.looped.contains l.2 = true) ∧
      (Network.looped.nodes.size : Int) ≤ largestIndex ∧
      Network.looped.nodes.size ≤ Session.looped.world.machine.room ∧
      ∃ made, Session.looped.askAll [.makeVisitMap "bits" "view", .makeSeenSet "seen" []]
          = ([.ok .nothing, .ok .nothing], made) ∧
        (made.askAll ([MarkOperation.mark (.integer 1)].flatMap
            (·.requests ⟨"view", "bits", "seen"⟩ Network.looped.nodes.toList))).2.MapsAgree
          ⟨"view", "bits", "seen"⟩ Network.looped.nodes.toList := by
  have hformed : Network.looped.WellFormed := ⟨by decide, by decide, by decide⟩
  have hlinks : ∀ l ∈ [(Identifier.integer 2, Identifier.truth true), (.integer 2, .integer 2)],
      Network.looped.contains l.1 = true ∧ Network.looped.contains l.2 = true := by decide +kernel
  have hindex : (Network.looped.nodes.size : Int) ≤ largestIndex := by decide
  have hroom : Network.looped.nodes.size ≤ Session.looped.world.machine.room := by decide
  have hnames : "view" ≠ "bits" ∧ "view" ≠ "seen" ∧ "bits" ≠ "seen" := by decide
  obtain ⟨hmakes, hagree⟩ := visitMaps_agree (s := .looped) (m := ⟨"view", "bits", "seen"⟩) hformed
    hlinks hnames rfl rfl
  obtain ⟨made, hmade⟩ := hmakes hindex hroom
  exact ⟨hformed, hlinks, hindex, hroom, made, hmade, (hagree made hmade _ _ rfl).1⟩

/-! ### Neighbours without an index -/

/-- The neighbours of a node in a view with one filter, which admits the node, are tested by the filter. -/
theorem Thing.sequence_of_test {w : World} {base : Base} {f : Filter} {d : Option Direction} {x : Identifier}
    {items : List Identifier} (hsource : (f.test x).run w = (.ok true, w))
    (hfollow : ((base.access w).follow d x).run w = (.ok items, w)) :
    ((Thing.access ⟨base, [f]⟩ w).sequence d x).run w
      = ((Thing.access ⟨base, [f]⟩ w).admitted items).run w := by
  have hincluded : (Filter.testSource [f] x).run w = (.ok true, w) := by
    unfold Filter.testSource
    rw [Query.run_bind_of_ok hsource]
    rfl
  unfold Access.sequence
  rw [Thing.follow_access]
  simp only [bind_assoc]
  rw [Query.run_bind_of_ok hincluded, Query.run_bind_of_ok hfollow]
  rfl

theorem Thing.admitted_singleton {w : World} {base : Base} {f : Filter} {x : Identifier}
    {answer : Except Fault Bool} (h : (f.test x).run w = (answer, w)) :
    ((Thing.access ⟨base, [f]⟩ w).admitted [x]).run w
      = (answer.map fun included => if included then [x] else [], w) := by
  have htest : Filter.testAll [f] x = f.test x := rfl
  unfold Access.admitted Access.foldItems
  rw [List.foldlM_cons, Thing.admits_access, htest]
  simp only [bind_assoc]
  rw [Query.run_bind, h]
  cases answer with
  | error e => rfl
  | ok included => cases included <;> rfl

/-- A network of one node, and a link to a new one that has been drawn after the numbering. -/
def IndexedNetwork.sprouting : IndexedNetwork :=
  (ofNetwork { directed := false, nodes := #[.integer 0] }).addLinks [(.integer 0, .integer 1)]

theorem IndexedNetwork.sprouting_successors :
    sprouting.network.successors (.integer 0) = [.integer 1] := by
  have hold : (Network.mk false false #[.integer 0] #[]).contains (.integer 0) = true := by decide +kernel
  have hnew : (Network.mk false false #[.integer 0] #[]).contains (.integer 1) = false := by decide +kernel
  have hlinks : sprouting.network.links = #[(.integer 0, .integer 1)] := by
    simp [sprouting, addLinks, addLink, Network.addLink, Network.addNode, ofNetwork, hold, hnew,
      Identifier.keyless?, Identifier.requireKey]
  rw [Network.successors, hlinks]
  rfl

/-- Its node has been marked in a bit set and in a seen set that had no marks. -/
def World.sprouting : World where
  networks := #[.sprouting]
  bitSets := #[((MarkOperation.mark (.integer 0)).onBits ⟨1, [], .byNumbering (.ofNames [.integer 0])⟩).2]
  seenSets := #[((MarkOperation.mark (.integer 0)).onSeen {}).2]

/-- **A neighbour without an index parts the maps**, although they mirror one another: the view that is
filtered by the bit set refuses the neighbour, and the other one leaves it out.  A value without a text is
refused for that by the bit set. -/
theorem World.maps_sprouting :
    (∃ b t, sprouting.bitSets[0]? = some b ∧ sprouting.seenSets[0]? = some t ∧
      b.Mirrors t [.integer 0] ∧ (MarkOperation.mark .giant).onBits b = (.error .unwritable, b)) ∧
    ((Thing.access ⟨.network 0, [.bits 0]⟩ sprouting).sequence none (.integer 0)).run sprouting
      = (.error (.unknownNode (.integer 1)), sprouting) ∧
    ((Thing.access ⟨.network 0, [.seen 0]⟩ sprouting).sequence none (.integer 0)).run sprouting
      = (.ok [], sprouting) := by
  have hzero : (Identifier.integer 0).isIn [.integer 0] = true := by decide
  have hone : (Identifier.integer 1).isIn [.integer 0] = false := by decide
  have hgiant : Identifier.giant.isIn [.integer 0] = false := by decide +kernel
  obtain ⟨k, hk⟩ := Numbering.exists_place hzero
  obtain ⟨-, -, -, hmirrors⟩ := (BitSet.Mirrors.empty [.integer 0]).mark rfl hk
  have hgiantMark : (MarkOperation.mark .giant).value? = some .giant := rfl
  have hrefused := hmirrors.unknown hgiantMark hgiant
  rw [Fault.raised_eq_unwritable List.mem_cons_self Identifier.isWritable_giant] at hrefused
  have hseen := Filter.test_seen (w := sprouting) (q := 0) rfl
  have hmarked : ((Filter.bits 0).test (.integer 0)).run sprouting = (.ok true, sprouting) :=
    (hmirrors.judgesAlike (w := sprouting) (p := 0) (q := 0) (by decide) rfl rfl sprouting
      (World.SameMarks.refl _) _ hzero).trans (hseen _)
  have hunknown := hmirrors.test_unknown (w := sprouting) (p := 0) rfl hone
  have hfollow : (((Base.network 0).access sprouting).follow none (.integer 0)).run sprouting
      = (.ok [.integer 1], sprouting) := by
    rw [← IndexedNetwork.sprouting_successors]
    exact Base.network_neighbours rfl rfl hzero rfl
  refine ⟨⟨_, _, rfl, rfl, hmirrors, hrefused⟩, ?_, ?_⟩
  · rw [Thing.sequence_of_test hmarked hfollow, Thing.admitted_singleton hunknown]
    rfl
  · rw [Thing.sequence_of_test (hseen _) hfollow, Thing.admitted_singleton (hseen _)]
    rfl

end MaximalCliques
