import MaximalCliques.Proofs.Graph.Adjacency
import MaximalCliques.Proofs.Graph.ViewsAsFilters

/-!
# Neighbours along and against the edges

A link is found from both of its ends: its one end follows it, its other end is followed.  Tests that are
answered leave that as it is, since the tests of the node and of the items are made at both ends.

* **`Base.network_sequence`** — the neighbour sequence of a node through tests, in any direction.
* **`Access.FollowedBothWays`**, **`Access.Transposes`** — how the sequences in all directions are related.
* **`Access.directions_restrictAll`** — they are so related through any tests that are answered.
-/

namespace MaximalCliques

namespace Network

variable {g : Network} {x y : Identifier}

theorem exists_link_of_mem_next {d : Option Direction} (hy : y ∈ g.next d x) :
    ∃ l ∈ g.links.toList, y = l.1 ∨ y = l.2 := by
  have hsuccessors : ∀ g : Network, y ∈ g.successors x → ∃ l ∈ g.links.toList, y = l.1 ∨ y = l.2 := by
    intro g hy
    obtain ⟨⟨a, b⟩, hl, hend⟩ := List.mem_filterMap.1 (Identifier.mem_of_mem_distinct hy)
    refine ⟨(a, b), hl, ?_⟩
    dsimp only at hend
    split at hend
    case isTrue => exact .inr (Option.some.inj hend).symm
    case isFalse =>
      split at hend
      case isTrue => exact .inl (Option.some.inj hend).symm
      case isFalse => cases hend
  unfold next at hy
  split at hy
  case isTrue =>
    rw [← successors_reversed] at hy
    obtain ⟨l, hl, hend⟩ := hsuccessors g.reversed hy
    simp only [reversed, Array.toList_map, List.mem_map] at hl
    obtain ⟨l, hl, rfl⟩ := hl
    exact ⟨l, hl, hend.symm⟩
  case isFalse => exact hsuccessors g hy

end Network

/-! ### Sequences through tests -/

section Numbered

variable {w : World} {place : Nat} {net : IndexedNetwork} (hnet : w.networks[place]? = some net)
variable {names : List Identifier} (hnumbering : net.numbering = .ofNames names)
include hnet hnumbering

/-- **The neighbour sequence through tests** that are answered about a node and its neighbours. -/
theorem Base.network_sequence {x : Identifier} (hx : x.isIn names = true) (hkey : x.keyless? = none)
    {tests : List (Identifier → Query World Bool)} (d : Option Direction)
    (hsource : ∀ test ∈ tests, ∃ b, (test x).Answers w b)
    (htests : ∀ test ∈ tests, ∀ y ∈ net.network.next d x, ∃ b, (test y).Answers w b) :
    ((((Base.network place).access w).restrictAll tests).sequence d x).Answers w
      (if Access.passesAll w tests x then
        (net.network.next d x).filter (Access.passesAll w tests) else []) := by
  have hadmits : ∀ y, (((Base.network place).access w).admits y).Answers w true := fun _ => rfl
  have hfollow : (((Base.network place).access w).follow d x).Answers w (net.network.next d x) := by
    rw [Query.Answers, network_follow_eq hnet, IndexedNetwork.requireNode_numbered hnumbering hx hkey]
    rfl
  have hanswers : ((Base.network place).access w).AnswersFor w d x :=
    ⟨_, hfollow, fun y _ => ⟨true, hadmits y⟩⟩
  have htoward : ((Base.network place).access w).toward w d x = net.network.next d x := by
    obtain ⟨items, hitems, -, htoward⟩ := hanswers.toward_eq
    rw [htoward, hitems.unique hfollow]
    refine List.filter_eq_self.2 fun y _ => ?_
    rw [Access.passes, (hadmits y).answer?, Option.getD_some]
  rw [← htoward] at htests ⊢
  obtain ⟨hthrough, heq⟩ := hanswers.restrictAll hsource htests
  rw [← heq]
  exact hthrough.sequence_answers

end Numbered

/-- Views of graphs that are followed alike in two directions have the same sequences in both. -/
theorem Access.sequence_restrictAll_congr {σ : Type} {g : Access σ} {d d' : Option Direction}
    {x : Identifier} (h : g.follow d x = g.follow d' x) (tests : List (Identifier → Query σ Bool)) :
    (g.restrictAll tests).sequence d x = (g.restrictAll tests).sequence d' x := by
  have hfollow : (g.restrictAll tests).follow d x = (g.restrictAll tests).follow d' x := by
    induction tests with
    | nil => exact h
    | cons test tests ih =>
      show (do let included ← test x
               let items ← (g.restrictAll tests).follow d x
               return if included then items else [] : Query σ (List Identifier)) = _
      rw [ih]
      rfl
  rw [sequence, hfollow]
  rfl

theorem Base.network_follow_outgoing (place : Nat) (w : World) (x : Identifier) :
    ((Base.network place).access w).follow none x
      = ((Base.network place).access w).follow (some .outgoing) x := by
  have hsame : ∀ net : IndexedNetwork, net.neighboursToward .outgoing x = net.neighbours x := by
    intro net
    simp [IndexedNetwork.neighboursToward, IndexedNetwork.neighbours]
  simp only [Base.access, hsame]

/-- A node is met through a test, of the node that is asked for and of the items, iff it is an item and both
pass, if its spellings there pass like it. -/
theorem Identifier.isIn_tested {items : List Identifier} {p : Identifier → Bool} {included : Bool}
    {y : Identifier} (hsame : ∀ z ∈ items, (z == y) = true → p z = p y) :
    y.isIn (if included then items.filter p else []) = true ↔
      included = true ∧ y.isIn items = true ∧ p y = true := by
  cases included with
  | false => simp [isIn]
  | true =>
    simp only [if_true, true_and, isIn_iff, List.mem_filter]
    constructor
    · rintro ⟨z, ⟨hz, hpass⟩, hzy⟩
      exact ⟨⟨z, hz, hzy⟩, (hsame z hz hzy).symm.trans hpass⟩
    · rintro ⟨⟨z, hz, hzy⟩, hpass⟩
      exact ⟨z, ⟨hz, (hsame z hz hzy).trans hpass⟩, hzy⟩

/-! ### Both directions -/

namespace Access

/-- **A graph is followed in both directions.**  The nodes have their neighbour sequences in every
direction, each neighbour at most once.  The sequence the way the edges lead is that along them, and without
directions all sequences of a node are the same. -/
structure FollowedBothWays {σ : Type} (g : Access σ) (w : σ) (directed : Bool)
    (node : Identifier → Prop) : Prop where
  answered : ∀ d x, node x → ∃ ys, (g.sequence d x).Answers w ys ∧
    ys.Pairwise fun y z => (y == z) = false
  outgoing : ∀ x, g.sequence none x = g.sequence (some .outgoing) x
  undirected : directed = false → ∀ d x, node x → (g.sequence d x).run w = (g.sequence none x).run w

/-- **The directions are transposes of each other.**  A node is met along the edges from another one iff
that is met against them from the first. -/
def Transposes {σ : Type} (g : Access σ) (w : σ) (node : Identifier → Prop) : Prop :=
  ∀ u v, node u → node v → ∃ ys zs, (g.sequence (some .outgoing) u).Answers w ys ∧
    (g.sequence (some .incoming) v).Answers w zs ∧ (v.isIn ys = true ↔ u.isIn zs = true)

/-- **Views of a network are followed in both directions, which are transposes of each other.**  Take a
network that holds together, directed or not, with parallel links or not, and with any links drawn later
between its nodes, and see it through tests that are answered without a change about all values that are
asked for or come up.  It is followed in both directions, and they are transposes of each other if the tests
judge the spellings of one node alike. -/
theorem directions_restrictAll {G : Network} (hG : G.WellFormed)
    {links : List (Identifier × Identifier)}
    (hlinks : ∀ l ∈ links, G.contains l.1 = true ∧ G.contains l.2 = true) {w : World} {place : Nat}
    (hw : w.networks[place]? = some ((IndexedNetwork.ofNetwork G).addLinks links))
    (asked : Identifier → Prop)
    (hasked : ∀ l ∈ ((IndexedNetwork.ofNetwork G).addLinks links).network.links.toList,
      asked l.1 ∧ asked l.2)
    {tests : List (Identifier → Query World Bool)}
    (htests : ∀ test ∈ tests, ∀ x, asked x → ∃ b, (test x).Answers w b) :
    (((Base.network place).access w).restrictAll tests).FollowedBothWays w G.directed
      (fun x => asked x ∧ x.isIn G.nodes.toList = true) ∧
    ((∀ test ∈ tests, ∀ x y, asked x → asked y → (x == y) = true →
        verdict w test x = verdict w test y) →
      (((Base.network place).access w).restrictAll tests).Transposes w
        fun x => asked x ∧ x.isIn G.nodes.toList = true) := by
  obtain ⟨hnumbering, hnodes, hdirected, hformed⟩ := IndexedNetwork.addLinks_of_contains hG hlinks
  generalize (IndexedNetwork.ofNetwork G).addLinks links = net at *
  have hneighbour : ∀ {d x y}, y ∈ net.network.next d x → asked y := by
    intro d x y hy
    obtain ⟨l, hl, rfl | rfl⟩ := Network.exists_link_of_mem_next hy
    · exact (hasked l hl).1
    · exact (hasked l hl).2
  have hsequence : ∀ d x, asked x ∧ x.isIn G.nodes.toList = true →
      ((((Base.network place).access w).restrictAll tests).sequence d x).Answers w
        (if passesAll w tests x then (net.network.next d x).filter (passesAll w tests) else []) := by
    rintro d x ⟨hx, hnode⟩
    exact Base.network_sequence hw hnumbering hnode (Identifier.keyless?_of_isIn hG.keys hnode) d
      (fun test htest => htests test htest x hx)
      fun test htest y hy => htests test htest y (hneighbour hy)
  refine ⟨⟨fun d x hx => ⟨_, hsequence d x hx, ?_⟩, fun x => ?_, fun hG d x hx => ?_⟩,
    fun halike u v hu hv => ⟨_, _, hsequence _ u hu, hsequence _ v hv, ?_⟩⟩
  · split
    · exact (net.network.pairwise_next d x).filter _
    · exact List.Pairwise.nil
  · exact sequence_restrictAll_congr (Base.network_follow_outgoing place w x) tests
  · have hnext : net.network.next d x = net.network.next none x := by
      simp [Network.next, hdirected, hG]
    have hall := hsequence d x hx
    rw [hnext] at hall
    exact hall.trans (hsequence none x hx).symm
  · have hsame : ∀ {d x y}, asked y → ∀ z ∈ net.network.next d x, (z == y) = true →
        passesAll w tests z = passesAll w tests y := fun hy z hz hzy =>
      passesAll_of_alike fun test htest => halike test htest z _ (hneighbour hz) hy hzy
    rw [Identifier.isIn_tested (hsame hv.1), Identifier.isIn_tested (hsame hu.1),
      Network.isIn_next_comm]
    tauto

end Access

/-- Three nodes with a loop and with parallel links, one of which spells a node in another way. -/
def Network.tangled : Network where
  directed := true
  parallel := true
  nodes := #[.integer 0, .integer 1, .integer 2]
  links := #[(.integer 0, .integer 1), (.integer 0, .truth true), (.integer 1, .integer 1)]

/-- The same with later links. -/
def IndexedNetwork.tangled : IndexedNetwork :=
  (ofNetwork .tangled).addLinks [(.truth true, .integer 2), (.integer 2, .integer 0)]

/-- Two filters of which one judges by a value and one by a list of them. -/
def Filter.withoutTwo : List Filter :=
  [.rule 0 (.differsFrom (.integer 2)) [], .rule 1 (.among [.integer 0, .integer 1]) []]

theorem Filter.withoutTwo_alike (w : World) : ∀ test ∈ withoutTwo.map Filter.test,
    (∀ x, ∃ b, (test x).Answers w b) ∧
      ∀ x y, (x == y) = true → Access.verdict w test x = Access.verdict w test y := by
  intro test htest
  simp only [withoutTwo, List.map_cons, List.map_nil, List.mem_cons, List.not_mem_nil, or_false]
    at htest
  rcases htest with rfl | rfl
  · refine ⟨fun x => ⟨!(x == .integer 2), rfl⟩, fun x y hxy => ?_⟩
    show (!(x == .integer 2)) = !(y == .integer 2)
    rw [BEq.congr_left hxy]
  · refine ⟨fun x => ⟨x.isIn [.integer 0, .integer 1], rfl⟩, fun x y hxy => ?_⟩
    show x.isIn [.integer 0, .integer 1] = y.isIn [.integer 0, .integer 1]
    exact Identifier.isIn_congr hxy

/-- A stack of two views over a network with loops, parallel links and two spellings of a node. -/
theorem Access.directions_restrictAll_tangled :
    Network.tangled.WellFormed ∧
    (∀ l ∈ [(Identifier.truth true, Identifier.integer 2), (.integer 2, .integer 0)],
      Network.tangled.contains l.1 = true ∧ Network.tangled.contains l.2 = true) ∧
    (((Base.network 0).access { networks := #[.tangled] }).restrictAll
      (Filter.withoutTwo.map Filter.test)).FollowedBothWays { networks := #[.tangled] } true
        (fun x => True ∧ x.isIn Network.tangled.nodes.toList = true) ∧
    (((Base.network 0).access { networks := #[.tangled] }).restrictAll
      (Filter.withoutTwo.map Filter.test)).Transposes { networks := #[.tangled] }
        fun x => True ∧ x.isIn Network.tangled.nodes.toList = true := by
  have hformed : Network.tangled.WellFormed := ⟨by decide, by decide, by decide +kernel⟩
  have hlinks : ∀ l ∈ [(Identifier.truth true, Identifier.integer 2), (.integer 2, .integer 0)],
      Network.tangled.contains l.1 = true ∧ Network.tangled.contains l.2 = true := by decide +kernel
  have hplaced : ({ networks := #[.tangled] } : World).networks[0]? = some .tangled := rfl
  have hfilters := Filter.withoutTwo_alike { networks := #[.tangled] }
  obtain ⟨hboth, htransposes⟩ := directions_restrictAll hformed hlinks hplaced (fun _ => True)
    (fun _ _ => ⟨trivial, trivial⟩) fun test htest x _ => (hfilters test htest).1 x
  exact ⟨hformed, hlinks, hboth,
    htransposes fun test htest x y _ _ hxy => (hfilters test htest).2 x y hxy⟩

/-- What the view reports in each direction: the neighbours that pass, as the links spell them. -/
theorem Access.blurred_sequence (d : Option Direction) {x : Identifier}
    (hx : x ∈ (Network.blurred true).nodes.toList) :
    (((Access.blurred true).restrictAll [Filter.blurring.test]).sequence d x).Answers (.blurred true)
      (if verdict (.blurred true) Filter.blurring.test x then
        ((Network.blurred true).next d x).filter (verdict (.blurred true) Filter.blurring.test)
        else []) := by
  have hplaced : (World.blurred true).networks[0]? = some (.ofNetwork (.blurred true)) := rfl
  have hnumbering : (IndexedNetwork.ofNetwork (.blurred true)).numbering
    = .ofNames [.integer 1, .integer 9007199254740992] := rfl
  have hpasses : passesAll (.blurred true) [Filter.blurring.test]
      = verdict (.blurred true) Filter.blurring.test := funext fun _ => Bool.and_true _
  have hneighbours : ∀ y ∈ (Network.blurred true).next d x,
      ∃ b, (Filter.blurring.test y).Answers (World.blurred true) b := by
    intro y hy
    obtain ⟨l, hl, hend⟩ := Network.exists_link_of_mem_next hy
    rw [List.mem_singleton.1 hl] at hend
    rcases hend with rfl | rfl <;> exact ⟨_, rfl⟩
  have hnode : x.keyless? = none ∧ ∃ b, (Filter.blurring.test x).Answers (World.blurred true) b := by
    rcases List.mem_pair.1 hx with rfl | rfl <;> exact ⟨rfl, _, rfl⟩
  have h := Base.network_sequence hplaced hnumbering (Identifier.isIn_of_mem hx) hnode.1 d
    (List.forall_mem_singleton.2 hnode.2) (List.forall_mem_singleton.2 hneighbours)
  rwa [hpasses] at h

/-- **A filter that tells spellings apart** lets both nodes of a link pass and refuses the spelling that the
link has of the second one: along the link it is not met any more, against it the first one still is. -/
theorem Access.directions_restrictAll_blurred :
    (Network.blurred true).WellFormed ∧
      (Access.blurred true).TestedBy (.blurred true) Filter.blurring.test ∧
      (((Access.blurred true).restrictAll [Filter.blurring.test]).sequence (some .outgoing)
        (.integer 1)).Answers (.blurred true) [] ∧
      (((Access.blurred true).restrictAll [Filter.blurring.test]).sequence (some .incoming)
        (.integer 9007199254740992)).Answers (.blurred true) [.integer 1] ∧
      ¬((Access.blurred true).restrictAll [Filter.blurring.test]).Transposes (.blurred true)
        (· ∈ (Network.blurred true).nodes.toList) := by
  obtain ⟨hone, htwo, hreal⟩ := Filter.blurring_verdicts (.blurred true)
  have hfirst : (Identifier.integer 1) ∈ (Network.blurred true).nodes.toList := List.mem_cons_self
  have hsecond : (Identifier.integer 9007199254740992) ∈ (Network.blurred true).nodes.toList :=
    List.mem_cons_of_mem _ List.mem_cons_self
  have hout := Access.blurred_sequence (some .outgoing) hfirst
  have hin := Access.blurred_sequence (some .incoming) hsecond
  rw [hone, if_pos rfl, show (Network.blurred true).next (some .outgoing) (.integer 1)
    = [.real (.finite false 4503599627370496 1)] from rfl,
    List.filter_singleton, hreal] at hout
  rw [htwo, if_pos rfl, show (Network.blurred true).next (some .incoming) (.integer 9007199254740992)
    = [.integer 1] from rfl, List.filter_singleton, hone] at hin
  refine ⟨⟨by decide +kernel, by decide, by decide +kernel⟩, Access.blurred_testedBy true, hout, hin, ?_⟩
  intro h
  obtain ⟨ys, zs, hys, hzs, hiff⟩ := h (.integer 1) (.integer 9007199254740992) hfirst hsecond
  rw [hys.unique hout, hzs.unique hin] at hiff
  exact absurd (hiff.2 (by decide)) (by decide)

end MaximalCliques
