import MaximalCliques.Proofs.Graph.LaterLinks
import MaximalCliques.Proofs.Graph.ViewsOfMarks
import MaximalCliques.Proofs.Identifier.Writing
import MaximalCliques.Proofs.Session.Marks

/-!
# Requests about values that are no nodes

A value that is none of the numbered nodes has no index and no neighbours.  The index of such a value is
refused as that of an unknown node.  So are its neighbours if the value can be a key; if it cannot, what is
reported is the part of it that has no key, since it is looked up before it is found to be unknown.

* **`Fault.ofStranger`** — how a neighbour query refuses a value.
* **`Filter.testSource_answered`** — filters that answer about a value, one after the other.
* **`Session.stranger_refused`** — all requests about a value that is no node.
-/

namespace MaximalCliques

/-- How a network refuses to tell the neighbours of a value: as an unknown node, or for a part of it that
cannot be a key. -/
def Fault.ofStranger (x : Identifier) : Fault :=
  match x.keyless? with
  | none => (unknownNode x).raised
  | some part => .keyless part.kindName

theorem IndexedNetwork.requireNode_stranger {net : IndexedNetwork} {names : List Identifier}
    (hnumbering : net.numbering = .ofNames names) {x : Identifier} (hx : x.isIn names = false) :
    net.requireNode x = .error (.ofStranger x) := by
  unfold requireNode Fault.ofStranger Identifier.requireKey
  rw [hnumbering, Numbering.place?_eq_none hx]
  cases x.keyless? <;> rfl

/-- **Filters that answer about a value** in every world with the same marks answer one after the other. -/
theorem Filter.testSource_answered {w : World} {x : Identifier} {fs : List Filter}
    (hfs : ∀ f ∈ fs, ∀ v, w.SameMarks v → ∃ b u, (f.test x).run v = (.ok b, u)) :
    ∃ b u, (testSource fs x).run w = (.ok b, u) ∧ w.SameMarks u := by
  have hkept := keepsMarks_testSource fs x w
  suffices hanswered : ∀ v, w.SameMarks v → ∃ b u, (testSource fs x).run v = (.ok b, u) by
    obtain ⟨b, u, hrun⟩ := hanswered w (World.SameMarks.refl w)
    rw [hrun] at hkept
    exact ⟨b, u, hrun, hkept⟩
  clear hkept
  induction fs with
  | nil => exact fun v _ => ⟨true, v, rfl⟩
  | cons f fs ih =>
    intro v hv
    obtain ⟨b, u, hrun⟩ := hfs f List.mem_cons_self v hv
    have hu := keepsMarks_test f x v
    rw [hrun] at hu
    obtain ⟨b', u', hrun'⟩ := ih (fun f' hf' => hfs f' (List.mem_cons_of_mem f hf')) u (hv.trans hu)
    refine ⟨b' && b, u', ?_⟩
    unfold testSource
    rw [Query.run_bind_of_ok hrun, Query.run_bind_of_ok hrun']
    rfl

section Stranger

variable {net : IndexedNetwork} {names : List Identifier} {place : Nat} {x : Identifier}
variable (hnumbering : net.numbering = .ofNames names) (hx : x.isIn names = false)
include hnumbering hx

/-- A network refuses to be followed from a value that is not numbered. -/
theorem Base.network_follow_stranger {w v : World} (hv : v.networks[place]? = some net)
    (d : Option Direction) :
    (((Base.network place).access w).follow d x).run v = (.error (.ofStranger x), v) := by
  rw [network_follow_eq hv, net.requireNode_stranger hnumbering hx]
  rfl

/-- A view of a network refuses as well, after its filters have answered. -/
theorem Thing.follow_stranger {w : World} (hw : w.networks[place]? = some net) {fs : List Filter}
    (hfs : ∀ f ∈ fs, ∀ v, w.SameMarks v → ∃ b u, (f.test x).run v = (.ok b, u))
    (d : Option Direction) :
    ∃ u, ((Thing.access ⟨.network place, fs⟩ w).follow d x).run w = (.error (.ofStranger x), u) := by
  obtain ⟨b, u, hrun, hu⟩ := Filter.testSource_answered hfs
  have hnet : u.networks[place]? = some net := by rw [hu.networks, hw]
  have hfollow := Base.network_follow_stranger (w := w) hnumbering hx hnet d
  refine ⟨u, ?_⟩
  rw [Thing.follow_access, Query.run_bind_of_ok hrun, Query.run_bind, hfollow]

end Stranger

namespace Session

variable {s : Session} {name : String} {thing : Thing} {x : Identifier} {e : Fault}

theorem run_inWorld {α : Type} {q : Query World α} {answer : Except Fault α} {u : World}
    (h : q.run s.world = (answer, u)) :
    (Action.inWorld q).run s = (answer, { s with world := u }) := by
  show ((q.run s.world).1, ({ s with world := (q.run s.world).2 } : Session)) = _
  rw [h]

/-- A graph that refuses to be followed refuses to list the neighbours. -/
theorem ask_neighbours_refused (hname : s.thing? name = some thing)
    (hgraph : ∀ operation, thing.base.refusal? operation = none) (direction : Option Identifier)
    {u : World} (h : ((thing.access s.world).follow (direction.map Direction.requested) x).run s.world
      = (.error e, u)) :
    (s.ask (.neighbours name x direction)).1 = .error e := by
  have hfollow : (Action.followFrom thing x direction).run s = (.error e, { s with world := u }) :=
    run_inWorld h
  have hask : s.ask (.neighbours name x direction) = (.error e, { s with world := u }) := by
    refine (Query.run_bind_of_ok (run_findView hname (hgraph _))).trans ?_
    rw [Query.run_bind, hfollow]
  rw [hask]

/-- A base that refuses to be followed refuses to hold the neighbours open, once the filters over it have
answered. -/
theorem ask_openNeighbours_refused (other : String) (hname : s.thing? name = some thing)
    (hgraph : ∀ operation, thing.base.refusal? operation = none) (direction : Option Identifier)
    {b : Bool} {u v : World} (hsource : (Filter.testSource thing.filters x).run s.world = (.ok b, u))
    (h : ((thing.base.access u).follow (direction.map Direction.requested) x).run u = (.error e, v)) :
    (s.ask (.openNeighbours other name x direction)).1 = .error e := by
  have hopen : (Action.openFrom thing x (direction.map Direction.requested)).run s
      = (.error e, { s with world := v }) := by
    unfold Action.openFrom
    have hworld : (get : Action Session).run { s with world := u }
        = (.ok { s with world := u }, { s with world := u }) := rfl
    rw [Query.run_bind_of_ok (run_inWorld hsource), Query.run_bind_of_ok hworld, Query.run_bind,
      run_inWorld h]
  have hask : s.ask (.openNeighbours other name x direction) = (.error e, { s with world := v }) := by
    refine (Query.run_bind_of_ok (run_findView hname (hgraph _))).trans ?_
    rw [Query.run_bind, hopen]
  rw [hask]

/-- All requests about neighbours are refused for one reason. -/
def RefusesNeighbours (s : Session) (name : String) (x : Identifier) (e : Fault) : Prop :=
  ∀ direction, (s.ask (.neighbours name x direction)).1 = .error e ∧
    ∀ other, (s.ask (.openNeighbours other name x direction)).1 = .error e

section Stranger

variable {net : IndexedNetwork} {names : List Identifier} {place : Nat} {fs : List Filter}
variable (hnumbering : net.numbering = .ofNames names) (hw : s.world.networks[place]? = some net)
variable (hname : s.thing? name = some ⟨.network place, fs⟩) (hx : x.isIn names = false)
include hnumbering hw hname hx

/-- A view of a network has no index for a value that is not numbered. -/
theorem ask_indexOf_stranger : (s.ask (.indexOf name x)).1 = .error (Fault.unknownNode x).raised := by
  have hindex := Base.network_index_unknown hw hnumbering hx
  rw [ask_indexOf hname rfl]
  show (((((Base.network place).access s.world).index x).map .integer).map Reply.value) = _
  rw [hindex]
  rfl

/-- A view of a network refuses all requests about the neighbours of a value that is not numbered. -/
theorem refusesNeighbours_stranger
    (hfs : ∀ f ∈ fs, ∀ v, s.world.SameMarks v → ∃ b u, (f.test x).run v = (.ok b, u)) :
    s.RefusesNeighbours name x (.ofStranger x) := by
  have hgraph : ∀ operation, (Base.network place).refusal? operation = none := fun _ => rfl
  refine fun direction => ⟨?_, fun other => ?_⟩
  · obtain ⟨u, hfollow⟩ := Thing.follow_stranger hnumbering hx hw hfs
      (direction.map Direction.requested)
    exact ask_neighbours_refused hname hgraph direction hfollow
  · obtain ⟨b, u, hsource, hu⟩ := Filter.testSource_answered hfs
    have hnet : u.networks[place]? = some net := by rw [hu.networks, hw]
    exact ask_openNeighbours_refused other hname hgraph direction hsource
      (Base.network_follow_stranger hnumbering hx hnet _)

end Stranger

/-- **A value that is no node is refused by every request.**  Take a network that holds together, of any
kind and with any later links, under any filters that answer about a value, whatever they note.  If the
value is none of the numbered nodes, its index is refused as that of an unknown node, or for its text if it
has none.  Its neighbours, in any direction, listed or held open, are refused likewise if it can be a key,
and otherwise for the first part of it that cannot. -/
theorem stranger_refused {G : Network} (hG : G.WellFormed) (links : List (Identifier × Identifier))
    {place : Nat} {fs : List Filter}
    (hw : s.world.networks[place]? = some ((IndexedNetwork.ofNetwork G).addLinks links))
    (hname : s.thing? name = some ⟨.network place, fs⟩)
    (hfs : ∀ f ∈ fs, ∀ v, s.world.SameMarks v → ∃ b u, (f.test x).run v = (.ok b, u))
    (hx : x.isIn G.nodes.toList = false) :
    (s.ask (.indexOf name x)).1 = .error (Fault.unknownNode x).raised ∧
    (x.keyless? = none → s.RefusesNeighbours name x (Fault.unknownNode x).raised) ∧
    ∀ part, x.keyless? = some part → s.RefusesNeighbours name x (.keyless part.kindName) := by
  obtain ⟨hnumbering, -⟩ := IndexedNetwork.addLinks_keeps hG links
  have hrefused := refusesNeighbours_stranger hnumbering hw hname hx hfs
  refine ⟨ask_indexOf_stranger hnumbering hw hname hx, fun hkey => ?_, fun part hpart => ?_⟩
  · rwa [Fault.ofStranger, hkey] at hrefused
  · rwa [Fault.ofStranger, hpart] at hrefused

/-- A session with a view that accepts whatever it is asked about. -/
def accepting : Session where
  world := { networks := #[.looped] }
  names := [("view", ⟨.network 0, [.rule 0 (.constant (.truth true)) []]⟩)]

/-- A stranger that can be a key, and one with a part that cannot. -/
theorem stranger_refused_accepting :
    Network.looped.WellFormed ∧
    (∀ x, ∀ f ∈ [Filter.rule 0 (.constant (.truth true)) []], ∀ v, accepting.world.SameMarks v →
      ∃ b u, (f.test x).run v = (.ok b, u)) ∧
    (Identifier.text "z").isIn Network.looped.nodes.toList = false ∧
    (Identifier.tuple [.text "z", .sequence []]).isIn Network.looped.nodes.toList = false ∧
    (accepting.ask (.indexOf "view" (.tuple [.text "z", .sequence []]))).1
      = .error (.unknownNode (.tuple [.text "z", .sequence []])) ∧
    accepting.RefusesNeighbours "view" (.text "z") (.unknownNode (.text "z")) ∧
    accepting.RefusesNeighbours "view" (.tuple [.text "z", .sequence []]) (.keyless "list") := by
  have hformed : Network.looped.WellFormed := ⟨by decide, by decide, by decide⟩
  have hfs : ∀ x, ∀ f ∈ [Filter.rule 0 (.constant (.truth true)) []], ∀ v,
      accepting.world.SameMarks v → ∃ b u, (f.test x).run v = (.ok b, u) := by
    intro x f hf v _
    rw [List.mem_singleton.1 hf]
    exact ⟨true, v, rfl⟩
  have hkey : (Identifier.text "z").isIn Network.looped.nodes.toList = false := by decide +kernel
  have hkeyless : (Identifier.tuple [.text "z", .sequence []]).isIn Network.looped.nodes.toList
      = false := by decide +kernel
  have hplaced : accepting.world.networks[0]? = some .looped := rfl
  have hview : accepting.thing? "view"
      = some ⟨.network 0, [.rule 0 (.constant (.truth true)) []]⟩ := rfl
  obtain ⟨-, hlookedUp, -⟩ := stranger_refused hformed _ hplaced hview (hfs _) hkey
  obtain ⟨hindex, -, hreported⟩ := stranger_refused hformed _ hplaced hview (hfs _) hkeyless
  exact ⟨hformed, hfs, hkey, hkeyless, hindex, hlookedUp rfl, hreported _ rfl⟩

/-- **A list is reported in two ways**: as an unknown node by the one request, and by a fault that is not
about a node by the other.  A value without a text is reported by such a fault even if it can be a key. -/
theorem neighbours_list_accepting : (∃ e,
    (accepting.ask (.indexOf "view" (.sequence [.integer 1]))).1
      = .error (.unknownNode (.sequence [.integer 1])) ∧
    (accepting.ask (.neighbours "view" (.sequence [.integer 1]) none)).1 = .error e ∧
    .invalidNode ∉ e.families ∧ e.node? = none) ∧ Identifier.giant.keyless? = none ∧
    (accepting.ask (.indexOf "view" .giant)).1 = .error .unwritable := by
  have hformed : Network.looped.WellFormed := ⟨by decide, by decide, by decide⟩
  have hstranger : (Identifier.sequence [.integer 1]).isIn Network.looped.nodes.toList = false := by
    decide +kernel
  obtain ⟨hnumbering, -⟩ := IndexedNetwork.addLinks_keeps hformed
    [(.integer 2, .truth true), (.integer 2, .integer 2)]
  have hplaced : accepting.world.networks[0]? = some .looped := rfl
  have hview : accepting.thing? "view"
      = some ⟨.network 0, [.rule 0 (.constant (.truth true)) []]⟩ := rfl
  refine ⟨⟨.keyless "list", ask_indexOf_stranger hnumbering hplaced hview hstranger, rfl, by decide, rfl⟩,
    rfl, ?_⟩
  have hgiant : Identifier.giant.isIn Network.looped.nodes.toList = false := by decide +kernel
  rw [ask_indexOf_stranger hnumbering hplaced hview hgiant,
    Fault.raised_eq_unwritable List.mem_cons_self Identifier.isWritable_giant]

end Session

end MaximalCliques
