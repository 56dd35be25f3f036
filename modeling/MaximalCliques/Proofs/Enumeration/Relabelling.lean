import MaximalCliques.Proofs.Enumeration.Interruption
import MaximalCliques.Proofs.Search.Reordering

/-!
# Graphs that look alike to an enumeration

An enumeration sees of a graph only which of its nodes are mutually adjacent and how their indices are
ordered.  Whatever else tells two graphs apart does not matter to it: how their nodes are spelled and
listed, which nodes are reported besides, and which indices are left out.

* **`Access.Alike`** — graphs whose nodes correspond in the order of their indices and are mutually
  adjacent alike.
* **`Access.carried`** — the index of the node that corresponds to the node at an index.
* **`Subject.trails_alike`** — the searches on such graphs have the same trail of positions.
* **`iterate_alike`** — their enumerations deliver corresponding cliques, with the same counters and the
  same number of polls at each of them.
-/

namespace MaximalCliques

variable {σ τ : Type}

/-! ### Corresponding nodes -/

namespace Access

/-- **Graphs that look alike**: `f` carries the listed nodes of `g`, in the order of their indices, to all
the listed nodes of `h`, and mutual adjacency in `g` to mutual adjacency in `h`. -/
structure Alike (f : Identifier → Identifier) (g : Access σ) (w : σ) (h : Access τ) (v : τ) :
    Prop where
  listed : ∀ x ∈ g.listed w, f x ∈ h.listed v
  onto : ∀ y ∈ h.listed v, ∃ x ∈ g.listed w, (f x == y) = true
  congr : ∀ x ∈ g.listed w, ∀ y, (x == y) = true → (f x == f y) = true
  increasing : ∀ x ∈ g.listed w, ∀ y ∈ g.listed w, g.position x < g.position y →
    h.position (f x) < h.position (f y)
  adjacent : ∀ x ∈ g.listed w, ∀ y ∈ g.listed w, g.Mutual w x y ↔ h.Mutual v (f x) (f y)

/-- The index of the node that corresponds to the node with a given index. -/
def carried (f : Identifier → Identifier) (g : Access σ) (w : σ) (h : Access τ) (i : Nat) : Nat :=
  match (g.places w).find? fun x => g.position x == i with
  | some x => h.position (f x)
  | none => 0

namespace Alike

variable {f : Identifier → Identifier} {g : Access σ} {w : σ} {h : Access τ} {v : τ}
variable (halike : Alike f g w h v) (hg : g.Orderly w) (hh : h.Orderly v)
include halike hg hh

theorem carried_position {x : Identifier} (hx : x ∈ g.listed w) :
    carried f g w h (g.position x) = h.position (f x) := by
  obtain ⟨y, hy, hposition⟩ := mem_indices.1 (position_mem_indices hg hx)
  have hsome : ((g.places w).find? fun z => g.position z == g.position x).isSome = true := by
    rw [List.find?_isSome]
    exact ⟨y, hy, beq_iff_eq.2 hposition⟩
  obtain ⟨z, hz⟩ := Option.isSome_iff_exists.1 hsome
  have hzlisted := mem_listed_of_mem_places (List.mem_of_find?_eq_some hz)
  have hzx : (z == x) = true := by
    have hfound := List.find?_some hz
    exact (hg.position_eq_iff (.inl hzlisted) (.inl hx)).1 (eq_of_beq hfound)
  rw [carried, hz]
  exact (hh.position_eq_iff (.inl (halike.listed z hzlisted)) (.inl (halike.listed x hx))).2
    (halike.congr z hzlisted x hzx)

theorem carried_le_iff {i j : Nat} (hi : i ∈ g.indices w) (hj : j ∈ g.indices w) :
    carried f g w h i ≤ carried f g w h j ↔ i ≤ j := by
  obtain ⟨x, hx, rfl⟩ := mem_indices.1 hi
  obtain ⟨y, hy, rfl⟩ := mem_indices.1 hj
  have hxl := mem_listed_of_mem_places hx
  have hyl := mem_listed_of_mem_places hy
  rcases Nat.lt_trichotomy (g.position x) (g.position y) with hlt | heq | hlt
  · have himages := halike.increasing x hxl y hyl hlt
    rw [halike.carried_position hg hh hxl, halike.carried_position hg hh hyl]
    omega
  · rw [heq]
    exact ⟨fun _ => Nat.le_refl _, fun _ => Nat.le_refl _⟩
  · have himages := halike.increasing y hyl x hxl hlt
    rw [halike.carried_position hg hh hxl, halike.carried_position hg hh hyl]
    omega

theorem linked_carried {o o' : Oracle} (ho : o.Tabulates g w) (ho' : o'.Tabulates h v) {i j : Nat}
    (hi : i ∈ g.indices w) (hj : j ∈ g.indices w) :
    o'.linked (carried f g w h i) (carried f g w h j) = o.linked i j := by
  obtain ⟨x, hx, rfl⟩ := mem_indices.1 hi
  obtain ⟨y, hy, rfl⟩ := mem_indices.1 hj
  have hxl := mem_listed_of_mem_places hx
  have hyl := mem_listed_of_mem_places hy
  rw [halike.carried_position hg hh hxl, halike.carried_position hg hh hyl, Bool.eq_iff_iff,
    linked_position_iff hh ho' (halike.listed x hxl) (halike.listed y hyl),
    linked_position_iff hg ho hxl hyl, halike.adjacent x hxl y hyl]

/-- **The indices of the one graph correspond to all indices of the other one.** -/
theorem map_indices_perm : ((g.indices w).map (carried f g w h)).Perm (h.indices v) := by
  have hinj : ∀ i ∈ g.indices w, ∀ j ∈ g.indices w, carried f g w h i = carried f g w h j → i = j := by
    intro i hi j hj heq
    have hle := halike.carried_le_iff hg hh hi hj
    have hge := halike.carried_le_iff hg hh hj hi
    omega
  have hnodup : ((g.indices w).map (carried f g w h)).Nodup :=
    List.Nodup.map_on (fun i hi j hj => hinj i hi j hj) (nodup_indices hg)
  refine (List.perm_ext_iff_of_nodup hnodup (nodup_indices hh)).2 fun i => ?_
  rw [List.mem_map]
  constructor
  · intro hi
    obtain ⟨j, hj, rfl⟩ := hi
    obtain ⟨x, hx, rfl⟩ := mem_indices.1 hj
    have hxl := mem_listed_of_mem_places hx
    rw [halike.carried_position hg hh hxl]
    exact position_mem_indices hh (halike.listed x hxl)
  · intro hi
    obtain ⟨y, hy, rfl⟩ := mem_indices.1 hi
    obtain ⟨x, hx, hxy⟩ := halike.onto y (mem_listed_of_mem_places hy)
    refine ⟨g.position x, position_mem_indices hg hx, ?_⟩
    rw [halike.carried_position hg hh hx]
    exact (hh.position_eq_iff (.inl (halike.listed x hx)) (names_of_mem_places hy)).2 hxy

theorem ofTest_mirrors {o o' : Oracle} (ho : o.Tabulates g w) (ho' : o'.Tabulates h v) {i : Nat}
    (hi : i ∈ g.indices w) : (Hood.ofTest (o.linked i)).Mirrors (carried f g w h)
      (· ∈ g.indices w) (.ofTest (o'.linked (carried f g w h i))) := by
  intro n us hus
  rw [Hood.meet_ofTest, Hood.meet_ofTest, List.filter_map]
  refine ⟨congrArg (List.map _) (List.filter_congr fun j hj => ?_), fun j hj => ?_⟩
  · exact (halike.linked_carried hg hh ho ho' hi (hus j hj)).symm
  · exact hus j (List.mem_filter.1 hj).1

end Alike

end Access

/-! ### Corresponding searches -/

variable {f : Identifier → Identifier} {g : Access σ} {w : σ} {h : Access τ} {v : τ}
variable {o o' : Oracle} {settings settings' : Settings}

theorem Subject.onPositions_linear (settings : Settings) : (onPositions settings).Linear where
  trans i j k hij hjk := by
    simp only [onPositions, decide_eq_true_eq] at hij hjk ⊢
    omega
  total i j := by
    simp only [onPositions, Bool.or_eq_true, decide_eq_true_eq]
    omega
  antisymm i j hij hji := by
    simp only [onPositions, decide_eq_true_eq] at hij hji
    omega

/-- **Events that look alike**: with `φ` carrying the positions of the ones to those of the others they are
the same, but for the order in which the first node lists its candidates. -/
def Event.Alike (φ : Nat → Nat) (es es' : List (Event Vertex)) : Prop :=
  ∃ n n' fs, (es.map (Event.map Vertex.index)).map (Event.map φ) = .visit n :: fs ∧
    es'.map (Event.map Vertex.index) = .visit n' :: fs

namespace Event.Alike

variable {φ : Nat → Nat} {es es' : List (Event Vertex)} (halike : Event.Alike φ es es')
include halike

theorem through (k : Nat) : Event.Alike φ (Event.through k es) (Event.through k es') := by
  obtain ⟨n, n', fs, hes, hes'⟩ := halike
  refine ⟨n, n', Event.through k fs, ?_, ?_⟩
  · rw [← through_map, ← through_map, hes]
    exact Event.through_visit k n fs
  · rw [← through_map, hes']
    exact Event.through_visit k n' fs

theorem tally_eq : tally es = tally es' := by
  obtain ⟨n, n', fs, hes, hes'⟩ := halike
  rw [← tally_map Vertex.index es, ← tally_map φ, hes, ← tally_map Vertex.index es', hes', tally_cons,
    tally_cons]
  rfl

theorem polls_eq : polls es = polls es' := by
  obtain ⟨n, n', fs, hes, hes'⟩ := halike
  rw [← polls_map Vertex.index es, ← polls_map φ, hes, ← polls_map Vertex.index es', hes', polls_visit,
    polls_visit]

theorem map_delivered : ((delivered es).map (List.map Vertex.index)).map (List.map φ)
    = (delivered es').map (List.map Vertex.index) := by
  obtain ⟨n, n', fs, hes, hes'⟩ := halike
  rw [← delivered_map, ← delivered_map, hes, ← delivered_map, hes', delivered_visit, delivered_visit]

end Event.Alike

/-- Trails that look alike, and whose cliques consist of vertices that stand for nodes. -/
structure TrailsAlike (f : Identifier → Identifier) (g : Access σ) (w : σ) (h : Access τ) (v : τ)
    (trail trail' : List (Event Vertex) × Option Unit) : Prop where
  events : Event.Alike (g.carried f w h) trail.1 trail'.1
  result : trail.2 = trail'.2
  stands : ∀ c ∈ Event.delivered trail.1, ∀ u ∈ c, g.Stands w u
  stands' : ∀ d ∈ Event.delivered trail'.1, ∀ u ∈ d, h.Stands v u

/-- **The searches on graphs that look alike** have trails that look alike. -/
theorem Subject.trails_alike (halike : Access.Alike f g w h v) (hg : g.Orderly w) (hh : h.Orderly v)
    (ho : o.Tabulates g w) (ho' : o'.Tabulates h v)
    (hpivot : settings.usesPivot = settings'.usesPivot) (stop : Nat → Bool) :
    TrailsAlike f g w h v
      ((search ⟨o, g.roster w⟩ settings).trail (g.hoodAt w o) stop 0)
      ((search ⟨o', h.roster v⟩ settings').trail (h.hoodAt v o') stop 0) := by
  have hmirrors := searchBelow_mirrors hg ho settings (root_within g w o)
  have hmirrors' := searchBelow_mirrors hh ho' settings' (root_within h v o')
  have hagrees : (onPositions settings).Agrees (g.carried f w h) (· ∈ g.indices w)
      (onPositions settings') := by
    refine ⟨hpivot, fun i j hi hj => ?_⟩
    exact decide_eq_decide.2 (halike.carried_le_iff hg hh hi hj).symm
  have hwithin : (⟨[], g.indices w, []⟩ : SearchNode Nat).Within (· ∈ g.indices w) :=
    ⟨fun i hi => absurd hi List.not_mem_nil, fun i hi => hi, fun i hi => absurd hi List.not_mem_nil⟩
  have hcarried : ((onPositions settings).expand ⟨[], g.indices w, []⟩ (.done ())).Mirrors
      (g.carried f w h) (· ∈ g.indices w) (fun i => .ofTest (o.linked i))
      (fun i => .ofTest (o'.linked i)) (fun _ _ => True) ((onPositions settings').expand
        (SearchNode.map (g.carried f w h) ⟨[], g.indices w, []⟩) (.done ())) :=
    Plan.expand_mirrors hagrees (fun i hi => halike.ofTest_mirrors hg hh ho ho' hi) hwithin
      (.done trivial)
  obtain ⟨rest, hleft, hright⟩ := Plan.expand_perm (onPositions_linear settings')
    (halike.map_indices_perm hg hh) [] [] (.done ())
  obtain ⟨hevents, hresult⟩ := hmirrors.trail stop 0
  obtain ⟨hevents', hresult'⟩ := hmirrors'.trail stop 0
  obtain ⟨hcarriedEvents, hcarriedResult⟩ := hcarried.trail stop 0
  rw [show SearchNode.map _ _ = ⟨[], (g.indices w).map (g.carried f w h), []⟩ from rfl, hleft]
    at hcarriedEvents hcarriedResult
  rw [show SearchNode.map _ _ = ⟨[], h.indices v, []⟩ from rfl, hright] at hevents' hresult'
  have hsame : ∀ {a b : Option Unit}, Option.Rel (fun _ _ => True) a b → a = b := by
    intro a b hab
    cases hab <;> rfl
  refine ⟨⟨⟨[], (g.indices w).map (g.carried f w h), []⟩, ⟨[], h.indices v, []⟩, _, ?_, hevents'.symm⟩,
    ?_, hmirrors.delivered_trail stop 0, hmirrors'.delivered_trail stop 0⟩
  · exact (congrArg (List.map _) hevents.symm).trans hcarriedEvents.symm
  · exact (hsame hresult).trans ((hsame hcarriedResult).trans (hsame hresult').symm)

/-! ### Corresponding cliques -/

def Clique.Corresponds (f : Identifier → Identifier) (c d : Clique) : Prop :=
  Identifier.sameSet (c.nodes.map f) d.nodes = true

section Alike

variable (halike : Access.Alike f g w h v) (hg : g.Orderly w) (hh : h.Orderly v)
include halike hg hh

/-- Vertices at corresponding indices stand for corresponding nodes. -/
theorem Access.Alike.node_corresponds {a b : Vertex} (ha : g.Stands w a) (hb : h.Stands v b)
    (hindex : g.carried f w h a.index = b.index) : (f a.node == b.node) = true := by
  obtain ⟨x, hx, hxa⟩ := Identifier.isIn_iff.1 ha.isIn_listed
  rw [ha.index, ← (hg.position_eq_iff (.inl hx) ha.named).2 hxa, halike.carried_position hg hh hx,
    hb.index, hh.position_eq_iff (.inl (halike.listed x hx)) hb.named] at hindex
  exact BEq.trans (BEq.symm (halike.congr x hx a.node hxa)) hindex

theorem Clique.corresponds_of_map {c d : Clique} (hc : ∀ u ∈ c, g.Stands w u)
    (hd : ∀ u ∈ d, h.Stands v u)
    (hmap : (c.map (·.index)).map (g.carried f w h) = d.map (·.index)) : c.Corresponds f d := by
  rw [List.map_map] at hmap
  refine Identifier.sameSet_iff.2 ⟨fun x hx => ?_, fun y hy => ?_⟩
  · obtain ⟨z, hz, rfl⟩ := List.mem_map.1 hx
    obtain ⟨a, ha, rfl⟩ := mem_nodes.1 hz
    have hmem : g.carried f w h a.index ∈ d.map (·.index) := by
      rw [← hmap]
      exact List.mem_map.2 ⟨a, ha, rfl⟩
    obtain ⟨b, hb, hindex⟩ := List.mem_map.1 hmem
    have hnode := halike.node_corresponds hg hh (hc a ha) (hd b hb) hindex.symm
    exact Identifier.isIn_iff.2 ⟨b.node, mem_nodes.2 ⟨b, hb, rfl⟩, BEq.symm hnode⟩
  · obtain ⟨b, hb, rfl⟩ := mem_nodes.1 hy
    have hmem : b.index ∈ c.map (g.carried f w h ∘ (·.index)) := by
      rw [hmap]
      exact List.mem_map.2 ⟨b, hb, rfl⟩
    obtain ⟨a, ha, hindex⟩ := List.mem_map.1 hmem
    have hnode := halike.node_corresponds hg hh (hc a ha) (hd b hb) hindex
    refine Identifier.isIn_iff.2 ⟨f a.node, List.mem_map.2 ⟨a.node, ?_, rfl⟩, hnode⟩
    exact mem_nodes.2 ⟨a, ha, rfl⟩

/-- **Trails that look alike** deliver corresponding cliques. -/
theorem TrailsAlike.delivered {trail trail' : List (Event Vertex) × Option Unit}
    (htrails : TrailsAlike f g w h v trail trail') :
    List.Forall₂ (Clique.Corresponds f) (Event.delivered trail.1) (Event.delivered trail'.1) := by
  have hmap := htrails.events.map_delivered
  have hstands := htrails.stands
  have hstands' := htrails.stands'
  revert hmap hstands hstands'
  generalize Event.delivered trail.1 = cs
  generalize Event.delivered trail'.1 = ds
  intro hmap hc hd
  induction cs generalizing ds with
  | nil =>
    rw [List.map_nil, List.map_nil, eq_comm, List.map_eq_nil_iff] at hmap
    rw [hmap]
    exact .nil
  | cons c cs ih =>
    cases ds with
    | nil => exact absurd hmap (by simp)
    | cons d ds =>
      simp only [List.map_cons, List.cons.injEq] at hmap
      refine .cons ?_ (ih ds hmap.2 (fun e he => hc e (List.mem_cons_of_mem c he))
        fun e he => hd e (List.mem_cons_of_mem d he))
      exact Clique.corresponds_of_map halike hg hh (hc c List.mem_cons_self) (hd d List.mem_cons_self)
        hmap.1

end Alike

/-! ### Corresponding enumerations -/

/-- Outcomes that correspond: the cliques do, in their order, and all else that is counted is the same. -/
structure Outcome.Corresponds (f : Identifier → Identifier) (a b : Outcome) : Prop where
  cliques : List.Forall₂ (Clique.Corresponds f) a.cliques b.cliques
  fault : a.fault = b.fault
  counters : a.counters = b.counters
  polls : a.polls = b.polls

/-- Answers that correspond: cliques that do, or no clique, or the same fault. -/
inductive Resumption.AnswersCorrespond (f : Identifier → Identifier) :
    Except Fault (Option Clique) → Except Fault (Option Clique) → Prop
  | clique {c d : Clique} (h : c.Corresponds f d) : AnswersCorrespond f (.ok (some c)) (.ok (some d))
  | absent : AnswersCorrespond f (.ok none) (.ok none)
  | fault (e : Fault) : AnswersCorrespond f (.error e) (.error e)

/-- Resumptions that correspond: the answers do, and at this point the counters are the same and equally
many polls have been made. -/
structure Resumption.Corresponds (f : Identifier → Identifier) (r r' : Resumption) : Prop where
  answer : AnswersCorrespond f r.answer r'.answer
  counters : r.counters = r'.counters
  polls : r.state.polls = r'.state.polls

theorem rel_getElem? {α β : Type} {R : α → β → Prop} {xs : List α} {ys : List β}
    (h : List.Forall₂ R xs ys) (n : Nat) : Option.Rel R xs[n]? ys[n]? := by
  induction h generalizing n with
  | nil => exact .none
  | cons hxy _ ih =>
    cases n with
    | zero => exact .some hxy
    | succ n => exact ih n

theorem Resumption.Shows.corresponds {r r' : Resumption} {p p' : Progress} {n : Nat}
    {trail trail' : List (Event Vertex) × Option Unit} (hr : r.Shows p n trail)
    (hr' : r'.Shows p' n trail') (hcounters : p.counters = p'.counters) (hpolls : p.polls = p'.polls)
    (htrails : TrailsAlike f g w h v trail trail')
    (hdelivered : List.Forall₂ (Clique.Corresponds f) (Event.delivered trail.1)
      (Event.delivered trail'.1)) : r.Corresponds f r' where
  answer := by
    rw [hr.answer, hr'.answer, ← hdelivered.length_eq, ← htrails.result]
    have hitems := rel_getElem? hdelivered n
    revert hitems
    generalize (Event.delivered trail.1)[n]? = c
    generalize (Event.delivered trail'.1)[n]? = d
    intro hitems
    cases hitems with
    | some hcd => exact .clique hcd
    | none =>
      show AnswersCorrespond f (if _ then _ else _) (if _ then _ else _)
      split
      · exact .fault _
      · exact .absent
  counters := by
    rw [hr.counters, hr'.counters, hcounters, (htrails.events.through n).tally_eq]
  polls := by
    rw [hr.polls, hr'.polls, ← hdelivered.length_eq, hpolls, (htrails.events.through n).polls_eq]

/-- **An enumeration depends on nothing but the order of the indices and mutual adjacency.**  Take two
orderly graphs that fit and look alike, searched with a pivot both or neither, by either engine, and with
stop checks that give the same answers.  Their enumerations deliver corresponding cliques in the same
order, and end alike; at every clique and at the end the counters are the same and equally many polls have
been made. -/
theorem iterate_alike {stop : Nat → Query σ Bool} {stop' : Nat → Query τ Bool} {states : Nat → σ}
    {states' : Nat → τ} {answers : Nat → Bool} (hg : g.Orderly (states 0)) (hh : h.Orderly (states' 0))
    (hfits : g.FitsIn settings) (hfits' : h.FitsIn settings')
    (halike : Access.Alike f g (states 0) h (states' 0))
    (hpivot : settings.usesPivot = settings'.usesPivot)
    (hpolled : ∀ n, g.PolledBy stop states answers n)
    (hpolled' : ∀ n, h.PolledBy stop' states' answers n) (counters : Counters) :
    (∃ outcome outcome',
      (iterate g settings stop counters).run (states 0) = (outcome, states outcome.polls) ∧
      (iterate h settings' stop' counters).run (states' 0) = (outcome', states' outcome'.polls) ∧
      outcome.Corresponds f outcome') ∧
    ∀ n, ∃ r r' polls,
      (OpenEnumeration.resumption g settings stop n counters).run (states 0) = (r, states polls) ∧
      (OpenEnumeration.resumption h settings' stop' n counters).run (states' 0)
        = (r', states' polls) ∧
      r.Corresponds f r' := by
  obtain ⟨o, ho, htabulate⟩ := Subject.tabulate_answers hg hfits
  obtain ⟨o', ho', htabulate'⟩ := Subject.tabulate_answers hh hfits'
  have htrails := Subject.trails_alike halike hg hh ho ho' hpivot answers
  have hdelivered := htrails.delivered halike hg hh
  have hiterate := iterate_polled (hpolled _) hg ho htabulate counters rfl (Nat.le_refl _)
  have hiterate' := iterate_polled (hpolled' _) hh ho' htabulate' counters rfl (Nat.le_refl _)
  refine ⟨⟨_, _, hiterate, hiterate', hdelivered, ?_, ?_, htrails.events.polls_eq⟩, fun n => ?_⟩
  · exact congrArg (fun result : Option Unit => if result.isSome then none else some (Fault.cancelled []))
      htrails.result
  · exact congrArg (counters + ·) htrails.events.tally_eq
  · obtain ⟨r, hrun, hshows⟩ := OpenEnumeration.resumption_polled (hpolled _) hg ho htabulate counters
      rfl (Nat.le_refl _) n
    obtain ⟨r', hrun', hshows'⟩ := OpenEnumeration.resumption_polled (hpolled' _) hh ho' htabulate'
      counters rfl (Nat.le_refl _) n
    have hpolls := (htrails.events.through n).polls_eq
    refine ⟨r, r', _, hrun, ?_, hshows.corresponds hshows' rfl rfl htrails hdelivered⟩
    rw [hrun']
    exact congrArg (fun k => (r', states' k)) hpolls.symm

/-! ### A graph that looks like the lopsided one -/

/-- The nodes 10, 20 and 30, listed from the last one to the first one, without gaps between their
indices; 10 and 30 list each other, and 30 lists 20. -/
def TableGraph.ranked : TableGraph where
  nodes := [.integer 30, .integer 20, .integer 10]
  bound := .integer 3
  indices := ⟨[(.integer 10, .integer 0), (.integer 20, .integer 1), (.integer 30, .integer 2)]⟩
  outgoing := ⟨[(.integer 10, [.integer 30]), (.integer 30, [.integer 10, .integer 20])]⟩
  incoming := {}
  directed := true

theorem TableGraph.holds_ranked {x : Identifier} (h : ranked.Holds x) :
    x = .integer 10 ∨ x = .integer 20 ∨ x = .integer 30 := by
  have hlist : x ∈ ranked.nodes ++ ranked.nodes.flatMap ranked.lists := by
    rw [List.mem_append, List.mem_flatMap]
    exact h
  have heq : ranked.nodes ++ ranked.nodes.flatMap ranked.lists
      = [.integer 30, .integer 20, .integer 10, .integer 10, .integer 20, .integer 30] := rfl
  rw [heq] at hlist
  simp only [List.mem_cons, List.not_mem_nil] at hlist
  tauto

def Thing.ranked : Thing where
  base := .tableGraph 1 .ranked

theorem Thing.ranked_orderly (w : World) : (Thing.ranked.access w).Orderly w := by
  show ((Base.tableGraph 1 .ranked).access w).Orderly w
  refine Base.tableGraph_orderly rfl ?_ ?_ ?_ w
  · intro x hx
    rcases TableGraph.holds_ranked hx with rfl | rfl | rfl <;> rfl
  · intro x hx
    rcases TableGraph.holds_ranked hx with rfl | rfl | rfl
    · exact ⟨0, rfl, by decide⟩
    · exact ⟨1, rfl, by decide⟩
    · exact ⟨2, rfl, by decide⟩
  · intro x y hx hy
    rcases TableGraph.holds_ranked hx with rfl | rfl | rfl <;>
      rcases TableGraph.holds_ranked hy with rfl | rfl | rfl <;>
      constructor <;> intro h <;> first | rfl | cases h

/-- The nodes 2, 3 and 1 of the lopsided graph, in the order of their indices, and the nodes 10, 20, 30. -/
def Identifier.rank (x : Identifier) : Identifier :=
  if x == .integer 2 then .integer 10 else if x == .integer 3 then .integer 20 else .integer 30

theorem Access.mutual_iff {x y : Identifier} (hx : x ∈ g.listed w) (hy : y ∈ g.listed w) :
    g.Mutual w x y ↔ (x == y) = false ∧ y.isIn (g.reported w x) = true ∧
      x.isIn (g.reported w y) = true :=
  ⟨fun h => ⟨h.differ, h.out, h.back⟩, fun h => ⟨hx, hy, h.1, h.2.1, h.2.2⟩⟩

theorem Thing.lopsided_alike_ranked : Access.Alike Identifier.rank (Thing.lopsided.access {})
    (World.polled 0) (Thing.ranked.access {}) {} := by
  have hlopsided : (Thing.lopsided.access {}).listed (World.polled 0)
      = [.integer 1, .integer 2, .integer 3, .integer 2] := rfl
  have hranked : (Thing.ranked.access {}).listed {} = [.integer 30, .integer 20, .integer 10] := rfl
  have hcases : ∀ x ∈ (Thing.lopsided.access {}).listed (World.polled 0),
      x = .integer 1 ∨ x = .integer 2 ∨ x = .integer 3 := by
    intro x hx
    rw [hlopsided] at hx
    simp only [List.mem_cons, List.not_mem_nil] at hx
    tauto
  have hrank : ∀ x ∈ (Thing.lopsided.access {}).listed (World.polled 0),
      x.rank ∈ (Thing.ranked.access {}).listed {} := by
    intro x hx
    rw [hranked]
    rcases hcases x hx with rfl | rfl | rfl
    · exact List.mem_cons_self
    · exact List.mem_cons_of_mem _ (List.mem_cons_of_mem _ List.mem_cons_self)
    · exact List.mem_cons_of_mem _ List.mem_cons_self
  refine ⟨hrank, ?_, ?_, ?_, ?_⟩
  · rw [hranked, hlopsided]
    decide
  · intro x _ y hxy
    rw [Identifier.rank, Identifier.rank, BEq.congr_left hxy, BEq.congr_left hxy]
    exact BEq.rfl
  · decide
  · intro x hx y hy
    rw [Access.mutual_iff hx hy, Access.mutual_iff (hrank x hx) (hrank y hy)]
    rcases hcases x hx with rfl | rfl | rfl <;> rcases hcases y hy with rfl | rfl | rfl <;> decide

/-- A view searched with a stack and a graph searched by recursion, each stopped at its third poll; the
stop check of the view changes the world at each poll, that of the graph only answers. -/
theorem iterate_alike_ranked :
    (Thing.lopsided.access {}).Orderly (World.polled 0) ∧ (Thing.ranked.access {}).Orderly {} ∧
      (Thing.lopsided.access {}).FitsIn { iterative := .truth true } ∧
      (Thing.ranked.access {}).FitsIn {} ∧
      Access.Alike Identifier.rank (Thing.lopsided.access {}) (World.polled 0)
        (Thing.ranked.access {}) {} ∧
      (∃ outcome outcome',
        (iterate (Thing.lopsided.access {}) { iterative := .truth true } World.stopThird {}).run
          (World.polled 0) = (outcome, World.polled outcome.polls) ∧
        (iterate (Thing.ranked.access {}) {} (fun k => pure (k == 2)) {}).run ({} : World)
          = (outcome', {}) ∧
        outcome.Corresponds Identifier.rank outcome') ∧
      ∀ n, ∃ r r' polls,
        (OpenEnumeration.resumption (Thing.lopsided.access {}) { iterative := .truth true }
          World.stopThird n {}).run (World.polled 0) = (r, World.polled polls) ∧
        (OpenEnumeration.resumption (Thing.ranked.access {}) {} (fun k => pure (k == 2)) n
          {}).run ({} : World) = (r', {}) ∧
        r.Corresponds Identifier.rank r' := by
  have horderly : (Thing.lopsided.access {}).Orderly (World.polled 0) :=
    Thing.lopsided_orderly (World.polled 0)
  have hfits : (Thing.lopsided.access {}).FitsIn { iterative := .truth true } :=
    Thing.lopsided_fitsIn rfl
  have hfits' : (Thing.ranked.access {}).FitsIn {} :=
    Access.fitsIn_of_le rfl (by decide) (by decide) (by decide) (by decide)
  have hpolled' : ∀ n, (Thing.ranked.access {}).PolledBy (fun k => pure (k == 2))
      (fun _ => ({} : World)) (fun k => k == 2) n := Access.polledBy_pure _ _ _
  refine ⟨horderly, Thing.ranked_orderly {}, hfits, hfits', Thing.lopsided_alike_ranked, ?_⟩
  exact iterate_alike horderly (Thing.ranked_orderly {}) hfits hfits' Thing.lopsided_alike_ranked rfl
    Thing.lopsided_polledBy hpolled' {}

end MaximalCliques
