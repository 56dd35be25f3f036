import MaximalCliques.Enumeration.Progress
import MaximalCliques.Proofs.Enumeration.Rosters
import MaximalCliques.Proofs.Graph.OracleEntries
import MaximalCliques.Proofs.Search.Mirror
import MaximalCliques.Proofs.Search.Subproblem

/-!
# The neighbourhoods of an orderly graph

Asked for the neighbourhood of a vertex, an orderly graph answers with the nodes whose positions are
linked to that of the vertex.  So a search on the graph mirrors a search on positions.

* **`Access.members`** — the clique neighbours of a node.
* **`Access.hoodAt`** — the neighbourhood of a vertex; **`Access.neighbourhood_answers`** says that it is
  the one that the graph answers with.
* **`Access.hoodAt_mirrors`** — it corresponds to the linked positions.
* **`Oracle.isLinkage_linked`** — linked positions are linked both ways, and none to itself.
-/

namespace MaximalCliques

variable {σ : Type}

theorem Oracle.isLinkage_linked (o : Oracle) : IsLinkage o.linked where
  symm i j := by
    rw [Bool.eq_iff_iff, Oracle.linked_eq_true, Oracle.linked_eq_true, ne_comm,
      and_comm (a := o.table.holds i j = true)]
  irrefl i := by
    rw [← Bool.not_eq_true, Oracle.linked_eq_true]
    exact fun h => h.1 rfl

/-! ### Sets of identifiers as neighbourhoods -/

namespace Hood

variable {roster : Roster} {members : List Identifier} {u : Vertex}

/-- The step of filling a neighbourhood looks a member's place up. -/
theorem filling_ofMembers (roster : Roster) : Filling (fun (m : Std.HashMap Nat Identifier) x =>
    match roster.placeOf[x]? with
    | some k => m.insert k x
    | none => m) (fun x => (roster.placeOf[x]?).map fun k => (k, x)) := by
  intro m x
  cases h : roster.placeOf[x]? <;> simp only [h, Option.map_none, Option.map_some]

/-- A vertex that is found is spelled like the member at its place. -/
theorem exists_of_find? {u' : Vertex} (h : (Hood.ofMembers roster members).find? u = some u') :
    ∃ x ∈ members, roster.placeOf[x]? = some u.place ∧ u' = { u with node := x } := by
  obtain ⟨x, hx, rfl⟩ := Option.map_eq_some_iff.1 h
  rcases (filling_ofMembers roster).exists_of_getElem? hx with ⟨y, hy, k, hk, hku⟩ | hempty
  · obtain ⟨l, hl, hlk⟩ := Option.map_eq_some_iff.1 hk
    obtain ⟨rfl, rfl⟩ := Prod.mk.inj hlk
    rw [eq_of_beq hku] at hl
    exact ⟨y, hy, hl, rfl⟩
  · simp at hempty

theorem isSome_find? {x : Identifier} (hx : x ∈ members) (hplace : roster.placeOf[x]? = some u.place) :
    ((Hood.ofMembers roster members).find? u).isSome = true := by
  refine (Option.isSome_map ..).trans ((filling_ofMembers roster).isSome_getElem? (.inl ?_))
  exact ⟨x, hx, u.place, x, by rw [hplace]; rfl, BEq.rfl⟩

end Hood

/-! ### Clique neighbours -/

namespace Access

variable (g : Access σ) (w : σ) (o : Oracle)

/-- The clique neighbours of a node: the neighbours that it reports and whose positions are linked to
its own, each in its first spelling. -/
def members (v : Identifier) : List Identifier :=
  Identifier.distinct ((g.reported w v).filter fun u => o.linked (g.position u) (g.position v))

/-- The neighbourhood of a vertex. -/
def hoodAt (v : Vertex) : Hood Vertex := .ofMembers (g.roster w) (g.members w o v.node)

variable {g w o}

theorem mem_reported_of_mem_members {u v : Identifier} (h : u ∈ g.members w o v) :
    u ∈ g.reported w v ∧ o.linked (g.position u) (g.position v) = true :=
  List.mem_filter.1 (Identifier.mem_of_mem_distinct h)

section Orderly

variable (hg : g.Orderly w)
include hg

theorem names_of_mem_reported {v x : Identifier} (hv : g.Names w v)
    (hlisted : v.isIn (g.listed w) = true) (hx : x ∈ g.reported w v) : g.Names w x := by
  obtain ⟨y, hy, hyv⟩ := Identifier.isIn_iff.1 hlisted
  rw [hg.reported_congr hv (.inl hy) (BEq.symm hyv) hlisted] at hx
  exact .inr ⟨y, hy, hx⟩

/-- Whether a reported neighbour is kept is whether the positions are linked. -/
theorem keep_answers (ho : o.Tabulates g w) {u v : Identifier} (hu : g.Names w u) (hv : g.Names w v)
    (kept : List Identifier) :
    (do
      if u == v then return kept
      if ← Query.ofExcept (o.isMutuallyAdjacent u v) then return u :: kept else return kept
      : Query σ (List Identifier)).Answers w
      (if o.linked (g.position u) (g.position v) then u :: kept else kept) := by
  have hposition := hg.position_eq_iff hu hv
  cases huv : u == v with
  | true =>
    rw [huv] at hposition
    have hunlinked : ¬ o.linked (g.position u) (g.position v) = true := fun h =>
      (Oracle.linked_eq_true.1 h).1 (hposition.2 rfl)
    rw [if_neg hunlinked]
    exact Query.answers_pure w kept
  | false =>
    have hne : g.position u ≠ g.position v := by
      rw [Ne, hposition, huv]
      decide
    have hlinked : o.linked (g.position u) (g.position v)
        = (o.table.holds (g.position u) (g.position v)
          && o.table.holds (g.position v) (g.position u)) := by
      rw [Oracle.linked, bne_iff_ne.2 hne, Bool.true_and]
    rw [Oracle.isMutuallyAdjacent_eq hg ho hu hv, ← hlinked]
    refine (Query.answers_ofExcept w _).bind ?_
    cases o.linked (g.position u) (g.position v) <;> exact Query.answers_pure w _

omit hg in
theorem foldl_keep (test : Identifier → Bool) (us kept : List Identifier) :
    us.foldl (fun kept u => if test u then u :: kept else kept) kept
      = (us.filter test).reverse ++ kept := by
  induction us generalizing kept with
  | nil => rfl
  | cons u us ih =>
    rw [List.foldl_cons, ih, List.filter_cons]
    split
    · rw [List.reverse_cons, List.append_assoc, List.singleton_append]
    · rfl

/-- **The clique neighbours that an orderly graph answers with.** -/
theorem cliqueNeighbours_answers (ho : o.Tabulates g w) {v : Identifier} (hv : g.Names w v)
    (hlisted : v.isIn (g.listed w) = true) :
    (cliqueNeighbours g o v).Answers w (g.members w o v) := by
  obtain ⟨items, hitems, htested, hreported⟩ := hg.followed_passes hv hlisted
  have hkeep : ∀ kept, ∀ u ∈ items.filter (g.passes w), (do
      if u == v then return kept
      if ← Query.ofExcept (o.isMutuallyAdjacent u v) then return u :: kept else return kept
      : Query σ (List Identifier)).Answers w
      (if o.linked (g.position u) (g.position v) then u :: kept else kept) := by
    intro kept u hu
    rw [← hreported] at hu
    exact keep_answers hg ho (names_of_mem_reported hg hv hlisted hu) hv kept
  have hfold := Access.foldItems_answers' htested hkeep []
  rw [foldl_keep fun u => o.linked (g.position u) (g.position v), List.append_nil, ← hreported]
    at hfold
  unfold cliqueNeighbours
  refine hitems.bind (hfold.bind ?_)
  rw [List.reverse_reverse]
  exact Query.answers_pure w _

/-- **A node is among the clique neighbours of another one** if their positions are linked.  The one that
the other reports, and the one that reports it back, may be other spellings. -/
theorem isIn_members_iff (ho : o.Tabulates g w) {u v : Identifier} (hu : g.Names w u) (hv : g.Names w v)
    (hlisted : v.isIn (g.listed w) = true) :
    u.isIn (g.members w o v) = true ↔ o.linked (g.position u) (g.position v) = true := by
  constructor
  · intro h
    obtain ⟨x, hx, hxu⟩ := Identifier.isIn_iff.1 h
    obtain ⟨hreported, hlinked⟩ := mem_reported_of_mem_members hx
    rwa [(hg.position_eq_iff (names_of_mem_reported hg hv hlisted hreported) hu).2 hxu] at hlinked
  · intro hlinked
    obtain ⟨a, ha, b, hb, hav, hbu⟩ := (ho.holds _ _).1 (Oracle.linked_eq_true.1 hlinked).2.2
    rw [hg.position_eq_iff (.inl ha) hv] at hav
    rw [hg.reported_congr (.inl ha) hv hav (Identifier.isIn_of_mem ha)] at hb
    have hmem : b ∈ (g.reported w v).filter fun x => o.linked (g.position x) (g.position v) :=
      List.mem_filter.2 ⟨hb, by rw [hbu, hlinked]⟩
    rw [hg.position_eq_iff (names_of_mem_reported hg hv hlisted hb) hu] at hbu
    rw [members, Identifier.isIn_distinct]
    exact Identifier.isIn_iff.2 ⟨b, hmem, hbu⟩

/-- **The neighbourhood that an orderly graph answers with.** -/
theorem neighbourhood_answers (ho : o.Tabulates g w) {v : Vertex} (hv : g.Stands w v) :
    (neighbourhood g o (g.roster w) v).Answers w (g.hoodAt w o v) :=
  (cliqueNeighbours_answers hg ho hv.named hv.isIn_listed).bind (Query.answers_pure w _)

theorem hoodAt_congr {u v : Vertex} (hu : g.Stands w u) (hv : g.Stands w v)
    (h : u.place = v.place) : g.hoodAt w o u = g.hoodAt w o v := by
  have hsame := (hu.place_eq_iff hv).1 h
  rw [hoodAt, hoodAt, members, members, hg.reported_congr hu.named hv.named hsame hu.isIn_listed,
    (hg.position_eq_iff hu.named hv.named).2 hsame]

/-! ### Neighbourhoods of positions -/

/-- What is found in a neighbourhood is linked, and keeps its index. -/
theorem linked_of_find?_hoodAt {v : Vertex} (hv : g.Stands w v) {u u' : Vertex} (hu : g.Stands w u)
    (hu' : (g.hoodAt w o v).find? u = some u') :
    o.linked v.index u.index = true ∧ u'.index = u.index ∧ g.Stands w u' := by
  obtain ⟨x, hx, hplace, rfl⟩ := Hood.exists_of_find? hu'
  obtain ⟨hreported, hlinked⟩ := mem_reported_of_mem_members hx
  obtain ⟨y, hy, hyx⟩ := getElem?_placeOf.1 hplace
  obtain ⟨z, hz, hzu⟩ := hu.place
  rw [hy] at hz
  rw [← Option.some.inj hz] at hzu
  have hnames := names_of_mem_reported hg hv.named hv.isIn_listed hreported
  have hxu : (x == u.node) = true := BEq.trans (BEq.symm hyx) hzu
  have hposition := (hg.position_eq_iff hnames hu.named).2 hxu
  refine ⟨?_, rfl, hnames, ⟨y, hy, hyx⟩, ?_⟩
  · rw [hv.index, hu.index, ← hposition, o.isLinkage_linked.symm, hlinked]
  · rw [hposition]
    exact hu.index

/-- What is linked is found: the node of `v` has a spelling of the node of `u` for a clique neighbour, which
is looked up at its place. -/
theorem isSome_find?_hoodAt (ho : o.Tabulates g w) {v : Vertex} (hv : g.Stands w v) {u : Vertex}
    (hu : g.Stands w u) (hlinked : o.linked v.index u.index = true) :
    ((g.hoodAt w o v).find? u).isSome = true := by
  rw [o.isLinkage_linked.symm, hu.index, hv.index] at hlinked
  have hin := (isIn_members_iff hg ho hu.named hv.named hv.isIn_listed).2 hlinked
  obtain ⟨c, hc, hcu⟩ := Identifier.isIn_iff.1 hin
  obtain ⟨z, hz, hzu⟩ := hu.place
  apply Hood.isSome_find? hc
  exact getElem?_placeOf.2 ⟨z, hz, BEq.trans hzu (BEq.symm hcu)⟩

/-- A vertex is found in a neighbourhood if its index is linked, and then it keeps its index. -/
theorem map_find?_hoodAt (ho : o.Tabulates g w) {v : Vertex} (hv : g.Stands w v) {u : Vertex}
    (hu : g.Stands w u) :
    ((g.hoodAt w o v).find? u).map (·.index)
      = (if o.linked v.index u.index then some u.index else none) ∧
    ∀ u' ∈ (g.hoodAt w o v).find? u, g.Stands w u' := by
  refine ⟨?_, fun u' hu' => (linked_of_find?_hoodAt hg hv hu hu').2.2⟩
  by_cases hlinked : o.linked v.index u.index = true
  · obtain ⟨u', hu'⟩ := Option.isSome_iff_exists.1 (isSome_find?_hoodAt hg ho hv hu hlinked)
    rw [if_pos hlinked, hu', Option.map_some, (linked_of_find?_hoodAt hg hv hu hu').2.1]
  · have hnone : (g.hoodAt w o v).find? u = none := by
      apply Option.eq_none_iff_forall_ne_some.2
      intro u' hu'
      exact hlinked (linked_of_find?_hoodAt hg hv hu hu').1
    rw [if_neg hlinked, hnone]
    rfl

/-- **The neighbourhood of a vertex corresponds to the positions linked to its index.** -/
theorem hoodAt_mirrors (ho : o.Tabulates g w) {v : Vertex} (hv : g.Stands w v) :
    (g.hoodAt w o v).Mirrors Vertex.index (g.Stands w) (.ofTest (o.linked v.index)) := by
  intro n us hus
  rw [Hood.meet_ofTest]
  unfold Hood.meet
  induction us with
  | nil => exact ⟨rfl, fun u hu => absurd hu List.not_mem_nil⟩
  | cons u us ih =>
    obtain ⟨hmap, hstands⟩ := ih fun x hx => hus x (List.mem_cons_of_mem u hx)
    have hu := hus u List.mem_cons_self
    obtain ⟨hindex, hkept⟩ := map_find?_hoodAt hg ho hv hu
    rw [List.map_cons, List.filter_cons]
    cases hfind : (g.hoodAt w o v).find? u with
    | none =>
      rw [hfind] at hindex
      have hunlinked : ¬ o.linked v.index u.index = true := by
        intro h
        rw [if_pos h] at hindex
        exact absurd hindex (by simp)
      rw [List.filterMap_cons_none (by rw [hfind]; rfl), if_neg hunlinked]
      exact ⟨hmap, hstands⟩
    | some u' =>
      rw [hfind] at hindex
      have hlinked : o.linked v.index u.index = true := by
        by_contra h
        rw [if_neg h] at hindex
        exact absurd hindex (by simp)
      rw [if_pos hlinked, Option.map_some] at hindex
      rw [List.filterMap_cons_some (by rw [hfind]; rfl), if_pos hlinked, List.map_cons, hmap]
      have hfirst : (if n < (g.hoodAt w o v).size then u else u').index = u.index ∧
          g.Stands w (if n < (g.hoodAt w o v).size then u else u') := by
        split
        · exact ⟨rfl, hu⟩
        · exact ⟨Option.some.inj hindex, hkept u' (by rw [hfind]; rfl)⟩
      refine ⟨by rw [hfirst.1], fun x hx => ?_⟩
      rcases List.mem_cons.1 hx with rfl | hx
      · exact hfirst.2
      · exact hstands x hx

end Orderly

end Access

end MaximalCliques
