import MaximalCliques.Proofs.Enumeration.Neighbourhoods
import MaximalCliques.Proofs.Search.Limits

/-!
# Searches on any graph come to an end

Nothing is asked of the graph here: it may have one-way edges, give two nodes one index, refuse an answer or
change its mind.  Still no node is among its own clique neighbours, so a search commits no candidate twice, and
it never passes limits that only the number of its candidates sets.

* **`cliqueNeighbours_irrefl`** — no node is among its own clique neighbours.
* **`Roster.Lists`** — a vertex whose node is looked up at its place.
* **`Progress.LeavesOut`** — every neighbourhood that has been asked for leaves out the vertices at its place.
* **`Subject.StaysWithin`** — a search that never passes given limits.
* **`Subject.staysWithin_candidates`** — the search below any node stays within limits that its candidates set.
-/

namespace MaximalCliques

variable {σ τ : Type}

/-! ### A node is not among its own clique neighbours -/

/-- What holds before items are gone through and is kept by every item holds when they have been. -/
theorem Access.foldItems_preserves {g : Access σ} {f : τ → Identifier → Query σ τ} {Q : τ → Prop}
    (hf : ∀ {t x w t' w'}, Q t → (f t x).run w = (.ok t', w') → Q t') {items : List Identifier} {t t' : τ}
    {w w' : σ} (ht : Q t) (h : (g.foldItems f t items).run w = (.ok t', w')) : Q t' := by
  unfold foldItems at h
  induction items generalizing t w with
  | nil =>
    obtain ⟨rfl, -⟩ := Query.eq_of_pure h
    exact ht
  | cons x items ih =>
    rw [List.foldlM_cons] at h
    obtain ⟨u, v, hstep, hrest⟩ := Query.ok_of_run_bind h
    refine ih ?_ hrest
    obtain ⟨admitted, v', -, htaken⟩ := Query.ok_of_run_bind hstep
    cases admitted with
    | true => exact hf ht htaken
    | false =>
      obtain ⟨rfl, -⟩ := Query.eq_of_pure htaken
      exact ht

/-- **No node is among its own clique neighbours**, whatever the graph and the oracle answer. -/
theorem cliqueNeighbours_irrefl {g : Access σ} {o : Oracle} {v : Identifier} {members : List Identifier}
    {w w' : σ} (h : (cliqueNeighbours g o v).run w = (.ok members, w')) :
    ∀ x ∈ members, (x == v) = false := by
  obtain ⟨items, u, -, hkept⟩ := Query.ok_of_run_bind h
  obtain ⟨mutuals, u', hmutuals, hpure⟩ := Query.ok_of_run_bind hkept
  obtain ⟨rfl, -⟩ := Query.eq_of_pure hpure
  have hdiffer : ∀ x ∈ mutuals, (x == v) = false := by
    refine Access.foldItems_preserves (Q := fun kept => ∀ x ∈ kept, (x == v) = false) ?_
      (fun x hx => absurd hx List.not_mem_nil) hmutuals
    intro kept x w kept' w' hkept hrun
    split at hrun
    · obtain ⟨rfl, -⟩ := Query.eq_of_pure hrun
      exact hkept
    · next hxv =>
      obtain ⟨both, u, -, hrun⟩ := Query.ok_of_run_bind hrun
      cases both with
      | true =>
        obtain ⟨rfl, -⟩ := Query.eq_of_pure hrun
        exact List.forall_mem_cons.2 ⟨Bool.not_eq_true _ ▸ hxv, hkept⟩
      | false =>
        obtain ⟨rfl, -⟩ := Query.eq_of_pure hrun
        exact hkept
  exact fun x hx => hdiffer x (List.mem_reverse.1 (Identifier.mem_of_mem_distinct hx))

/-! ### Vertices at their places -/

namespace Roster

/-- A vertex whose node is looked up at its place. -/
def Lists (roster : Roster) (v : Vertex) : Prop := roster.placeOf[v.node]? = some v.place

/-- What is looked up at one place is one node. -/
def TellsApart (roster : Roster) : Prop :=
  ∀ {x y : Identifier} {k : Nat}, roster.placeOf[x]? = some k → roster.placeOf[y]? = some k → (x == y) = true

theorem tellsApart_ofNodes (nodes : List (Identifier × Nat)) : (ofNodes nodes).TellsApart := by
  intro x y k hx hy
  rw [placeOf_ofNodes] at hx hy
  obtain ⟨z, hz, hzx⟩ := exists_of_placesOf hx
  obtain ⟨z', hz', hzy⟩ := exists_of_placesOf hy
  rw [hz] at hz'
  rw [← Option.some.inj hz'] at hzy
  exact BEq.trans (BEq.symm hzx) hzy

/-- The vertices of a roster that names no node twice are looked up at their places. -/
theorem lists_ofNodes {nodes : List (Identifier × Nat)}
    (hnodes : (nodes.map Prod.fst).Pairwise fun x y => (x == y) = false) {u : Vertex}
    (hu : u ∈ (ofNodes nodes).vertices) : (ofNodes nodes).Lists u := by
  obtain ⟨⟨⟨x, i⟩, k⟩, hx, rfl⟩ := List.mem_map.1 hu
  have hplace : (nodes.map Prod.fst)[k]? = some x := by
    rw [List.getElem?_map, List.mem_zipIdx_iff_getElem?.1 hx]
    rfl
  obtain ⟨l, hl⟩ := Option.isSome_iff_exists.1 (isSome_placesOf (List.mem_of_getElem? hplace) BEq.rfl)
  obtain ⟨y, hy, hyx⟩ := exists_of_placesOf hl
  rw [Lists, placeOf_ofNodes, hl, Identifier.place_inj hnodes hy hplace hyx]

/-- **A neighbourhood leaves out every vertex at the place of its own**: only this node could be looked up
there, and it is not a member. -/
theorem TellsApart.leavesOut {roster : Roster} (h : roster.TellsApart) {u v : Vertex}
    (hv : roster.Lists v) (huv : u.place = v.place) {members : List Identifier}
    (hmembers : ∀ x ∈ members, (x == v.node) = false) :
    (Hood.ofMembers roster members).LeavesOut roster.Lists u := by
  refine ⟨Hood.has_eq_false_iff.2 fun u' hu' => ?_, fun a b hb => ?_⟩
  · obtain ⟨x, hx, hplace, -⟩ := Hood.exists_of_find? hu'
    rw [huv] at hplace
    have hsame := h hplace hv
    rw [hmembers x hx] at hsame
    exact Bool.false_ne_true hsame
  · obtain ⟨x, -, hplace, rfl⟩ := Hood.exists_of_find? hb
    exact hplace

end Roster

/-- **Every neighbourhood that has been asked for** leaves out the vertices at its place. -/
def Progress.LeavesOut (p : Progress) (roster : Roster) : Prop :=
  ∀ v, roster.Lists v → ∀ h, p.hoods[v.place]? = some h → h.LeavesOut roster.Lists v

namespace Subject

variable {s : Subject} (g : Access σ) (stop : Nat → Query σ Bool)

theorem hoodOf_leavesOut (hroster : s.roster.TellsApart) {v : Vertex} (hv : s.roster.Lists v) {p : Progress}
    (hp : p.LeavesOut s.roster) : (s.hoodOf g v).Leads False p
      (fun h p' => h.LeavesOut s.roster.Lists v ∧ p'.LeavesOut s.roster) fun _ => True := by
  refine (hoodOf_gives v False.elim).imp (fun h p' hgives => ?_) fun _ _ => trivial
  obtain ⟨hh, hp'⟩ := hgives.keeps
    (fun k h => ∀ u, s.roster.Lists u → u.place = k → h.LeavesOut s.roster.Lists u)
    (fun k h hk u hu huk => hp u hu h (huk ▸ hk))
    fun hmembers u _ huv => hroster.leavesOut hv huv (cliqueNeighbours_irrefl hmembers)
  exact ⟨hh v hv rfl, fun u hu h hk => hp' u.place h hk u hu rfl⟩

/-- **A conductor leaves every vertex out of its own neighbourhood.** -/
theorem heeds_of_tellsApart (hroster : s.roster.TellsApart) :
    (s.conductor g stop).Heeds s.roster.Lists (Hood.LeavesOut s.roster.Lists)
      fun t => t.1.LeavesOut s.roster where
  hood hv ht hrun := (hoodOf_leavesOut g hroster hv ht).post_of_run hrun
  visit ht hrun := (Prod.mk.inj hrun).2 ▸ ht
  mayBranch {n v t b t'} ht hrun := by
    have hhoods : t'.1.hoods = t.1.hoods := (s.mayBranch_hoods g stop n v t.1).post_of_run hrun
    unfold Progress.LeavesOut
    rw [hhoods]
    exact ht
  emit ht hrun := (Prod.mk.inj hrun).2 ▸ ht

/-! ### Limits that are never passed -/

/-- **A search never passes given limits**: with calls that are nested no more than `calls` deep, and with a
stack of no more than `height` frames and a loop of no more than `turns` turns, it comes to the same, whatever
would be done where a limit is passed. -/
structure StaysWithin (s : Subject) (g : Access σ) (settings : Settings) (stop : Nat → Query σ Bool)
    (counters : Counters) (w : σ) (n : SearchNode Vertex) (calls height turns : Nat) : Prop where
  nested : ∀ out, (((plan settings).expandWithin out calls n (.done ())).finish (s.conductor g stop)).run
    ({ counters }, w) = ((searchBelow settings n).finish (s.conductor g stop)).run ({ counters }, w)
  stacked : ∀ out, (((plan settings).expandStackWithin out height turns n (.done ())).finish
    (s.conductor g stop)).run ({ counters }, w)
      = ((searchBelow settings n).finish (s.conductor g stop)).run ({ counters }, w)

variable {g stop} {settings : Settings} {counters : Counters} {w : σ} {n : SearchNode Vertex}

/-- **Limits that agree with a budget are never passed.** -/
theorem staysWithin_of_budgets {S : Vertex → Prop} {ok : Vertex → Hood Vertex → Prop}
    {I : Progress × σ → Prop} (hheeds : (s.conductor g stop).Heeds S ok I) (hstart : I ({ counters }, w))
    (hok : ∀ v h, S v → ok v h → h.has v = false) {q q' : Nat → SearchNode Vertex → Prop} {l height : Nat}
    (hq : SearchNode.IsBudget S ok q) (hn : q l n) (hq' : SearchNode.IsBudget S ok q')
    (hfull : ∀ n, q' 0 n → n.isMaximal = true) (hn' : q' height n) :
    s.StaysWithin g settings stop counters w n (l + 1) height (Frame.turnsFor n.candidates.length) where
  nested out := by
    rw [searchBelow_eq]
    exact (Plan.expandWithin_agrees hq hok out hn (.done ())).finish_eq hheeds hstart
  stacked out := by
    rw [searchBelow_eq, ← Plan.expandStack_eq_expand]
    exact (Plan.expandStackWithin_agrees hq' hok hfull out hn' (.done ())).finish_eq hheeds hstart

/-- **The search below any node stays within limits that its candidates set.** -/
theorem staysWithin_candidates (hroster : s.roster.TellsApart) (hn : n.Within s.roster.Lists) :
    s.StaysWithin g settings stop counters w n (n.candidates.length + 1) (n.candidates.length + 1)
      (Frame.turnsFor n.candidates.length) := by
  have hstart : Progress.LeavesOut { counters } s.roster := by
    intro v _ h hv
    simp at hv
  exact staysWithin_of_budgets (heeds_of_tellsApart g stop hroster) hstart (fun v h _ hh => hh.1)
    (SearchNode.isBudget_candidates s.roster.Lists 0) ⟨hn, Nat.le_refl _⟩
    (SearchNode.isBudget_candidates s.roster.Lists 1) (fun n h => absurd h.2 (Nat.not_succ_le_zero _))
    ⟨hn, Nat.le_refl _⟩

/-- A search that nobody stops ends with its result, unless the graph refuses an answer. -/
theorem finish_unstopped (run : Run Vertex Unit) {t : Progress × σ} :
    ((run.finish (s.conductor g fun _ => pure false)).run t).1 ≠ .ok none := by
  intro hnone
  have hrun : (run.finish (s.conductor g fun _ => pure false)).run t
      = (.ok none, ((run.finish (s.conductor g fun _ => pure false)).run t).2) := Prod.ext hnone rfl
  obtain ⟨b, hb⟩ := Run.exists_of_finish (fun h => (Except.ok.inj (Prod.mk.inj h).1).symm) hrun
  cases hb

end Subject

end MaximalCliques
