import MaximalCliques.Proofs.Graph.OracleEntries

/-!
# Changes that a graph does not notice

A stop check may change the state in which a graph is asked.  As long as the graph answers what it
answered before, everything that it shows stays the same.

* **`Access.Unchanged`** — what is answered in one state is answered in another one alike.
* **`Access.Unchanged.orderly`** — an orderly graph stays orderly.
* **`Access.Unchanged.listed`**, **`Access.Unchanged.reported`** — it lists the same nodes, and these
  report the same neighbours.
* **`Access.Unchanged.tabulates`** — its oracle stays its oracle.
-/

namespace MaximalCliques.Access

variable {σ : Type}

/-- What a graph answers in the state `w`, it answers in the state `v` as well, and changes nothing. -/
structure Unchanged (g : Access σ) (w v : σ) : Prop where
  admits : ∀ x b, (g.admits x).Answers w b → (g.admits x).Answers v b
  neighbours : ∀ x items, (g.neighbours x).Answers w items → (g.neighbours x).Answers v items

namespace Unchanged

variable {g : Access σ} {w v : σ}

theorem refl (g : Access σ) (w : σ) : g.Unchanged w w := ⟨fun _ _ h => h, fun _ _ h => h⟩

variable (h : g.Unchanged w v)
include h

theorem tested {items : List Identifier} (htested : ∀ x ∈ items, ∃ b, (g.admits x).Answers w b) :
    ∀ x ∈ items, ∃ b, (g.admits x).Answers v b := by
  intro x hx
  obtain ⟨b, hb⟩ := htested x hx
  exact ⟨b, h.admits x b hb⟩

theorem filter_passes {items : List Identifier}
    (htested : ∀ x ∈ items, ∃ b, (g.admits x).Answers w b) :
    items.filter (g.passes v) = items.filter (g.passes w) := by
  refine List.filter_congr fun x hx => ?_
  obtain ⟨b, hb⟩ := htested x hx
  rw [passes, passes, hb.answer?, (h.admits x b hb).answer?]

variable (hg : g.Orderly w)
include hg

theorem listed : g.listed v = g.listed w := by
  rw [Access.listed, (admitted_answers (h.tested hg.tested)).answer?, hg.listed_eq,
    h.filter_passes hg.tested]
  rfl

theorem reported {x : Identifier} (hx : g.Names w x) (hlisted : x.isIn (g.listed w) = true) :
    g.reported v x = g.reported w x := by
  obtain ⟨items, hitems, htested, hreported⟩ := hg.followed_passes hx hlisted
  have hanswers := (h.neighbours x items hitems).bind (admitted_answers (h.tested htested))
  rw [Access.reported, hanswers.answer?, hreported, h.filter_passes htested]
  rfl

theorem names_iff (x : Identifier) : g.Names v x ↔ g.Names w x := by
  rw [Names, Names, h.listed hg]
  refine or_congr_right (exists_congr fun u => and_congr_right fun hu => ?_)
  rw [h.reported hg (.inl hu) (Identifier.isIn_of_mem hu)]

/-- **A graph that notices no change stays orderly.** -/
theorem orderly : g.Orderly v where
  tested := h.tested hg.tested
  followed := by
    intro x hx hlisted
    rw [h.names_iff hg] at hx
    rw [h.listed hg] at hlisted
    obtain ⟨items, hitems, htested⟩ := hg.followed x hx hlisted
    exact ⟨items, h.neighbours x items hitems, h.tested htested⟩
  indexed x hx := hg.indexed x ((h.names_iff hg x).1 hx)
  injective x y hx hy := hg.injective x y ((h.names_iff hg x).1 hx) ((h.names_iff hg y).1 hy)
  index_congr x y hx hy := hg.index_congr x y ((h.names_iff hg x).1 hx) ((h.names_iff hg y).1 hy)
  neighbours_congr := by
    intro x y hx hy hxy hlisted
    rw [h.names_iff hg] at hx hy
    rw [h.listed hg] at hlisted
    obtain ⟨items, hitems, -⟩ := hg.followed x hx hlisted
    have hitems' : (g.neighbours y).Answers w items :=
      (hg.neighbours_congr x y hx hy hxy hlisted).symm.trans hitems
    exact (h.neighbours x items hitems).trans (h.neighbours y items hitems').symm

/-- **The oracle of a graph that notices no change** stays its oracle. -/
theorem tabulates {o : Oracle} (ho : o.Tabulates g w) : o.Tabulates g v where
  index := ho.index
  bound := ho.bound
  holds := by
    intro i j
    rw [ho.holds i j, Reports, Reports, h.listed hg]
    refine exists_congr fun u => and_congr_right fun hu => ?_
    rw [h.reported hg (.inl hu) (Identifier.isIn_of_mem hu)]

end Unchanged

end MaximalCliques.Access
