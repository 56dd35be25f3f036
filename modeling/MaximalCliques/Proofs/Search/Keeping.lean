import MaximalCliques.Proofs.Search.Mirror
import MaximalCliques.Search.Plan
import MaximalCliques.Search.Conductor

/-!
# Searches that keep to a set of vertices

A search has its vertices from the node that it starts from and from the neighbourhoods that it is given.
So it keeps to a set `S` of vertices if these do.  Nothing else is asked of the neighbourhoods: they may
differ each time one is asked for.

* **`Hood.KeepsTo`** — a neighbourhood with members in `S`.
* **`Run.KeepsTo`** — a search that asks for vertices in `S`, whatever neighbourhoods it is given.
* **`Plan.expand_keepsTo`**, **`Plan.topBranches_keepsTo`** — searching below a node in `S`, and splitting
  a root in `S` into nodes in `S`; the latter makes no polls.
* **`Run.KeepsTo.finish_congr`** — a search that makes no polls does not depend on how they are answered.
-/

namespace MaximalCliques

variable {α β : Type} {S : α → Prop} {polls : Prop} {q : β → Prop}

/-- The members of a neighbourhood are in `S`. -/
def Hood.KeepsTo (S : α → Prop) (h : Hood α) : Prop := ∀ u w, h.find? u = some w → S w

/-- The vertices that meet a neighbourhood are among those that were there, or members of it. -/
theorem Hood.KeepsTo.meet {h : Hood α} (hh : h.KeepsTo S) (among : Nat) {us : List α}
    (hus : ∀ u ∈ us, S u) : ∀ u ∈ h.meet among us, S u := by
  intro u hu
  obtain ⟨x, hx, hmeet⟩ := List.mem_filterMap.1 hu
  obtain ⟨w, hw, rfl⟩ := Option.map_eq_some_iff.1 hmeet
  split
  · exact hus x hx
  · exact hh x w hw

theorem SearchNode.Within.child {h : Hood α} (hh : h.KeepsTo S) {R rest X : List α} {v : α}
    (hR : ∀ u ∈ R, S u) (hv : S v) (hrest : ∀ u ∈ rest, S u) (hX : ∀ u ∈ X, S u) :
    (SearchNode.child R v rest X h).Within S where
  committed := List.forall_mem_cons.2 ⟨hv, hR⟩
  candidates := hh.meet _ hrest
  excluded := hh.meet _ hX

/-- **A search that keeps to `S`**, whatever neighbourhoods in `S` it is given: it asks for vertices in
`S` only, its result is in `q`, and it makes polls only if `polls` holds. -/
def Run.KeepsTo (S : α → Prop) (polls : Prop) (q : β → Prop) : Run α β → Prop
  | .done b => q b
  | .ask v resume => S v ∧ ∀ h : Hood α, h.KeepsTo S → (resume h).KeepsTo S polls q
  | .visit _ rest => rest.KeepsTo S polls q
  | .branch _ _ rest => polls ∧ rest.KeepsTo S polls q
  | .emit _ rest => rest.KeepsTo S polls q

theorem Run.askAll_keepsTo {us : List α} {k : List (Hood α) → Run α β} (hus : ∀ u ∈ us, S u)
    (hk : ∀ hs, (k hs).KeepsTo S polls q) : (askAll us k).KeepsTo S polls q := by
  induction us generalizing k with
  | nil => exact hk []
  | cons u us ih =>
    obtain ⟨hu, hus⟩ := List.forall_mem_cons.1 hus
    exact ⟨hu, fun h _ => ih hus fun hs => hk (h :: hs)⟩

/-- **A search without polls** comes to the same, however polls would be answered. -/
theorem Run.KeepsTo.finish_congr {m : Type → Type} [Monad m] {c c' : Conductor m α}
    {run : Run α β} (h : run.KeepsTo (fun _ => True) False q) (hhood : c.hood = c'.hood)
    (hvisit : c.visit = c'.visit) (hemit : c.emit = c'.emit) : run.finish c = run.finish c' := by
  induction run with
  | done b => rfl
  | ask v resume ih =>
    have hresume : (fun hood => (resume hood).finish c) = fun hood => (resume hood).finish c' :=
      funext fun hood => ih hood (h.2 hood fun _ _ _ => trivial)
    show c.hood v >>= (fun hood => (resume hood).finish c) = _
    rw [hresume, hhood]
    rfl
  | visit n rest ih =>
    rw [finish, finish, hvisit, ih h]
  | branch n v rest => exact h.1.elim
  | emit clique rest ih =>
    rw [finish, finish, hemit, ih h]

namespace Plan

variable {plan : Plan α}

theorem choose_keepsTo {P X : List α} (hP : ∀ u ∈ P, S u) (hX : ∀ u ∈ X, S u)
    {k : Split P → Run α β} (hk : ∀ s, (k s).KeepsTo S polls q) :
    (plan.choose P X k).KeepsTo S polls q := by
  unfold choose
  split
  · refine Run.askAll_keepsTo (fun u hu => ?_) fun hoods => ?_
    · exact (List.mem_append.1 (mem_ordered.1 hu)).elim (hP u) (hX u)
    · split <;> exact hk _
  · exact hk _

theorem enter_keepsTo {n : SearchNode α} (hn : n.Within S) {next : Run α β}
    (hnext : next.KeepsTo S polls q) {loop : Split n.candidates → Run α β}
    (hloop : ∀ s, (loop s).KeepsTo S polls q) : (plan.enter n next loop).KeepsTo S polls q := by
  show Run.KeepsTo S polls q
    (if n.isMaximal then .emit n.committed next else plan.choose n.candidates n.excluded loop)
  split
  · exact hnext
  · exact choose_keepsTo hn.candidates hn.excluded hloop

/-- **Searching below a node in `S` keeps to `S`**, and so does going through candidates in `S`. -/
theorem search_keepsTo (plan : Plan α) (hpolls : polls) :
    (∀ n : SearchNode α, n.Within S → ∀ {next : Run α β}, next.KeepsTo S polls q →
      (plan.expand n next).KeepsTo S polls q) ∧
    ∀ R todo kept X : List α, (∀ u ∈ R, S u) → (∀ u ∈ todo, S u) → (∀ u ∈ kept, S u) →
      (∀ u ∈ X, S u) → ∀ {next : Run α β}, next.KeepsTo S polls q →
      (plan.explore R todo kept X next).KeepsTo S polls q := by
  apply SearchNode.induction
  case node =>
    intro n hloop hn next hnext
    refine enter_keepsTo hn hnext fun s => ?_
    have hs : ∀ u ∈ s.todo ++ s.kept, S u := fun u hu => hn.candidates u (s.perm.mem_iff.1 hu)
    obtain ⟨htodo, hkept⟩ := List.forall_mem_append.1 hs
    exact hloop s hn.committed htodo hkept hn.excluded hnext
  case nil =>
    intro R kept X _ _ _ _ next hnext
    rwa [explore_nil]
  case cons =>
    intro R v rest kept X hchild hrest hR htodo hkept hX next hnext
    obtain ⟨hv, hrestS⟩ := List.forall_mem_cons.1 htodo
    have hothers : ∀ u ∈ rest ++ kept, S u := List.forall_mem_append.2 ⟨hrestS, hkept⟩
    rw [explore_cons]
    refine ⟨hpolls, hv, fun h hh => hchild h (.child hh hR hv hothers hX) ?_⟩
    exact hrest hR hrestS hkept (List.forall_mem_cons.2 ⟨hv, hX⟩) hnext

theorem expand_keepsTo (plan : Plan α) {n : SearchNode α} (hn : n.Within S) {next : Run α β}
    (hnext : next.KeepsTo S True q) : (plan.expand n next).KeepsTo S True q :=
  (search_keepsTo plan trivial).1 n hn hnext

theorem nodesBelow_keepsTo {kept todo X : List α} {earlier : List (SearchNode α)}
    (hkept : ∀ u ∈ kept, S u) (htodo : ∀ u ∈ todo, S u) (hX : ∀ u ∈ X, S u)
    (hearlier : ∀ n ∈ earlier, n.Within S) :
    (nodesBelow kept todo X earlier).KeepsTo S polls fun roots => ∀ n ∈ roots, n.Within S := by
  induction todo generalizing X earlier with
  | nil => exact fun n hn => hearlier n (List.mem_reverse.1 hn)
  | cons v rest ih =>
    obtain ⟨hv, hrest⟩ := List.forall_mem_cons.1 htodo
    have hothers : ∀ u ∈ rest ++ kept, S u := List.forall_mem_append.2 ⟨hrest, hkept⟩
    refine ⟨hv, fun h hh => ih hrest (List.forall_mem_cons.2 ⟨hv, hX⟩) ?_⟩
    have hchild : (SearchNode.child [] v (rest ++ kept) X h).Within S :=
      .child hh (fun _ hu => absurd hu List.not_mem_nil) hv hothers hX
    exact List.forall_mem_cons.2 ⟨hchild, hearlier⟩

/-- **A root in `S` is split into nodes in `S`**, without polls. -/
theorem topBranches_keepsTo (plan : Plan α) {P : List α} (hP : ∀ u ∈ P, S u) :
    (plan.topBranches P).KeepsTo S polls fun roots => ∀ n ∈ roots, n.Within S := by
  have hnone : ∀ u ∈ ([] : List α), S u := fun _ hu => absurd hu List.not_mem_nil
  refine choose_keepsTo hP hnone fun s => ?_
  have hs : ∀ u ∈ s.todo ++ s.kept, S u := fun u hu => hP u (s.perm.mem_iff.1 hu)
  obtain ⟨htodo, hkept⟩ := List.forall_mem_append.1 hs
  exact nodesBelow_keepsTo hkept htodo hnone fun _ hn => absurd hn List.not_mem_nil

end Plan

end MaximalCliques
