import Mathlib.Data.List.Forall2
import MaximalCliques.Proofs.Search.History

/-!
# Searches that mirror one another

A search does not look into its vertices: it only compares them and asks for their neighbourhoods.  So
if a map `f` carries the order and the neighbourhoods of vertices in `S` over to other vertices, it
carries the whole search over.

* **`Hood.Mirrors`** — neighbourhoods that correspond under `f`.
* **`Run.Mirrors`** — searches that make corresponding requests while they are answered.
* **`Plan.expand_mirrors`** — the searches below corresponding nodes mirror each other.
* **`Run.Mirrors.trail`**, **`Run.Mirrors.events`** — their trails and their histories correspond event
  by event.
* **`Run.Within`** — a search that asks for vertices in `S` only; **`Run.Within.trail_congr`** says that its
  trail depends on their neighbourhoods only.
-/

namespace MaximalCliques

variable {α κ β δ : Type}

/-! ### Corresponding neighbourhoods, nodes and events -/

/-- Neighbourhoods whose members among vertices in `S` correspond under `f`. -/
def Hood.Mirrors (f : α → κ) (S : α → Prop) (h : Hood α) (h' : Hood κ) : Prop :=
  ∀ n us, (∀ u ∈ us, S u) →
    (h.meet n us).map f = h'.meet n (us.map f) ∧ ∀ u ∈ h.meet n us, S u

namespace Hood

theorem has_eq_meet (h : Hood α) (n : Nat) (u : α) : h.has u = !(h.meet n [u]).isEmpty := by
  unfold has meet
  cases hu : h.find? u <;> simp [hu]

theorem Mirrors.has {f : α → κ} {S : α → Prop} {h : Hood α} {h' : Hood κ} (hh : h.Mirrors f S h')
    {u : α} (hu : S u) : h.has u = h'.has (f u) := by
  have hmeet := (hh 0 [u] (by simpa using hu)).1
  rw [has_eq_meet h 0, has_eq_meet h' 0, ← List.map_singleton, ← hmeet, List.isEmpty_map]

theorem Mirrors.map_filter {f : α → κ} {S : α → Prop} {h : Hood α} {h' : Hood κ}
    (hh : h.Mirrors f S h') (p : Bool → Bool) {us : List α} (hus : ∀ u ∈ us, S u) :
    (us.filter fun u => p (h.has u)).map f = (us.map f).filter fun k => p (h'.has k) := by
  rw [List.filter_map]
  congr 1
  refine List.filter_congr fun u hu => ?_
  rw [Function.comp, hh.has (hus u hu)]

theorem Mirrors.countP {f : α → κ} {S : α → Prop} {h : Hood α} {h' : Hood κ}
    (hh : h.Mirrors f S h') {us : List α} (hus : ∀ u ∈ us, S u) :
    us.countP h.has = (us.map f).countP h'.has := by
  rw [List.countP_map]
  exact List.countP_congr fun u hu => by rw [Function.comp, hh.has (hus u hu)]

end Hood

namespace SearchNode

def map (f : α → κ) (n : SearchNode α) : SearchNode κ :=
  ⟨n.committed.map f, n.candidates.map f, n.excluded.map f⟩

structure Within (S : α → Prop) (n : SearchNode α) : Prop where
  committed : ∀ u ∈ n.committed, S u
  candidates : ∀ u ∈ n.candidates, S u
  excluded : ∀ u ∈ n.excluded, S u

theorem isMaximal_map (f : α → κ) (n : SearchNode α) : (n.map f).isMaximal = n.isMaximal := by
  simp only [isMaximal, map, List.isEmpty_map]

end SearchNode

def Event.map (f : α → κ) : Event α → Event κ
  | visit n => visit (n.map f)
  | poll n v goOn => poll (n.map f) (f v) goOn
  | emit clique => emit (clique.map f)

theorem Event.delivered_map (f : α → κ) (es : List (Event α)) :
    delivered (es.map (Event.map f)) = (delivered es).map (List.map f) := by
  induction es with
  | nil => rfl
  | cons e es ih => cases e <;> simp [Event.map, ih]

/-- What events add to the counters does not depend on the vertices. -/
theorem Event.tally_map (f : α → κ) (es : List (Event α)) : tally (es.map (Event.map f)) = tally es := by
  induction es with
  | nil => rfl
  | cons e es ih =>
    rw [List.map_cons, tally_cons, tally_cons, ih]
    cases e <;> rfl

theorem Event.polls_map (f : α → κ) (es : List (Event α)) : polls (es.map (Event.map f)) = polls es := by
  induction es with
  | nil => rfl
  | cons e es ih => cases e <;> simp [Event.map, ih]

/-! ### Corresponding searches -/

/-- Searches that make corresponding requests when they are answered from `hoods` and from `hoods'`,
and whose results are related by `q`. -/
inductive Run.Mirrors (f : α → κ) (S : α → Prop) (hoods : α → Hood α) (hoods' : κ → Hood κ)
    (q : β → δ → Prop) : Run α β → Run κ δ → Prop
  | done {b : β} {d : δ} (h : q b d) : Mirrors f S hoods hoods' q (.done b) (.done d)
  | ask {v : α} {resume : Hood α → Run α β} {resume' : Hood κ → Run κ δ} (hv : S v)
      (h : Mirrors f S hoods hoods' q (resume (hoods v)) (resume' (hoods' (f v)))) :
      Mirrors f S hoods hoods' q (.ask v resume) (.ask (f v) resume')
  | visit {n : SearchNode α} {rest : Run α β} {rest' : Run κ δ} (hn : n.Within S)
      (h : Mirrors f S hoods hoods' q rest rest') :
      Mirrors f S hoods hoods' q (.visit n rest) (.visit (n.map f) rest')
  | branch {n : SearchNode α} {v : α} {rest : Run α β} {rest' : Run κ δ} (hn : n.Within S) (hv : S v)
      (h : Mirrors f S hoods hoods' q rest rest') :
      Mirrors f S hoods hoods' q (.branch n v rest) (.branch (n.map f) (f v) rest')
  | emit {clique : List α} {rest : Run α β} {rest' : Run κ δ} (hc : ∀ u ∈ clique, S u)
      (h : Mirrors f S hoods hoods' q rest rest') :
      Mirrors f S hoods hoods' q (.emit clique rest) (.emit (clique.map f) rest')

/-- A search that asks for vertices in `S` only, as long as it is answered from `hoods`. -/
def Run.Within (S : α → Prop) (hoods : α → Hood α) : Run α β → Prop
  | .done _ => True
  | .ask v resume => S v ∧ (resume (hoods v)).Within S hoods
  | .visit _ rest => rest.Within S hoods
  | .branch _ _ rest => rest.Within S hoods
  | .emit _ rest => rest.Within S hoods

namespace Run

variable {f : α → κ} {S : α → Prop} {hoods : α → Hood α} {hoods' : κ → Hood κ} {q : β → δ → Prop}

/-- **Corresponding searches have corresponding trails**, if their polls are answered alike. -/
theorem Mirrors.trail {run : Run α β} {run' : Run κ δ} (h : run.Mirrors f S hoods hoods' q run')
    (stop : Nat → Bool) (polls : Nat) :
    (run'.trail hoods' stop polls).1 = (run.trail hoods stop polls).1.map (Event.map f) ∧
      Option.Rel q (run.trail hoods stop polls).2 (run'.trail hoods' stop polls).2 := by
  induction h generalizing polls with
  | done h => exact ⟨rfl, .some h⟩
  | ask _ _ ih => exact ih polls
  | visit _ _ ih =>
    obtain ⟨hevents, hresult⟩ := ih polls
    exact ⟨congrArg (_ :: ·) hevents, hresult⟩
  | branch _ _ _ ih =>
    cases hstop : stop polls with
    | true =>
      simp only [Run.trail, hstop, if_true]
      exact ⟨rfl, .none⟩
    | false =>
      simp only [Run.trail, hstop, Bool.false_eq_true, if_false]
      obtain ⟨hevents, hresult⟩ := ih (polls + 1)
      exact ⟨congrArg (_ :: ·) hevents, hresult⟩
  | emit _ _ ih =>
    obtain ⟨hevents, hresult⟩ := ih polls
    exact ⟨congrArg (_ :: ·) hevents, hresult⟩

/-- **Corresponding searches have corresponding histories.** -/
theorem Mirrors.events {run : Run α β} {run' : Run κ δ} (h : run.Mirrors f S hoods hoods' q run') :
    run'.events hoods' = (run.events hoods).map (Event.map f) := by
  have htrail := (h.trail (fun _ => false) 0).1
  rw [trail_never, trail_never] at htrail
  exact htrail

theorem Mirrors.result {run : Run α β} {run' : Run κ δ} (h : run.Mirrors f S hoods hoods' q run') :
    q (run.result hoods) (run'.result hoods') := by
  have hresult := (h.trail (fun _ => false) 0).2
  rw [trail_never, trail_never] at hresult
  cases hresult with
  | some h => exact h

theorem Mirrors.within {run : Run α β} {run' : Run κ δ} (h : run.Mirrors f S hoods hoods' q run') :
    run.Within S hoods := by
  induction h with
  | done => trivial
  | ask hv _ ih => exact ⟨hv, ih⟩
  | visit _ _ ih => exact ih
  | branch _ _ _ ih => exact ih
  | emit _ _ ih => exact ih

/-- **A search depends on the neighbourhoods that it asks for only.** -/
theorem Within.trail_congr {hoods' : α → Hood α} {run : Run α β} (h : run.Within S hoods)
    (heq : ∀ v, S v → hoods v = hoods' v) (stop : Nat → Bool) (polls : Nat) :
    run.trail hoods stop polls = run.trail hoods' stop polls := by
  induction run generalizing polls with
  | done b => rfl
  | ask v resume ih =>
    obtain ⟨hv, hresume⟩ := h
    rw [trail, trail, ← heq v hv]
    exact ih (hoods v) hresume polls
  | visit node rest ih => rw [trail, trail, ih h polls]
  | branch node v rest ih => rw [trail, trail, ih h (polls + 1)]
  | emit clique rest ih => rw [trail, trail, ih h polls]

/-- The cliques on the trail of a mirrored search consist of vertices in `S`. -/
theorem Mirrors.delivered_trail {run : Run α β} {run' : Run κ δ}
    (h : run.Mirrors f S hoods hoods' q run') (stop : Nat → Bool) (polls : Nat) :
    ∀ c ∈ Event.delivered (run.trail hoods stop polls).1, ∀ u ∈ c, S u := by
  induction h generalizing polls with
  | done => intro c hc; simp [Run.trail] at hc
  | ask _ _ ih => exact ih polls
  | visit _ _ ih => exact ih polls
  | branch _ _ _ ih =>
    cases hstop : stop polls with
    | true => intro c hc; simp [Run.trail, hstop] at hc
    | false =>
      simp only [Run.trail, hstop, Bool.false_eq_true, if_false]
      exact ih (polls + 1)
  | emit hclique _ ih =>
    intro c hc
    rcases List.mem_cons.1 hc with rfl | hc
    · exact hclique
    · exact ih polls c hc

/-- The cliques that a mirrored search delivers consist of vertices in `S`. -/
theorem Mirrors.delivered {run : Run α β} {run' : Run κ δ}
    (h : run.Mirrors f S hoods hoods' q run') :
    ∀ c ∈ Event.delivered (run.events hoods), ∀ u ∈ c, S u := by
  have htrail := h.delivered_trail (fun _ => false) 0
  rw [trail_never] at htrail
  exact htrail

theorem askAll_mirrors {us : List α} {k : List (Hood α) → Run α β} {k' : List (Hood κ) → Run κ δ}
    (hus : ∀ u ∈ us, S u)
    (hk : (k (us.map hoods)).Mirrors f S hoods hoods' q (k' ((us.map f).map hoods'))) :
    (askAll us k).Mirrors f S hoods hoods' q (askAll (us.map f) k') := by
  induction us generalizing k k' with
  | nil => exact hk
  | cons u us ih =>
    refine .ask (hus u List.mem_cons_self) ?_
    exact ih (fun w hw => hus w (List.mem_cons_of_mem u hw)) hk

end Run

/-! ### Corresponding plans -/

/-- Plans that agree on the pivot and order corresponding vertices alike. -/
structure Plan.Agrees (f : α → κ) (S : α → Prop) (plan : Plan α) (plan' : Plan κ) : Prop where
  pivot : plan.pivot = plan'.pivot
  le : ∀ u v, S u → S v → plan.le u v = plan'.le (f u) (f v)

namespace Plan

variable {f : α → κ} {S : α → Prop} {hoods : α → Hood α} {hoods' : κ → Hood κ} {q : β → δ → Prop}
variable {plan : Plan α} {plan' : Plan κ}

theorem Agrees.map_ordered (hp : plan.Agrees f S plan') {us : List α} (hus : ∀ u ∈ us, S u) :
    (plan.ordered us).map f = plan'.ordered (us.map f) :=
  List.map_mergeSort fun u hu v hv => hp.le u v (hus u hu) (hus v hv)

theorem mem_ordered {us : List α} {u : α} : u ∈ plan.ordered us ↔ u ∈ us :=
  List.mem_mergeSort

/-- Neighbourhoods that are the widest of corresponding ones correspond. -/
theorem widest_mirrors {P : List α} (hP : ∀ u ∈ P, S u) {hs : List (Hood α)} {hs' : List (Hood κ)}
    (hhs : List.Forall₂ (Hood.Mirrors f S) hs hs') :
    Option.Rel (Hood.Mirrors f S) (widest P hs) (widest (P.map f) hs') := by
  -- the best neighbourhoods so far correspond and have equally many members
  let Best : Option (Nat × Hood α) → Option (Nat × Hood κ) → Prop :=
    Option.Rel fun a b => a.1 = b.1 ∧ a.2.Mirrors f S b.2
  have hfold : ∀ a b, Best a b → Best (hs.foldl (wider P) a) (hs'.foldl (wider (P.map f)) b) := by
    induction hhs with
    | nil => intro a b hab; exact hab
    | @cons h h' _ _ hh _ ih =>
      intro a b hab
      refine ih _ _ ?_
      have hcount : P.countP h.has = (P.map f).countP h'.has := hh.countP hP
      cases hab with
      | none => exact .some ⟨hcount, hh⟩
      | @some a b hab =>
        obtain ⟨m, g⟩ := a
        obtain ⟨m', g'⟩ := b
        obtain ⟨rfl, hg⟩ := hab
        simp only [wider, ← hcount]
        split
        · exact .some ⟨rfl, hh⟩
        · exact .some ⟨rfl, hg⟩
  have hbest := hfold none none .none
  unfold widest
  generalize hs.foldl (wider P) none = a at hbest
  generalize hs'.foldl (wider (P.map f)) none = b at hbest
  cases hbest with
  | none => exact .none
  | some hab => exact .some hab.2

/-- **Corresponding candidates are parted alike.** -/
theorem choose_mirrors (hp : plan.Agrees f S plan')
    (hh : ∀ v, S v → (hoods v).Mirrors f S (hoods' (f v))) {P X : List α} (hP : ∀ u ∈ P, S u)
    (hX : ∀ u ∈ X, S u) {k : Split P → Run α β} {k' : Split (P.map f) → Run κ δ}
    (hk : ∀ (s : Split P) (s' : Split (P.map f)), s'.todo = s.todo.map f → s'.kept = s.kept.map f →
      (k s).Mirrors f S hoods hoods' q (k' s')) :
    (plan.choose P X k).Mirrors f S hoods hoods' q (plan'.choose (P.map f) (X.map f) k') := by
  have hordP : ∀ u ∈ plan.ordered P, S u := fun u hu => hP u (mem_ordered.1 hu)
  have heveryone : (k (plan.everyone P)).Mirrors f S hoods hoods' q
      (k' (plan'.everyone (P.map f))) := hk _ _ (hp.map_ordered hP).symm rfl
  have houtside : ∀ h h', Hood.Mirrors f S h h' → (k (plan.outside h P)).Mirrors f S hoods hoods' q
      (k' (plan'.outside h' (P.map f))) := by
    intro h h' hhood
    refine hk _ _ ?_ ?_
    · show (plan'.ordered (P.map f)).filter (fun u => !h'.has u) = _
      rw [← hp.map_ordered hP]
      exact (hhood.map_filter not hordP).symm
    · show (plan'.ordered (P.map f)).filter h'.has = _
      rw [← hp.map_ordered hP]
      exact (hhood.map_filter id hordP).symm
  unfold choose
  rw [← hp.pivot, List.isEmpty_map]
  split
  · have hPX : ∀ u ∈ P ++ X, S u := fun u hu => (List.mem_append.1 hu).elim (hP u) (hX u)
    have hall : ∀ u ∈ plan.ordered (P ++ X), S u := fun u hu => hPX u (mem_ordered.1 hu)
    rw [← List.map_append, ← hp.map_ordered hPX]
    refine Run.askAll_mirrors hall ?_
    have hforall : List.Forall₂ (Hood.Mirrors f S) ((plan.ordered (P ++ X)).map hoods)
        (((plan.ordered (P ++ X)).map f).map hoods') := by
      revert hall
      generalize plan.ordered (P ++ X) = us
      intro hall
      induction us with
      | nil => exact .nil
      | cons u us ih =>
        exact .cons (hh u (hall u List.mem_cons_self))
          (ih fun w hw => hall w (List.mem_cons_of_mem u hw))
    have hwidest := widest_mirrors hP hforall
    generalize widest P _ = a at hwidest
    generalize widest (P.map f) _ = b at hwidest
    cases hwidest with
    | none => exact heveryone
    | some hhood => exact houtside _ _ hhood
  · exact heveryone

/-- The node below a candidate corresponds to the node below the corresponding one. -/
theorem child_map {R rest X : List α} {v : α} {h : Hood α} {h' : Hood κ}
    (hh : h.Mirrors f S h') (hrest : ∀ u ∈ rest, S u) (hX : ∀ u ∈ X, S u) :
    SearchNode.child (R.map f) (f v) (rest.map f) (X.map f) h'
      = (SearchNode.child R v rest X h).map f := by
  simp only [SearchNode.child, SearchNode.map, List.map_cons, List.length_map, (hh _ _ hrest).1,
    (hh _ _ hX).1]

theorem child_within {R rest X : List α} {v : α} {h : Hood α} {h' : Hood κ}
    (hh : h.Mirrors f S h') (hR : ∀ u ∈ R, S u) (hv : S v) (hrest : ∀ u ∈ rest, S u)
    (hX : ∀ u ∈ X, S u) : (SearchNode.child R v rest X h).Within S where
  committed := by
    intro u hu
    rcases List.mem_cons.1 hu with rfl | hu
    · exact hv
    · exact hR u hu
  candidates := (hh _ _ hrest).2
  excluded := (hh _ _ hX).2

theorem enter_mirrors (hp : plan.Agrees f S plan')
    (hh : ∀ v, S v → (hoods v).Mirrors f S (hoods' (f v))) {n : SearchNode α} (hn : n.Within S)
    {next : Run α β} {next' : Run κ δ} (hnext : next.Mirrors f S hoods hoods' q next')
    {loop : Split n.candidates → Run α β} {loop' : Split (n.map f).candidates → Run κ δ}
    (hloop : ∀ (s : Split n.candidates) (s' : Split (n.map f).candidates),
      s'.todo = s.todo.map f → s'.kept = s.kept.map f →
      (loop s).Mirrors f S hoods hoods' q (loop' s')) :
    (plan.enter n next loop).Mirrors f S hoods hoods' q (plan'.enter (n.map f) next' loop') := by
  refine .visit hn ?_
  rw [SearchNode.isMaximal_map]
  split
  · exact .emit hn.committed hnext
  · exact choose_mirrors hp hh hn.candidates hn.excluded hloop

/-- **Corresponding nodes are searched alike**, and so are corresponding candidates gone through. -/
theorem search_mirrors (hp : plan.Agrees f S plan')
    (hh : ∀ v, S v → (hoods v).Mirrors f S (hoods' (f v))) :
    (∀ n : SearchNode α, n.Within S → ∀ {next : Run α β} {next' : Run κ δ},
      next.Mirrors f S hoods hoods' q next' →
      (plan.expand n next).Mirrors f S hoods hoods' q (plan'.expand (n.map f) next')) ∧
    ∀ R todo kept X : List α, (∀ u ∈ R, S u) → (∀ u ∈ todo, S u) → (∀ u ∈ kept, S u) →
      (∀ u ∈ X, S u) → ∀ {next : Run α β} {next' : Run κ δ},
      next.Mirrors f S hoods hoods' q next' →
      (plan.explore R todo kept X next).Mirrors f S hoods hoods' q
        (plan'.explore (R.map f) (todo.map f) (kept.map f) (X.map f) next') := by
  apply SearchNode.induction
  case node =>
    intro n hloop hn next next' hnext
    refine enter_mirrors hp hh hn hnext ?_
    intro s s' htodo hkept
    rw [htodo, hkept]
    have hs : ∀ u ∈ s.todo ++ s.kept, S u := fun u hu => hn.candidates u (s.perm.mem_iff.1 hu)
    exact hloop s hn.committed (fun u hu => hs u (List.mem_append_left _ hu))
      (fun u hu => hs u (List.mem_append_right _ hu)) hn.excluded hnext
  case nil =>
    intro R kept X _ _ _ _ next next' hnext
    rw [List.map_nil, explore_nil, explore_nil]
    exact hnext
  case cons =>
    intro R v rest kept X hchild hrest hR htodo hkept hX next next' hnext
    have hv : S v := htodo v List.mem_cons_self
    have hrestS : ∀ u ∈ rest, S u := fun u hu => htodo u (List.mem_cons_of_mem v hu)
    have hothers : ∀ u ∈ rest ++ kept, S u := fun u hu =>
      (List.mem_append.1 hu).elim (hrestS u) (hkept u)
    have hnode : SearchNode.Within S ⟨R, v :: rest ++ kept, X⟩ := by
      refine ⟨hR, fun u hu => ?_, hX⟩
      rcases List.mem_cons.1 hu with rfl | hu
      · exact hv
      · exact hothers u hu
    rw [explore_cons, List.map_cons, explore_cons, ← List.map_cons, ← List.map_append]
    refine .branch hnode hv (.ask hv ?_)
    rw [← List.map_append, child_map (hh v hv) hothers hX]
    refine hchild (hoods v) (child_within (hh v hv) hR hv hothers hX) ?_
    rw [← List.map_cons]
    refine hrest hR hrestS hkept (fun u hu => ?_) hnext
    rcases List.mem_cons.1 hu with rfl | hu
    · exact hv
    · exact hX u hu

theorem expand_mirrors (hp : plan.Agrees f S plan')
    (hh : ∀ v, S v → (hoods v).Mirrors f S (hoods' (f v))) {n : SearchNode α} (hn : n.Within S)
    {next : Run α β} {next' : Run κ δ} (hnext : next.Mirrors f S hoods hoods' q next') :
    (plan.expand n next).Mirrors f S hoods hoods' q (plan'.expand (n.map f) next') :=
  (search_mirrors hp hh).1 n hn hnext

end Plan

end MaximalCliques
