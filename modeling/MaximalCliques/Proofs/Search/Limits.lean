import MaximalCliques.Proofs.Graph.Orderly
import MaximalCliques.Proofs.Search.Invariant
import MaximalCliques.Proofs.Search.Keeping
import MaximalCliques.Proofs.Search.StackSearch

/-!
# Searches under limits

The recursive search with a limit on how deep its calls are nested, and the search with a stack with limits on
how many frames the stack holds and how many turns the loop takes.  Where a limit would be passed they go on
with another search, `out`.  The candidate that is expanded is still among the candidates when the node below
it is formed, and only dropping out of its own neighbourhood makes this node smaller; so without limits neither
search would have to end.

* **`SearchNode.descend`** — the node below a candidate that is still among the candidates.
* **`Plan.expandWithin`**, **`Plan.expandStackWithin`** — the searches under limits.
* **`SearchNode.IsBudget`** — how many more candidates may be committed below a node; the candidates that it
  has are one, and what is missing to a largest clique is another.
* **`Run.AgreesWith`** — searches that cannot be told apart by certain answers.
* **`Plan.expandWithin_agrees`**, **`Plan.expandStackWithin_agrees`** — limits that agree with a budget are
  never passed.
* **`Conductor.Heeds`**, **`Run.AgreesWith.finish_eq`** — conducting such searches comes to the same.
-/

namespace MaximalCliques

variable {α β τ : Type} {S : α → Prop} {ok : α → Hood α → Prop}

/-! ### The searches -/

/-- The node reached by committing to a candidate `v` of a node, which is still among the candidates. -/
def SearchNode.descend (n : SearchNode α) (v : α) (h : Hood α) : SearchNode α :=
  ⟨v :: n.committed, h.meet n.candidates.length n.candidates, h.meet n.excluded.length n.excluded⟩

theorem Hood.has_eq_false_iff {h : Hood α} {v : α} : h.has v = false ↔ ∀ u, h.find? v ≠ some u := by
  rw [has, Option.isSome_eq_false_iff, Option.isNone_iff_eq_none, Option.eq_none_iff_forall_ne_some]

/-- A vertex that is not in its own neighbourhood is not among the candidates below it. -/
theorem SearchNode.descend_eq_child {R others X : List α} {v : α} {h : Hood α} (hv : h.has v = false) :
    descend ⟨R, v :: others, X⟩ v h = child R v others X h := by
  have hnone : h.find? v = none := Option.eq_none_iff_forall_ne_some.2 (Hood.has_eq_false_iff.1 hv)
  simp only [descend, child, Hood.meet, List.length_cons, List.filterMap_cons, hnone, Option.map_none]

namespace Plan

/-- Expands the candidates `todo` of a node in turn; `below` searches below each of them. -/
def eachCandidate (below : SearchNode α → Run α β → Run α β) (R kept : List α) (next : Run α β) :
    List α → List α → Run α β
  | [], _ => next
  | v :: rest, X =>
    .branch ⟨R, v :: rest ++ kept, X⟩ v <| .ask v fun h =>
      below (.descend ⟨R, v :: rest ++ kept, X⟩ v h) (eachCandidate below R kept next rest (v :: X))

/-- The recursive search below a node, in which no more than `calls` calls are nested. -/
def expandWithin (plan : Plan α) (out : Run α β) : Nat → SearchNode α → Run α β → Run α β
  | 0, _, _ => out
  | calls + 1, n, next => plan.enter n next fun s =>
    eachCandidate (expandWithin plan out calls) n.committed s.kept next s.todo n.excluded

/-- Works until the stack is empty, for no more than `turns` turns and with no more than `height` frames. -/
def drainWithin (plan : Plan α) (out : Run α β) (height : Nat) :
    Nat → List (Frame α) → Run α β → Run α β
  | _, [], next => next
  | 0, _ :: _, _ => out
  | turns + 1, ⟨_, [], _, _⟩ :: below, next => drainWithin plan out height turns below next
  | turns + 1, ⟨R, v :: rest, kept, X⟩ :: below, next =>
    .branch ⟨R, v :: rest ++ kept, X⟩ v <| .ask v fun h =>
      let node := SearchNode.descend ⟨R, v :: rest ++ kept, X⟩ v h
      let stack := ⟨R, rest, kept, v :: X⟩ :: below
      plan.enter node (drainWithin plan out height turns stack next) fun s =>
        if stack.length < height then
          drainWithin plan out height turns (Frame.ofNode node s :: stack) next
        else out

/-- The search below a node with a stack of no more than `height` frames, in no more than `turns` turns. -/
def expandStackWithin (plan : Plan α) (out : Run α β) (height turns : Nat) (n : SearchNode α)
    (next : Run α β) : Run α β :=
  plan.enter n next fun s =>
    if 0 < height then plan.drainWithin out height turns [Frame.ofNode n s] next else out

end Plan

/-- As many turns as a loop takes that begins with a node of `m` candidates. -/
def Frame.turnsFor (m : Nat) : Nat := m * stepsBelow m + 1

/-! ### Budgets -/

/-- **A budget of a search**: in `q l n` no more than `l` candidates may be committed below `n`.  It is kept
below a candidate, where one has been committed, if the neighbourhood is in `ok`; and it is spent only where no
candidate is left. -/
structure SearchNode.IsBudget (S : α → Prop) (ok : α → Hood α → Prop) (q : Nat → SearchNode α → Prop) :
    Prop where
  within : ∀ {l n}, q l n → n.Within S
  spent : ∀ {n}, q 0 n → n.candidates = []
  child : ∀ {l R v others X h}, ok v h → q (l + 1) ⟨R, v :: others, X⟩ → q l (.child R v others X h)
  exclude : ∀ {l R v others X}, q l ⟨R, v :: others, X⟩ → q l ⟨R, others, v :: X⟩
  perm : ∀ {l R P Q X}, Q.Perm P → q l ⟨R, P, X⟩ → q l ⟨R, Q, X⟩

namespace SearchNode.IsBudget

variable {q : Nat → SearchNode α → Prop} (hq : IsBudget S ok q) {l : Nat} {R kept X : List α}
include hq

theorem parted {n : SearchNode α} (h : q l n) (s : Split n.candidates) :
    q l ⟨n.committed, s.todo ++ s.kept, n.excluded⟩ := hq.perm s.perm h

/-- There is something left of a budget where there is a candidate. -/
theorem exists_succ {v : α} {rest : List α} (h : q l ⟨R, v :: rest ++ kept, X⟩) : ∃ k, l = k + 1 := by
  cases l with
  | zero => exact absurd (hq.spent h) (List.cons_ne_nil _ _)
  | succ k => exact ⟨k, rfl⟩

end SearchNode.IsBudget

/-- A neighbourhood that leaves a vertex out, with members in `S`. -/
def Hood.LeavesOut (S : α → Prop) (v : α) (h : Hood α) : Prop := h.has v = false ∧ h.KeepsTo S

/-- **The candidates of a node are a budget**, and so are `k` more, if every vertex is left out of its own
neighbourhood: no candidate is committed twice. -/
theorem SearchNode.isBudget_candidates (S : α → Prop) (k : Nat) : IsBudget S (Hood.LeavesOut S)
    fun l n => n.Within S ∧ n.candidates.length + k ≤ l where
  within h := h.1
  spent h := List.length_eq_zero_iff.1 (by omega)
  child {l R v others X h} hh hn := by
    obtain ⟨hwithin, hlength⟩ := hn
    obtain ⟨hv, hothers⟩ := List.forall_mem_cons.1 hwithin.candidates
    have hle := length_candidates_child R v others X h
    rw [List.length_cons] at hlength
    exact ⟨.child hh.2 hwithin.committed hv hothers hwithin.excluded, by omega⟩
  exclude {l R v others X} hn := by
    obtain ⟨hwithin, hlength⟩ := hn
    obtain ⟨hv, hothers⟩ := List.forall_mem_cons.1 hwithin.candidates
    rw [List.length_cons] at hlength
    refine ⟨⟨hwithin.committed, hothers, List.forall_mem_cons.2 ⟨hv, hwithin.excluded⟩⟩, ?_⟩
    show others.length + k ≤ l
    omega
  perm hperm hn := by
    obtain ⟨hwithin, hlength⟩ := hn
    refine ⟨⟨hwithin.committed, fun u hu => hwithin.candidates u (hperm.mem_iff.1 hu), hwithin.excluded⟩, ?_⟩
    rwa [hperm.length_eq]

/-- **What is missing to `m` committed vertices is a budget** where an invariant holds, if nothing extends a
node with so many. -/
theorem SearchNode.IsInvariant.isBudget {hoods : α → Hood α} {p : SearchNode α → Prop}
    (hp : IsInvariant hoods p) (hwithin : ∀ n, p n → n.Within S) {m : Nat}
    (hfull : ∀ n, p n → m ≤ n.committed.length → n.isMaximal = true) :
    IsBudget S (fun v h => h = hoods v) fun l n => p n ∧ m ≤ n.committed.length + l where
  within h := hwithin _ h.1
  spent h := List.isEmpty_iff.1 (Bool.and_eq_true_iff.1 (hfull _ h.1 h.2)).1
  child {l R v others X h} hh hn := by
    obtain ⟨hn, hlength⟩ := hn
    rw [hh]
    refine ⟨hp.child _ _ _ _ hn, ?_⟩
    show m ≤ R.length + 1 + l
    rwa [Nat.add_assoc, Nat.add_comm 1 l]
  exclude hn := ⟨hp.exclude _ _ _ _ hn.1, hn.2⟩
  perm hperm hn := ⟨hp.perm _ _ _ _ hperm hn.1, hn.2⟩

/-! ### Searches that agree -/

/-- **Searches that agree**: they make the same requests, and ask for vertices in `S` only, as long as the
neighbourhoods that they are given are in `ok`. -/
inductive Run.AgreesWith (S : α → Prop) (ok : α → Hood α → Prop) : Run α β → Run α β → Prop
  | done (b : β) : AgreesWith S ok (.done b) (.done b)
  | ask {v : α} {resume resume' : Hood α → Run α β} (hv : S v)
      (h : ∀ hood, ok v hood → AgreesWith S ok (resume hood) (resume' hood)) :
      AgreesWith S ok (.ask v resume) (.ask v resume')
  | visit (n : SearchNode α) {rest rest' : Run α β} (h : AgreesWith S ok rest rest') :
      AgreesWith S ok (.visit n rest) (.visit n rest')
  | branch (n : SearchNode α) (v : α) {rest rest' : Run α β} (h : AgreesWith S ok rest rest') :
      AgreesWith S ok (.branch n v rest) (.branch n v rest')
  | emit (clique : List α) {rest rest' : Run α β} (h : AgreesWith S ok rest rest') :
      AgreesWith S ok (.emit clique rest) (.emit clique rest')

theorem Run.askAll_agrees {us : List α} {k k' : List (Hood α) → Run α β} (hus : ∀ u ∈ us, S u)
    (hk : ∀ hs, (k hs).AgreesWith S ok (k' hs)) : (askAll us k).AgreesWith S ok (askAll us k') := by
  induction us generalizing k k' with
  | nil => exact hk []
  | cons u us ih =>
    obtain ⟨hu, hus⟩ := List.forall_mem_cons.1 hus
    exact .ask hu fun h _ => ih hus fun hs => hk (h :: hs)

namespace Plan

variable (plan : Plan α)

theorem choose_agrees {P X : List α} (hP : ∀ u ∈ P, S u) (hX : ∀ u ∈ X, S u)
    {k k' : Split P → Run α β} (hk : ∀ s, (k s).AgreesWith S ok (k' s)) :
    (plan.choose P X k).AgreesWith S ok (plan.choose P X k') := by
  unfold choose
  split
  · refine Run.askAll_agrees (fun u hu => ?_) fun hoods => ?_
    · exact (List.mem_append.1 (mem_ordered.1 hu)).elim (hP u) (hX u)
    · split <;> exact hk _
  · exact hk _

theorem enter_agrees {n : SearchNode α} (hn : n.Within S) {next next' : Run α β}
    (hnext : next.AgreesWith S ok next') {loop loop' : Split n.candidates → Run α β}
    (hloop : n.isMaximal = false → ∀ s, (loop s).AgreesWith S ok (loop' s)) :
    (plan.enter n next loop).AgreesWith S ok (plan.enter n next' loop') := by
  refine .visit n ?_
  cases hmaximal : n.isMaximal with
  | true => exact .emit n.committed hnext
  | false => exact plan.choose_agrees hn.candidates hn.excluded (hloop hmaximal)

variable {plan} {q : Nat → SearchNode α → Prop} (hq : SearchNode.IsBudget S ok q)
variable (hok : ∀ v h, S v → ok v h → h.has v = false) (out : Run α β)
include hq hok

/-- **Calls that are nested within a budget** are those of the recursive search: a node with a budget of `l`
takes one call itself and `l` nested ones. -/
theorem search_agrees :
    (∀ n l, q l n → ∀ {next next' : Run α β}, next.AgreesWith S ok next' →
      (plan.expandWithin out (l + 1) n next).AgreesWith S ok (plan.expand n next')) ∧
    ∀ R todo kept X l, q l ⟨R, todo ++ kept, X⟩ → ∀ {next next' : Run α β}, next.AgreesWith S ok next' →
      (eachCandidate (plan.expandWithin out l) R kept next todo X).AgreesWith S ok
        (plan.explore R todo kept X next') := by
  apply SearchNode.induction
  case node =>
    intro n hloop l hn next next' hnext
    exact plan.enter_agrees (hq.within hn) hnext fun _ s => hloop s l (hq.parted hn s) hnext
  case nil =>
    intro R kept X l _ next next' hnext
    rwa [explore_nil]
  case cons =>
    intro R v rest kept X hchild hrest l hn next next' hnext
    have hv : S v := (hq.within hn).candidates v List.mem_cons_self
    have hafter := hrest l (hq.exclude hn) hnext
    obtain ⟨k, rfl⟩ := hq.exists_succ hn
    rw [explore_cons]
    refine .branch _ v (.ask hv fun h hh => ?_)
    rw [List.cons_append, SearchNode.descend_eq_child (hok v h hv hh)]
    exact hchild h k (hq.child hh hn) hafter

/-- **The recursive search keeps within one call more than its budget.** -/
theorem expandWithin_agrees {l : Nat} {n : SearchNode α} (hn : q l n) {next : Run α β}
    (hnext : next.AgreesWith S ok next) :
    (plan.expandWithin out (l + 1) n next).AgreesWith S ok (plan.expand n next) :=
  (search_agrees hq hok out).1 n l hn hnext

end Plan

/-! ### Stacks -/

section Stack

variable {R rest kept X : List α} {v : α} {below : List (Frame α)}

/-- What a frame keeps after a candidate and the frame below this candidate take fewer steps together than the
frame did. -/
theorem Frame.steps_advance {g : Frame α} (hg : g.todo.length + g.kept.length ≤ rest.length + kept.length) :
    g.steps + (⟨R, rest, kept, v :: X⟩ : Frame α).steps < (⟨R, v :: rest, kept, X⟩ : Frame α).steps :=
  steps_lt rfl rfl rfl hg

theorem Plan.stackSteps_exclude :
    stackSteps (⟨R, rest, kept, v :: X⟩ :: below) < stackSteps (⟨R, v :: rest, kept, X⟩ :: below) := by
  have hlt := Frame.steps_advance (R := R) (X := X) (v := v) (g := ⟨R, rest, kept, X⟩)
    (Nat.le_refl (rest.length + kept.length))
  rw [stackSteps, stackSteps]
  omega

theorem Plan.stackSteps_push {h : Hood α} (s : Split (SearchNode.child R v (rest ++ kept) X h).candidates) :
    stackSteps (Frame.ofNode _ s :: ⟨R, rest, kept, v :: X⟩ :: below)
      < stackSteps (⟨R, v :: rest, kept, X⟩ :: below) := by
  have hlength : s.todo.length + s.kept.length ≤ rest.length + kept.length := by
    rw [s.length_eq, ← List.length_append]
    exact SearchNode.length_candidates_child ..
  have hlt := Frame.steps_advance (R := R) (X := X) (v := v) (g := Frame.ofNode _ s) hlength
  rw [stackSteps, stackSteps, stackSteps]
  omega

/-- **Every frame of a stack fits**: counted from the frame on, the stack may be `l + 1` frames higher than it
is below, and so many candidates may be committed below the node of the frame. -/
def Frame.Fit (q : Nat → SearchNode α → Prop) (height : Nat) : List (Frame α) → Prop
  | [] => True
  | f :: below => (∃ l, l + 1 + below.length = height ∧ q (l + 1) f.node) ∧ Fit q height below

namespace Frame.Fit

variable {q : Nat → SearchNode α → Prop} {height : Nat}
variable (h : Fit q height (⟨R, v :: rest, kept, X⟩ :: below)) (hq : SearchNode.IsBudget S ok q)
include h hq

theorem exclude : Fit q height (⟨R, rest, kept, v :: X⟩ :: below) := by
  obtain ⟨⟨l, hheight, hn⟩, hbelow⟩ := h
  exact ⟨⟨l, hheight, hq.exclude hn⟩, hbelow⟩

/-- **There is room for a node below a candidate that something extends**: the budget is not spent there. -/
theorem push (hfull : ∀ n, q 0 n → n.isMaximal = true) {hood : Hood α} (hhood : ok v hood)
    (hmore : (SearchNode.child R v (rest ++ kept) X hood).isMaximal = false)
    (s : Split (SearchNode.child R v (rest ++ kept) X hood).candidates) :
    (⟨R, rest, kept, v :: X⟩ :: below).length < height ∧
      Fit q height (ofNode _ s :: ⟨R, rest, kept, v :: X⟩ :: below) := by
  have hexcluded := h.exclude hq
  obtain ⟨⟨l, hheight, hn⟩, -⟩ := h
  have hchild : q l (.child R v (rest ++ kept) X hood) := hq.child hhood hn
  rw [List.length_cons]
  cases l with
  | zero => exact absurd (hfull _ hchild) (by rw [hmore]; exact Bool.false_ne_true)
  | succ k =>
    refine ⟨by omega, ⟨k, ?_, hq.parted hchild s⟩, hexcluded⟩
    rw [List.length_cons]
    omega

end Frame.Fit

end Stack

namespace Plan

variable {plan : Plan α} {q : Nat → SearchNode α → Prop} (hq : SearchNode.IsBudget S ok q)
variable (hok : ∀ v h, S v → ok v h → h.has v = false) (hfull : ∀ n, q 0 n → n.isMaximal = true)
variable (out : Run α β) {height : Nat} {next : Run α β}
include hq hok hfull

/-- **A stack whose frames fit** never gets higher, and is empty after as many turns as its frames take steps:
every turn takes a step, and a frame is put on the stack only for a node that something extends. -/
theorem drainWithin_agrees (hnext : next.AgreesWith S ok next) (turns : Nat) (stack : List (Frame α))
    (hsteps : stackSteps stack ≤ turns) (hfit : Frame.Fit q height stack) :
    (plan.drainWithin out height turns stack next).AgreesWith S ok (plan.drain stack next) := by
  induction turns generalizing stack with
  | zero =>
    cases stack with
    | nil => rwa [drainWithin, drain_nil]
    | cons f below => exact absurd hsteps (by simp [stackSteps, Frame.steps])
  | succ turns ih =>
    cases stack with
    | nil => rwa [drainWithin, drain_nil]
    | cons f below =>
      obtain ⟨R, todo, kept, X⟩ := f
      cases todo with
      | nil =>
        rw [drainWithin, drain_finished]
        rw [stackSteps, Frame.steps] at hsteps
        exact ih below (by omega) hfit.2
      | cons v rest =>
        obtain ⟨l, -, hn⟩ := hfit.1
        have hv : S v := (hq.within hn).candidates v List.mem_cons_self
        rw [drainWithin, drain]
        refine .branch _ v (.ask hv fun h hh => ?_)
        rw [List.cons_append, SearchNode.descend_eq_child (hok v h hv hh)]
        refine plan.enter_agrees (hq.within (hq.child hh hn)) ?_ fun hmore s => ?_
        · have hlt := Nat.lt_of_lt_of_le stackSteps_exclude hsteps
          exact ih _ (Nat.le_of_lt_succ hlt) (hfit.exclude hq)
        · obtain ⟨hroom, hpushed⟩ := hfit.push hq hfull hh hmore s
          have hlt := Nat.lt_of_lt_of_le (stackSteps_push s) hsteps
          rw [if_pos hroom]
          exact ih _ (Nat.le_of_lt_succ hlt) hpushed

/-- **The search with a stack keeps within its budget**, if something is left of it wherever something extends
the node. -/
theorem expandStackWithin_agrees {n : SearchNode α} (hn : q height n)
    (hnext : next.AgreesWith S ok next) :
    (plan.expandStackWithin out height (Frame.turnsFor n.candidates.length) n next).AgreesWith S ok
      (plan.expandStack n next) := by
  refine plan.enter_agrees (hq.within hn) hnext fun hmore s => ?_
  cases height with
  | zero => exact absurd (hfull n hn) (by rw [hmore]; exact Bool.false_ne_true)
  | succ l =>
    rw [if_pos (Nat.succ_pos l)]
    refine drainWithin_agrees hq hok hfull out hnext _ _ ?_ ⟨⟨l, rfl, hq.parted hn s⟩, trivial⟩
    have hs := s.length_eq
    have hle : s.todo.length * Frame.stepsBelow n.candidates.length
        ≤ n.candidates.length * Frame.stepsBelow n.candidates.length :=
      Nat.mul_le_mul_right _ (by omega)
    simp only [stackSteps, Frame.steps, Frame.ofNode, Frame.turnsFor, hs]
    omega

end Plan

/-! ### Conducting searches that agree -/

/-- **A conductor that gives neighbourhoods in `ok`** for vertices in `S`, as long as it is in a state of `I`,
and stays in these states. -/
structure Conductor.Heeds (c : Conductor (Query τ) α) (S : α → Prop) (ok : α → Hood α → Prop)
    (I : τ → Prop) : Prop where
  hood : ∀ {v t h t'}, S v → I t → (c.hood v).run t = (.ok h, t') → ok v h ∧ I t'
  visit : ∀ {n t a t'}, I t → (c.visit n).run t = (.ok a, t') → I t'
  mayBranch : ∀ {n v t b t'}, I t → (c.mayBranch n v).run t = (.ok b, t') → I t'
  emit : ∀ {clique t a t'}, I t → (c.emit clique).run t = (.ok a, t') → I t'

theorem Query.run_bind_congr {γ δ : Type} {q : Query τ γ} {k k' : γ → Query τ δ} {t : τ}
    (h : ∀ a t', q.run t = (.ok a, t') → (k a).run t' = (k' a).run t') :
    (q >>= k).run t = (q >>= k').run t := by
  rw [run_bind, run_bind]
  cases hq : q.run t with
  | mk answer t' =>
    cases answer with
    | ok a => exact h a t' hq
    | error e => rfl

/-- **Searches that agree come to the same** when a conductor conducts them to their end that heeds what they
agree on. -/
theorem Run.AgreesWith.finish_eq {run run' : Run α β} (h : run.AgreesWith S ok run')
    {c : Conductor (Query τ) α} {I : τ → Prop} (hc : c.Heeds S ok I) {t : τ} (ht : I t) :
    (run.finish c).run t = (run'.finish c).run t := by
  induction h generalizing t with
  | done b => rfl
  | ask hv _ ih =>
    refine Query.run_bind_congr fun hood t' hrun => ?_
    obtain ⟨hhood, ht'⟩ := hc.hood hv ht hrun
    exact ih hood hhood ht'
  | visit n _ ih => exact Query.run_bind_congr fun _ t' hrun => ih (hc.visit ht hrun)
  | branch n v _ ih =>
    refine Query.run_bind_congr fun goOn t' hrun => ?_
    cases goOn with
    | true => exact ih (hc.mayBranch ht hrun)
    | false => rfl
  | emit clique _ ih => exact Query.run_bind_congr fun _ t' hrun => ih (hc.emit ht hrun)

/-- A search is stopped only by a poll: a conductor that lets it go on conducts it to a result. -/
theorem Run.exists_of_finish {c : Conductor (Query τ) α}
    (hc : ∀ {n v t b t'}, (c.mayBranch n v).run t = (.ok b, t') → b = true) {run : Run α β} {t t' : τ}
    {result : Option β} (h : (run.finish c).run t = (.ok result, t')) : ∃ b, result = some b := by
  induction run generalizing t with
  | done b =>
    cases h
    exact ⟨b, rfl⟩
  | ask v resume ih =>
    obtain ⟨hood, u, -, hrest⟩ := Query.ok_of_run_bind h
    exact ih hood hrest
  | visit n rest ih =>
    obtain ⟨_, u, -, hrest⟩ := Query.ok_of_run_bind h
    exact ih hrest
  | branch n v rest ih =>
    obtain ⟨goOn, u, hpoll, hrest⟩ := Query.ok_of_run_bind h
    rw [hc hpoll] at hrest
    exact ih hrest
  | emit clique rest ih =>
    obtain ⟨_, u, -, hrest⟩ := Query.ok_of_run_bind h
    exact ih hrest

end MaximalCliques
