import MaximalCliques.Search.Plan

/-!
# The search with an explicit stack

A frame of the stack is a search node whose candidates are being gone through.  A candidate is
excluded as soon as it has been taken, before the search below it starts.

* **`Frame`** — a frame of the stack.
* **`Plan.drain`** — works until the stack is empty.
* **`Plan.expandStack`** — searches below a node.
-/

namespace MaximalCliques

/-- A search node whose candidates are being gone through. -/
structure Frame (α : Type) where
  committed : List α
  /-- The candidates still to be expanded, in order. -/
  todo : List α
  /-- The candidates that are not branched on. -/
  kept : List α
  excluded : List α

namespace Frame

variable {α : Type}

def ofNode (node : SearchNode α) (s : Split node.candidates) : Frame α :=
  ⟨node.committed, s.todo, s.kept, node.excluded⟩

def node (f : Frame α) : SearchNode α := ⟨f.committed, f.todo ++ f.kept, f.excluded⟩

/-- A bound on the steps below one candidate of a node with `n` candidates. -/
def stepsBelow : Nat → Nat
  | 0 => 0
  | n + 1 => (n + 1) * stepsBelow n + 2

/-- A bound on the steps that a frame takes. -/
def steps (f : Frame α) : Nat :=
  f.todo.length * stepsBelow (f.todo.length + f.kept.length) + 1

theorem stepsBelow_mono {m n : Nat} (h : m ≤ n) : stepsBelow m ≤ stepsBelow n := by
  induction h with
  | refl => exact Nat.le_refl _
  | @step k _ ih =>
    have h : stepsBelow k ≤ (k + 1) * stepsBelow k := Nat.le_mul_of_pos_left _ (Nat.succ_pos k)
    exact Nat.le_trans ih (Nat.le_trans h (Nat.le_add_right _ 2))

/-- Taking a candidate costs more than the frame keeps and the frame below the candidate together. -/
theorem steps_lt {n k : Nat} {f g : Frame α} {v : α} {rest : List α} (hf : f.todo = v :: rest)
    (hn : n = rest.length + f.kept.length) (hg : g.todo.length + g.kept.length = k) (hk : k ≤ n) :
    g.steps + (rest.length * stepsBelow n + 1) < f.steps := by
  have h1 : g.todo.length * stepsBelow k ≤ n * stepsBelow n :=
    Nat.mul_le_mul (by omega) (stepsBelow_mono hk)
  have h2 : rest.length * stepsBelow n ≤ rest.length * stepsBelow (n + 1) :=
    Nat.mul_le_mul_left _ (stepsBelow_mono (Nat.le_succ n))
  have h3 : stepsBelow (n + 1) = n * stepsBelow n + stepsBelow n + 2 := by
    simp only [stepsBelow, Nat.succ_mul]
  have h4 : rest.length + 1 + f.kept.length = n + 1 := by omega
  simp only [steps, hg, hf, List.length_cons, Nat.succ_mul, h4]
  omega

end Frame

namespace Plan

variable {α β : Type}

def stackSteps : List (Frame α) → Nat
  | [] => 0
  | f :: below => f.steps + stackSteps below

/-- Works until the stack is empty and then goes on with `next`. -/
def drain (plan : Plan α) (stack : List (Frame α)) (next : Run α β) : Run α β :=
  match stack with
  | [] => next
  | ⟨_, [], _, _⟩ :: below => plan.drain below next
  | ⟨R, v :: rest, kept, X⟩ :: below =>
    .branch ⟨R, v :: rest ++ kept, X⟩ v <| .ask v fun h =>
      let node := SearchNode.child R v (rest ++ kept) X h
      let stack := ⟨R, rest, kept, v :: X⟩ :: below
      plan.enter node (plan.drain stack next) fun s => plan.drain (Frame.ofNode node s :: stack) next
termination_by stackSteps stack
decreasing_by
  · simp only [stackSteps, Frame.steps]
    omega
  · have h2 : rest.length * Frame.stepsBelow (rest.length + kept.length)
        ≤ rest.length * Frame.stepsBelow (rest.length + 1 + kept.length) :=
      Nat.mul_le_mul_left _ (Frame.stepsBelow_mono (by omega))
    have h3 : 0 < Frame.stepsBelow (rest.length + 1 + kept.length) := by
      rw [Nat.add_right_comm]; simp [Frame.stepsBelow]
    simp only [stackSteps, Frame.steps, List.length_cons, Nat.succ_mul]
    omega
  · have hs := s.length_eq
    have hc : node.candidates.length ≤ (rest ++ kept).length :=
      SearchNode.length_candidates_child ..
    rw [List.length_append] at hc
    have hlt := Frame.steps_lt (f := ⟨R, v :: rest, kept, X⟩)
      (g := Frame.ofNode (SearchNode.child R v (rest ++ kept) X h) s) rfl rfl hs hc
    simp only [stackSteps, Frame.steps] at hlt ⊢
    omega

def expandStack (plan : Plan α) (node : SearchNode α) (next : Run α β) : Run α β :=
  plan.enter node next fun s => plan.drain [Frame.ofNode node s] next

end Plan

end MaximalCliques
