import MaximalCliques.Proofs.Enumeration.PoolRuns

/-!
# How an enumeration on a pool stands

* **`Standing.Ends`** — every schedule comes to an end, and only by being over; **`enumerateOnPool_of_over`**
  is the case in which it is over at once.
* **`enumerateOnPool_ends`** — on an orderly graph it does.
* **`enumerateOnPool_settled`** — what is known once it is over.
* **`Outcome.cliques_ofBranches`**, **`Outcome.counters_ofBranches`**, **`Outcome.fault_ofBranches`** —
  what branches come to together of which none has failed.
-/

namespace MaximalCliques

variable {σ : Type}

/-- **Every schedule comes to an end.**  The moves that are possible one after the other are bounded in
number, and as long as the enumeration is under way some move is possible. -/
structure Standing.Ends (standing : List Move → Standing σ) : Prop where
  begins : standing [] ≠ .impossible
  bounded : ∃ bound, ∀ moves, standing moves ≠ .impossible → moves.length ≤ bound
  continues : ∀ moves pool, standing moves = .underWay pool →
    ∃ move, standing (moves ++ [move]) ≠ .impossible

theorem Standing.Ends.exists_settled {standing : List Move → Standing σ} (h : Ends standing) :
    ∃ moves branches outcome w, standing moves = .settled branches outcome w := by
  obtain ⟨bound, hbound⟩ := h.bounded
  have hlong : ∀ n, (∃ moves branches outcome w, standing moves = .settled branches outcome w) ∨
      ∃ moves, standing moves ≠ .impossible ∧ moves.length = n := by
    intro n
    induction n with
    | zero => exact .inr ⟨[], h.begins, rfl⟩
    | succ n ih =>
      rcases ih with hsettled | ⟨moves, hmoves, hlength⟩
      · exact .inl hsettled
      · cases hstanding : standing moves with
        | impossible => exact absurd hstanding hmoves
        | underWay pool =>
          obtain ⟨move, hmove⟩ := h.continues moves pool hstanding
          exact .inr ⟨moves ++ [move], hmove, by simp [hlength]⟩
        | settled branches outcome w => exact .inl ⟨moves, branches, outcome, w, hstanding⟩
  rcases hlong (bound + 1) with hsettled | ⟨moves, hmoves, hlength⟩
  · exact hsettled
  · have hle := hbound moves hmoves
    omega

/-! ### Over at once -/

/-- An enumeration on a pool that is over before a branch is begun has one schedule. -/
theorem enumerateOnPool_of_over {g : Access σ} {w v : σ} {settings : Settings}
    {stop : Nat → Query σ Bool} {counters : Counters} {outcome : Outcome}
    (h : (prepareBranches g settings stop counters).run w = (.inl outcome, v)) (moves : List Move) :
    enumerateOnPool g settings stop counters moves w
      = if moves.isEmpty then .settled [] outcome v else .impossible := by
  unfold enumerateOnPool
  rw [h]

section Over

variable {standing : List Move → Standing σ} {branches : List Branch} {outcome : Outcome} {w : σ}
variable (h : ∀ moves, standing moves = if moves.isEmpty then .settled branches outcome w else .impossible)
include h

theorem Standing.ends_of_over : Ends standing where
  begins := by
    rw [h]
    simp
  bounded := by
    refine ⟨0, fun moves hmoves => ?_⟩
    rw [h] at hmoves
    cases moves with
    | nil => exact Nat.le_refl 0
    | cons move moves => exact absurd rfl hmoves
  continues moves pool hpool := by
    rw [h] at hpool
    split at hpool <;> cases hpool

/-- However a standing that is settled at once is settled, it is so. -/
theorem Standing.eq_of_over {moves : List Move} {branches' : List Branch} {outcome' : Outcome} {w' : σ}
    (hsettled : standing moves = .settled branches' outcome' w') :
    branches' = branches ∧ outcome' = outcome ∧ w' = w := by
  rw [h] at hsettled
  split at hsettled
  case isTrue =>
    injection hsettled with hbranches houtcome hw
    exact ⟨hbranches.symm, houtcome.symm, hw.symm⟩
  case isFalse => cases hsettled

end Over

/-! ### What the branches come to together -/

namespace Branch

theorem anyStopped_iff {branches : List Branch} :
    anyStopped branches = true ↔ ∃ b ∈ branches, b.ending = .stopped := by
  rw [anyStopped, List.any_eq_true]
  refine exists_congr fun b => and_congr_right fun _ => ?_
  cases b.ending <;> simp

theorem firstFault_eq_none {branches : List Branch}
    (h : ∀ b ∈ branches, ∀ fault, b.ending ≠ .failed fault) : firstFault branches = none := by
  refine List.findSome?_eq_none_iff.2 fun b hb => ?_
  cases hending : b.ending with
  | failed fault => exact absurd hending (h b hb fault)
  | _ => rfl

theorem Sound.ne_failed {g : Access σ} {w : σ} {o : Oracle} {settings : Settings} {b : Branch}
    {es : List (Event Vertex)} (h : b.Sound g w o settings es) (fault : Fault) :
    b.ending ≠ .failed fault := by
  intro hfailed
  have hending := h.ending
  rw [hfailed] at hending
  cases hending

end Branch

namespace Outcome

variable {branches : List Branch} (counters : Counters) (polls : Nat) (reports : List Report)

theorem foldl_counters (branches : List Branch) (c : Counters) :
    branches.foldl (fun c b => c + b.counters) c
      = c + branches.foldr (fun b c => b.counters + c) {} := by
  induction branches generalizing c with
  | nil => exact (Counters.add_zero c).symm
  | cons b branches ih => rw [List.foldl_cons, ih, List.foldr_cons, Counters.add_assoc]

theorem polls_ofBranches : (ofBranches counters polls reports branches).polls = polls := by
  unfold ofBranches
  cases Branch.firstFault branches with
  | some fault => rfl
  | none => cases Branch.anyStopped branches <;> rfl

variable (hfault : ∀ b ∈ branches, ∀ fault, b.ending ≠ .failed fault)
include hfault

/-- Branches of which none has failed hand over all that they have found. -/
theorem cliques_ofBranches : (ofBranches counters polls reports branches).cliques
    = Clique.collect (branches.flatMap (·.found)) := by
  unfold ofBranches
  rw [Branch.firstFault_eq_none hfault]
  cases Branch.anyStopped branches <;> rfl

/-- Branches of which none has failed count together, on top of what the root has counted. -/
theorem counters_ofBranches : (ofBranches counters polls reports branches).counters
    = counters + branches.foldr (fun b c => b.counters + c) {} := by
  unfold ofBranches
  rw [Branch.firstFault_eq_none hfault, ← foldl_counters]
  cases Branch.anyStopped branches <;> rfl

/-- Branches of which none has failed are cancelled if one has been stopped. -/
theorem fault_ofBranches : (ofBranches counters polls reports branches).fault
    = if Branch.anyStopped branches then some (.cancelled
        ((ofBranches counters polls reports branches).cliques.map Clique.nodes)) else none := by
  unfold ofBranches
  rw [Branch.firstFault_eq_none hfault]
  cases Branch.anyStopped branches <;> rfl

end Outcome

/-! ### Standing after a schedule -/

def Subject.batch (g : Access σ) (w : σ) (o : Oracle) (settings : Settings) (counters : Counters) :
    Batch where
  subject := ⟨o, g.roster w⟩
  roots := topRoots g w o settings
  counters := counters + { calls := 1 } + { branches := (topRoots g w o settings).length }
  reports := [Subject.report ⟨o, g.roster w⟩]

def Outcome.ofNothing (s : Subject) (counters : Counters) : Outcome where
  cliques := [[]]
  counters := counters + { calls := 1 } + { cliques := 1 }
  reports := [s.report]

section Orderly

variable {g : Access σ} {w : σ} {o : Oracle} {settings : Settings}

variable (hg : g.Orderly w) (ho : o.Tabulates g w)
include hg ho

theorem perform_sound (answers : Nat → Bool) (counters : Counters) {moves : List Move} {pool : Pool σ}
    (h : (Pool.ofBatch (Subject.batch g w o settings counters) w).perform ⟨o, g.roster w⟩ g settings
      (fun k => pure (answers k)) moves = some pool) :
    pool.Sound g w o settings answers (Subject.topRoots g w o settings) ∧
      moves.length ≤ (Pool.ofBatch (Subject.batch g w o settings counters) w).left g w o settings := by
  have hstart : (Pool.ofBatch (Subject.batch g w o settings counters) w).Sound g w o settings answers
      (Subject.batch g w o settings counters).roots :=
    Pool.ofBatch_sound (Subject.topRoots_within hg ho)
  obtain ⟨hsound, hlength⟩ := Pool.perform_induction
    (fun pool pool' hpool hmove => Pool.Sound.move hg ho hpool hmove) hstart h
  exact ⟨hsound, by omega⟩

variable (htabulate : (Subject.tabulate g settings).Answers w ⟨o, g.roster w⟩)
variable (answers : Nat → Bool) (counters : Counters)
include htabulate

omit hg ho in
theorem enumerateOnPool_of_empty (hempty : g.listed w = []) (moves : List Move) :
    enumerateOnPool g settings (fun k => pure (answers k)) counters moves w
      = if moves.isEmpty then .settled [] (.ofNothing ⟨o, g.roster w⟩ counters) w else .impossible := by
  exact enumerateOnPool_of_over (prepareBranches_of_empty htabulate hempty _ counters) moves

theorem enumerateOnPool_eq (hne : g.listed w ≠ []) (hworkers : settings.requireWorkers = .ok ())
    (moves : List Move) :
    enumerateOnPool g settings (fun k => pure (answers k)) counters moves w
      = match (Pool.ofBatch (Subject.batch g w o settings counters) w).perform ⟨o, g.roster w⟩ g
          settings (fun k => pure (answers k)) moves with
        | none => .impossible
        | some pool => (Subject.batch g w o settings counters).standing pool := by
  unfold enumerateOnPool
  rw [prepareBranches_answers hg ho htabulate hne hworkers]
  rfl

/-- **An enumeration that is under way** has been led to its pool by its schedule. -/
theorem perform_of_underWay {moves : List Move} {pool : Pool σ}
    (h : enumerateOnPool g settings (fun k => pure (answers k)) counters moves w = .underWay pool) :
    (Pool.ofBatch (Subject.batch g w o settings counters) w).perform ⟨o, g.roster w⟩ g settings
      (fun k => pure (answers k)) moves = some pool := by
  by_cases hempty : g.listed w = []
  · rw [enumerateOnPool_of_empty htabulate answers counters hempty] at h
    split at h <;> cases h
  · cases hworkers : settings.requireWorkers with
    | error e =>
      have hover := prepareBranches_eq hg ho htabulate hempty (fun k => pure (answers k)) counters
      rw [hworkers] at hover
      rw [enumerateOnPool_of_over hover] at h
      split at h <;> cases h
    | ok =>
      rw [enumerateOnPool_eq hg ho htabulate answers counters hempty hworkers] at h
      split at h
      case h_1 => cases h
      case h_2 pool' hpool =>
        unfold Batch.standing at h
        split at h
        case h_1 => cases h
        case h_2 => rw [hpool, Standing.underWay.inj h]

/-- **On an orderly graph every schedule comes to an end.** -/
theorem enumerateOnPool_ends (hwork : settings.AllowsWork) : Standing.Ends fun moves =>
    enumerateOnPool g settings (fun k => pure (answers k)) counters moves w := by
  by_cases hempty : g.listed w = []
  · exact Standing.ends_of_over (enumerateOnPool_of_empty htabulate answers counters hempty)
  · refine ⟨?_, ⟨(Pool.ofBatch (Subject.batch g w o settings counters) w).left g w o settings,
      fun moves hmoves => ?_⟩, fun moves pool h => ?_⟩
    · rw [enumerateOnPool_eq hg ho htabulate answers counters hempty hwork.accepted]
      exact Batch.standing_ne_impossible _ _
    · simp only [enumerateOnPool_eq hg ho htabulate answers counters hempty hwork.accepted] at hmoves
      split at hmoves
      case h_1 => exact absurd rfl hmoves
      case h_2 pool hpool => exact (perform_sound hg ho answers counters hpool).2
    · simp only [enumerateOnPool_eq hg ho htabulate answers counters hempty hwork.accepted] at h ⊢
      split at h
      case h_1 => cases h
      case h_2 pool hpool =>
        unfold Batch.standing at h
        split at h
        case h_1 => cases h
        case h_2 hbranches =>
          obtain ⟨move, pool', hmove⟩ : ∃ move pool', pool.step ⟨o, g.roster w⟩ g settings
              (fun k => pure (answers k)) move = some pool' := Pool.exists_step hwork hbranches
          refine ⟨move, ?_⟩
          rw [Pool.perform_append, hpool, Option.bind_some, Pool.perform, hmove]
          exact Batch.standing_ne_impossible _ pool'

/-- An enumeration that is over has led to a pool whose branches have all ended. -/
theorem exists_pool_of_settled (hne : g.listed w ≠ []) (hwork : settings.AllowsWork)
    {moves : List Move} {branches : List Branch} {outcome : Outcome} {world : σ}
    (h : enumerateOnPool g settings (fun k => pure (answers k)) counters moves w
      = .settled branches outcome world) :
    ∃ pool, (Pool.ofBatch (Subject.batch g w o settings counters) w).perform ⟨o, g.roster w⟩ g
        settings (fun k => pure (answers k)) moves = some pool ∧
      pool.branches? = some branches ∧ pool.world = world ∧
      outcome = .ofBranches (Subject.batch g w o settings counters).counters pool.polls
        (Subject.batch g w o settings counters).reports branches := by
  rw [enumerateOnPool_eq hg ho htabulate answers counters hne hwork.accepted] at h
  split at h
  case h_1 => cases h
  case h_2 pool hpool =>
    unfold Batch.standing at h
    split at h
    case h_1 branches' hbranches =>
      injection h with hbs houtcome hworld
      subst hbs houtcome hworld
      exact ⟨pool, hpool, hbranches, rfl, rfl⟩
    case h_2 => cases h

/-- **What is known of an enumeration that is over.**  There is a branch for each node below the root; it
has gone through a part of its history; one has been stopped exactly if a poll was answered so. -/
theorem enumerateOnPool_settled (hne : g.listed w ≠ []) (hwork : settings.AllowsWork)
    {moves : List Move} {branches : List Branch} {outcome : Outcome} {world : σ}
    (h : enumerateOnPool g settings (fun k => pure (answers k)) counters moves w
      = .settled branches outcome world) :
    world = w ∧ branches.map (·.root) = Subject.topRoots g w o settings ∧
      (∀ b ∈ branches, ∃ es, b.Sound g w o settings es) ∧
      ((∃ b ∈ branches, b.ending = .stopped) ↔ ∃ k < outcome.polls, answers k = true) ∧
      ((∃ b ∈ branches, b.ending = .dropped) → ∃ b ∈ branches, b.ending = .stopped) ∧
      outcome = .ofBranches (Subject.batch g w o settings counters).counters outcome.polls
        (Subject.batch g w o settings counters).reports branches := by
  obtain ⟨pool, hpool, hbranches, rfl, rfl⟩ :=
    exists_pool_of_settled hg ho htabulate answers counters hne hwork h
  obtain ⟨hsound, -⟩ := perform_sound hg ho answers counters hpool
  obtain ⟨hroots, hsounds, hstopped, hdropped⟩ := hsound.branches hbranches
  rw [Outcome.polls_ofBranches]
  exact ⟨hsound.world, hroots, hsounds, hstopped, hdropped, rfl⟩

end Orderly

end MaximalCliques
