import MaximalCliques.Proofs.Enumeration.Conducting
import MaximalCliques.Proofs.Graph.Steadiness

/-!
# Searches that are answered to their end

A steady graph that has been tabulated answers all that a search asks.  So a search on it has no fault,
unless a poll has one.

* **`Searching.Succeeds`** — a question that is answered in the course of a search;
  **`Searching.Succeeds.bind`** puts two of them together.
* **`Query.Polls`** — a stop check that answers every poll.
* **`Subject.Surveys.step_succeeds`**, **`Subject.Surveys.finish_succeeds`**,
  **`Subject.Surveys.next_succeeds`** — what a conductor does with a search that keeps to the vertices of
  the graph.
-/

namespace MaximalCliques

variable {σ α β : Type} {I : σ → Prop} {S : Vertex → Prop}

/-- The neighbourhoods that have been asked for hold vertices in `S`. -/
def Progress.KeepsTo (S : Vertex → Prop) (p : Progress) : Prop :=
  ∀ (k : Nat) (h : Hood Vertex), p.hoods[k]? = some h → h.KeepsTo S

theorem Progress.keepsTo_of_empty {p : Progress} (h : p.hoods = ∅) : p.KeepsTo S := by
  intro k hood hk
  rw [h] at hk
  simp at hk

/-- Every poll is answered, in the states `I` and into these states. -/
def Query.Polls (stop : Nat → Query σ Bool) (I : σ → Prop) : Prop :=
  ∀ k w, I w → ∃ b v, I v ∧ (stop k).run w = (.ok b, v)

namespace Searching

/-- **In the course of a search the question is answered**, with an answer in `post`; what has been asked
for keeps to `S` and the state to `I`. -/
def Succeeds (q : Searching σ α) (S : Vertex → Prop) (I : σ → Prop) (post : α → Prop) : Prop :=
  ∀ p w, p.KeepsTo S → I w →
    ∃ a p' v, q.run (p, w) = (.ok a, (p', v)) ∧ p'.KeepsTo S ∧ I v ∧ post a

theorem succeeds_pure {post : α → Prop} {a : α} (h : post a) :
    (pure a : Searching σ α).Succeeds S I post := fun p w hp hw => ⟨a, p, w, rfl, hp, hw, h⟩

theorem Succeeds.bind {q : Searching σ α} {k : α → Searching σ β} {post : α → Prop}
    {post' : β → Prop} (hq : q.Succeeds S I post) (hk : ∀ a, post a → (k a).Succeeds S I post') :
    (q >>= k).Succeeds S I post' := by
  intro p w hp hw
  obtain ⟨a, p', v, hrun, hp', hv, ha⟩ := hq p w hp hw
  rw [Query.run_bind_of_ok hrun]
  exact hk a ha p' v hp' hv

end Searching

namespace Subject.Surveys

variable {s : Subject} {g : Access σ} (h : s.Surveys g I)
include h

/-- **The neighbourhood of a charted vertex** is answered, by the graph or from what it has answered. -/
theorem hoodOf_succeeds {v : Vertex} (hv : g.Charted I s.oracle.bound v) :
    (s.hoodOf g v).Succeeds (g.Charted I s.oracle.bound) I
      (Hood.KeepsTo (g.Charted I s.oracle.bound)) := by
  obtain ⟨hood, hhood, hsettles⟩ := h.exists_neighbourhood hv
  intro p w hp hw
  cases hasked : p.hoods[v.place]? with
  | some old =>
    exact ⟨old, p, w, Subject.hoodOf_run_kept hasked, hp, hw, hp _ old hasked⟩
  | none =>
    obtain ⟨u, hu, hrun⟩ := hsettles w hw
    refine ⟨hood, _, u, Subject.hoodOf_run_asked hasked hrun, fun k old hk => ?_, hu, hhood⟩
    rw [Std.HashMap.getElem?_insert] at hk
    split at hk
    · rwa [← Option.some.inj hk]
    · exact hp k old hk

omit h in
theorem visit_succeeds (s : Subject) (stop : Nat → Query σ Bool) (n : SearchNode Vertex) :
    ((s.conductor g stop).visit n).Succeeds S I fun _ => True :=
  fun _ w hp hw => ⟨⟨⟩, _, w, rfl, hp, hw, trivial⟩

omit h in
theorem emit_succeeds (s : Subject) (stop : Nat → Query σ Bool) (clique : Clique) :
    ((s.conductor g stop).emit clique).Succeeds S I fun _ => True :=
  fun _ w hp hw => ⟨⟨⟩, _, w, rfl, hp, hw, trivial⟩

variable {stop : Nat → Query σ Bool} (hstop : Query.Polls stop I)
include hstop

omit h in
theorem mayBranch_succeeds (s : Subject) (n : SearchNode Vertex) (v : Vertex) :
    ((s.conductor g stop).mayBranch n v).Succeeds S I fun _ => True := by
  intro p w hp hw
  obtain ⟨b, u, hu, hrun⟩ := hstop p.polls w hw
  obtain ⟨p', hmay, -, hhoods⟩ := Subject.mayBranch_run s g n v hrun
  refine ⟨!b, p', u, hmay, ?_, hu, trivial⟩
  unfold Progress.KeepsTo
  rwa [hhoods]

variable {q : β → Prop} {run : Run Vertex β}

/-- **Answering one request** of a search that keeps to the vertices of the graph. -/
theorem step_succeeds (hrun : run.KeepsTo (g.Charted I s.oracle.bound) True q) :
    (run.step (s.conductor g stop)).Succeeds (g.Charted I s.oracle.bound) I fun rest? =>
      ∀ rest, rest? = some rest → rest.KeepsTo (g.Charted I s.oracle.bound) True q := by
  have hgoesOn : ∀ {rest : Run Vertex β}, rest.KeepsTo (g.Charted I s.oracle.bound) True q →
      (pure (some rest) : Searching σ (Option (Run Vertex β))).Succeeds
        (g.Charted I s.oracle.bound) I fun rest? =>
          ∀ rest, rest? = some rest → rest.KeepsTo (g.Charted I s.oracle.bound) True q :=
    fun hrest => Searching.succeeds_pure fun _ heq => Option.some.inj heq ▸ hrest
  cases run with
  | done b => exact hgoesOn hrun
  | ask v resume =>
    exact (h.hoodOf_succeeds hrun.1).bind fun hood hhood => hgoesOn (hrun.2 hood hhood)
  | visit n rest => exact (visit_succeeds s stop n).bind fun _ _ => hgoesOn hrun
  | branch n v rest =>
    refine (mayBranch_succeeds hstop s n v).bind fun b _ => ?_
    cases b with
    | true => exact hgoesOn hrun.2
    | false => exact Searching.succeeds_pure fun rest hrest => by cases hrest
  | emit clique rest => exact (emit_succeeds s stop clique).bind fun _ _ => hgoesOn hrun

/-- **Conducting a search to its end.**  Only a search that makes polls is stopped. -/
theorem finish_succeeds {polls : Prop} (hrun : run.KeepsTo (g.Charted I s.oracle.bound) polls q) :
    (run.finish (s.conductor g stop)).Succeeds (g.Charted I s.oracle.bound) I fun result =>
      (∀ b, result = some b → q b) ∧ (result = none → polls) := by
  induction run with
  | done b =>
    refine Searching.succeeds_pure ⟨fun c hc => ?_, fun hnone => ?_⟩
    · rwa [← Option.some.inj hc]
    · cases hnone
  | ask v resume ih =>
    exact (h.hoodOf_succeeds hrun.1).bind fun hood hhood => ih hood (hrun.2 hood hhood)
  | visit n rest ih => exact (visit_succeeds s stop n).bind fun _ _ => ih hrun
  | branch n v rest ih =>
    refine (mayBranch_succeeds hstop s n v).bind fun b _ => ?_
    cases b with
    | true => exact ih hrun.2
    | false =>
      refine Searching.succeeds_pure ⟨fun c hc => ?_, fun _ => hrun.1⟩
      cases hc
  | emit clique rest ih => exact (emit_succeeds s stop clique).bind fun _ _ => ih hrun

/-- **Conducting a search up to its next clique.** -/
theorem next_succeeds (hrun : run.KeepsTo (g.Charted I s.oracle.bound) True q) :
    (run.next (s.conductor g stop)).Succeeds (g.Charted I s.oracle.bound) I fun pause =>
      ∀ c rest, pause = .clique c rest → rest.KeepsTo (g.Charted I s.oracle.bound) True q := by
  induction run with
  | done b => exact Searching.succeeds_pure fun c rest hc => by cases hc
  | ask v resume ih =>
    exact (h.hoodOf_succeeds hrun.1).bind fun hood hhood => ih hood (hrun.2 hood hhood)
  | visit n rest ih => exact (visit_succeeds s stop n).bind fun _ _ => ih hrun
  | branch n v rest ih =>
    refine (mayBranch_succeeds hstop s n v).bind fun b _ => ?_
    cases b with
    | true => exact ih hrun.2
    | false => exact Searching.succeeds_pure fun c rest hc => by cases hc
  | emit clique rest =>
    refine (emit_succeeds s stop clique).bind fun _ _ => Searching.succeeds_pure ?_
    intro c rest' hpause
    cases hpause
    exact hrun

end Subject.Surveys

end MaximalCliques
