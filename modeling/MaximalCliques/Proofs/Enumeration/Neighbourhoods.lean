import MaximalCliques.Proofs.Enumeration.Deliveries
import MaximalCliques.Proofs.Enumeration.WorkingTriples

/-!
# Clique neighbourhoods

The clique neighbours of a node come out of a list of neighbours, which may be asymmetric, repeat itself and
lead out of the graph, and of a table that has been filled before.  Even so they are listed nodes, a node is
not among its own, and of two nodes each is among those of the other or neither is.  A search asks for them
once and keeps the answer.

* **`Access.IsNode`** — a spelling of a listed node.
* **`Access.CliqueNeighbours`** — what is known of the clique neighbours of all nodes.
* **`Access.cliqueNeighbours_members`** — the clique neighbours of an orderly graph.
* **`Subject.step_retains`** — answering a request loses no neighbourhood, on any graph.
* **`Subject.Remembers`** — a search answers with the same neighbourhoods, now and later.
* **`cliqueNeighbours_mutual`** — clique neighbours are mutual, and a search remembers them.
-/

namespace MaximalCliques

variable {σ β : Type} {g : Access σ} {w : σ} {o : Oracle}

/-! ### What is known of them -/

namespace Access

/-- A spelling of a listed node that the graph has named. -/
structure IsNode (g : Access σ) (w : σ) (x : Identifier) : Prop where
  named : g.Names w x
  isIn_listed : x.isIn (g.listed w) = true

/-- **The clique neighbours of all nodes.**  They are what the graph and the oracle answer with.  They are
nodes of the graph, each one once, and the same ones for every spelling of a node.  No node is among its own;
and one node is among those of another if this one is among those of the first, which is if they differ and the
oracle holds the entries of both directions. -/
structure CliqueNeighbours (g : Access σ) (w : σ) (o : Oracle) (neighbours : Identifier → List Identifier) :
    Prop where
  answered : ∀ v, g.IsNode w v → (cliqueNeighbours g o v).Answers w (neighbours v)
  listed : ∀ v, g.IsNode w v → ∀ u ∈ neighbours v, g.IsNode w u
  once : ∀ v, g.IsNode w v → (neighbours v).Pairwise fun x y => (x == y) = false
  spelled : ∀ u v, g.IsNode w u → g.IsNode w v → (u == v) = true → neighbours u = neighbours v
  irrefl : ∀ v, g.IsNode w v → v.isIn (neighbours v) = false
  symm : ∀ u v, g.IsNode w u → g.IsNode w v → u.isIn (neighbours v) = v.isIn (neighbours u)
  entries : ∀ u v, g.IsNode w u → g.IsNode w v → (u.isIn (neighbours v) = true ↔
    (u == v) = false ∧ o.isAdjacent u v = .ok true ∧ o.isAdjacent v u = .ok true)

section Orderly

variable (hg : g.Orderly w) (ho : o.Tabulates g w)
include hg ho

/-- A node is among the clique neighbours of another one if their positions are linked. -/
theorem IsNode.isIn_members {u v : Identifier} (hu : g.IsNode w u) (hv : g.IsNode w v) :
    u.isIn (g.members w o v) = o.linked (g.position u) (g.position v) := by
  rw [Bool.eq_iff_iff]
  exact isIn_members_iff hg ho hu.named hv.named hv.isIn_listed

/-- Clique neighbours are nodes: only the rows of listed nodes have been filled. -/
theorem isNode_of_mem_members {u v : Identifier} (hv : g.IsNode w v) (h : u ∈ g.members w o v) :
    g.IsNode w u := by
  obtain ⟨hreported, hlinked⟩ := mem_reported_of_mem_members h
  have hnamed := names_of_mem_reported hg hv.named hv.isIn_listed hreported
  obtain ⟨a, ha, -, -, hau, -⟩ := (ho.holds _ _).1 (Oracle.linked_eq_true.1 hlinked).2.1
  exact ⟨hnamed, Identifier.isIn_iff.2 ⟨a, ha, (hg.position_eq_iff (.inl ha) hnamed).1 hau⟩⟩

/-- **The clique neighbours of an orderly graph.** -/
theorem cliqueNeighbours_members : g.CliqueNeighbours w o (g.members w o) where
  answered v hv := cliqueNeighbours_answers hg ho hv.named hv.isIn_listed
  listed v hv u hu := isNode_of_mem_members hg ho hv hu
  once v _ := Identifier.pairwise_distinct _
  spelled u v hu hv huv := by
    rw [members, members, hg.reported_congr hu.named hv.named huv hu.isIn_listed,
      (hg.position_eq_iff hu.named hv.named).2 huv]
  irrefl v hv := by rw [hv.isIn_members hg ho hv, o.isLinkage_linked.irrefl]
  symm u v hu hv := by
    rw [hu.isIn_members hg ho hv, hv.isIn_members hg ho hu, o.isLinkage_linked.symm]
  entries u v hu hv := by
    have hentry : ∀ b : Bool, (.ok b : Except Fault Bool) = .ok true ↔ b = true :=
      fun b => Except.ok.injEq b true ▸ Iff.rfl
    rw [hu.isIn_members hg ho hv, Oracle.linked_eq_true, Ne, hg.position_eq_iff hu.named hv.named,
      Bool.not_eq_true, Oracle.isAdjacent_eq hg ho hu.named hv.named,
      Oracle.isAdjacent_eq hg ho hv.named hu.named, hentry, hentry]

end Orderly

end Access

/-! ### No neighbourhood is lost -/

/-- Every neighbourhood that has been asked for is still there. -/
def Progress.Retains (p p' : Progress) : Prop :=
  ∀ (k : Nat) (h : Hood Vertex), p.hoods[k]? = some h → p'.hoods[k]? = some h

namespace Progress

variable {p p' p'' : Progress}

theorem Retains.of_hoods_eq (h : p'.hoods = p.hoods) : p.Retains p' := by
  unfold Retains
  rw [h]
  exact fun _ _ => id

theorem Retains.refl (p : Progress) : p.Retains p := .of_hoods_eq rfl

theorem Retains.trans (h : p.Retains p') (h' : p'.Retains p'') : p.Retains p'' :=
  fun k hood hk => h' k hood (h k hood hk)

end Progress

/-- A question in the course of a search that loses no neighbourhood, whether it is answered or refused. -/
def Searching.Retaining (q : Searching σ β) (p : Progress) : Prop :=
  q.Leads False p (fun _ => p.Retains) p.Retains

theorem Searching.Retaining.of_run {q : Searching σ β} {p p' : Progress} (h : q.Retaining p) {w w' : σ}
    {answer : Except Fault β} (hrun : q.run (p, w) = (answer, (p', w'))) : p.Retains p' := by
  have hled := h w
  rw [hrun] at hled
  cases answer with
  | ok a => exact hled
  | error e => exact hled.1

namespace Subject

variable (s : Subject) (g : Access σ) (stop : Nat → Query σ Bool)

/-- Asking for a neighbourhood: it is kept at its place if there was none before. -/
theorem hoodOf_retains (v : Vertex) (p : Progress) : (s.hoodOf g v).Leads False p
    (fun h p' => p.Retains p' ∧ p'.hoods[v.place]? = some h) p.Retains := by
  refine (hoodOf_gives v False.elim).imp (fun h p' hgives => ?_) fun p' hp' => hp' ▸ .refl p
  cases hgives with
  | kept hkept => exact ⟨.refl p, hkept⟩
  | asked hnew hmembers =>
    refine ⟨fun k old hk => ?_, Std.HashMap.getElem?_insert_self⟩
    rw [Std.HashMap.getElem?_insert]
    split
    · next hplace =>
      rw [← eq_of_beq hplace, hnew] at hk
      cases hk
    · exact hk

theorem mayBranch_hoods (n : SearchNode Vertex) (v : Vertex) (p : Progress) :
    ((s.conductor g stop).mayBranch n v).Leads False p (fun _ p' => p'.hoods = p.hoods)
      fun p' => p'.hoods = p.hoods :=
  (mayBranch_polled n v False.elim).imp (fun _ _ => congrArg Progress.hoods) fun _ => congrArg Progress.hoods

/-- **Answering a request loses no neighbourhood**, whatever the graph and the stop check answer. -/
theorem step_retains (run : Run Vertex β) (p : Progress) :
    (run.step (s.conductor g stop)).Retaining p := by
  cases run with
  | done b => exact Searching.leads_pure (.refl p)
  | ask v resume =>
    exact (s.hoodOf_retains g v p).bind (fun _ => id) fun _ _ h => Searching.leads_pure h.1
  | visit node rest => exact fun _ => .of_hoods_eq rfl
  | branch node v rest =>
    refine (s.mayBranch_hoods g stop node v p).bind (fun _ => .of_hoods_eq) fun goOn _ h => ?_
    cases goOn <;> exact Searching.leads_pure (.of_hoods_eq h)
  | emit clique rest => exact fun _ => .of_hoods_eq rfl

/-- **Answering several requests loses no neighbourhood.** -/
theorem afterRequests_retains (n : Nat) (run : Run Vertex β) (p : Progress) :
    (run.afterRequests (s.conductor g stop) n).Retaining p := by
  induction n generalizing run p with
  | zero => exact Searching.leads_pure (.refl p)
  | succ n ih =>
    refine (s.step_retains g stop run p).bind (fun _ => id) fun left p' hretains => ?_
    cases left with
    | none => exact Searching.leads_pure hretains
    | some rest => exact (ih rest p').imp (fun _ _ => hretains.trans) fun _ => hretains.trans

end Subject

/-! ### The same at every query -/

/-- **A search remembers its neighbourhoods** at a progress `p` in the state `v`.  Those that it has asked for
are of the given members.  If it asks for one now, it gets the one of these members and has it from then on.
And it has every one that it has now whenever it has answered more requests. -/
structure Subject.Remembers (s : Subject) (g : Access σ) (stop : Nat → Query σ Bool) (w : σ)
    (neighbours : Identifier → List Identifier) (p : Progress) (v : σ) : Prop where
  cached : ∀ x, g.Stands w x → ∀ h, p.hoods[x.place]? = some h →
    h = .ofMembers s.roster (neighbours x.node)
  asked : ∀ x, g.Stands w x → ∃ p',
    (s.hoodOf g x).run (p, v) = (.ok (.ofMembers s.roster (neighbours x.node)), (p', v)) ∧
      p'.hoods[x.place]? = some (.ofMembers s.roster (neighbours x.node))
  retained : ∀ {β : Type} (rest : Run Vertex β) n answer p' v',
    (rest.afterRequests (s.conductor g stop) n).run (p, v) = (answer, (p', v')) → p.Retains p'

/-- **A search remembers its neighbourhoods throughout**: after any number of requests. -/
def Subject.RemembersThroughout (s : Subject) (g : Access σ) (stop : Nat → Query σ Bool) (w : σ)
    (neighbours : Identifier → List Identifier) (run : Run Vertex β) : Prop :=
  ∀ (counters : Counters) n, ∃ left p v,
    (run.afterRequests (s.conductor g stop) n).run ({ counters }, w) = (.ok left, (p, v)) ∧
      s.Remembers g stop w neighbours p v

section Polled

variable {stop : Nat → Query σ Bool} {states : Nat → σ} {answers : Nat → Bool}
variable (hg : g.Orderly (states 0)) (hpolled : ∀ n, g.PolledBy stop states answers n)
include hg hpolled

/-- **Every search on an orderly graph remembers its neighbourhoods**, if it asks for vertices of the graph. -/
theorem Run.Within.remembersThroughout (ho : o.Tabulates g (states 0)) {run : Run Vertex β}
    (hrun : run.Within (g.Stands (states 0)) (g.hoodAt (states 0) o)) :
    Subject.RemembersThroughout ⟨o, g.roster (states 0)⟩ g stop (states 0) (g.members (states 0) o) run := by
  intro counters n
  obtain ⟨left, p, es, hleft, -, hsound, -⟩ := Subject.afterRequests_sound hpolled hg ho n hrun
    (p := { counters }) (Progress.sound_of_empty g (states 0) o rfl)
  refine ⟨left, p, _, hleft, hsound, fun x hx => ?_, fun rest n answer p' v' hafter => ?_⟩
  · obtain ⟨hoods, hasked, -⟩ := Subject.hoodOf_run (hpolled p.polls) hg ho hx hsound (Nat.le_refl _)
    exact ⟨_, hasked, ((Subject.hoodOf_retains ⟨o, g.roster (states 0)⟩ g x p).post_of_run hasked).2⟩
  · exact (Subject.afterRequests_retains ⟨o, g.roster (states 0)⟩ g stop n rest p).of_run hafter

end Polled

/-- **Clique neighbourhoods.**  Take an orderly graph, any oracle that tabulates it, and any stop check that
leaves the graph as it is.  The clique neighbours of a node are nodes of the graph other than the node itself,
and of two nodes each is among those of the other exactly if they differ and the oracle holds the entries of
both directions.  However far a search below a node has come, and however far the root has been split, these
are the neighbourhoods that it answers with, before and after.  A graph that fits is tabulated by such an
oracle. -/
theorem cliqueNeighbours_mutual {stop : Nat → Query σ Bool} {states : Nat → σ} {answers : Nat → Bool}
    (hg : g.Orderly (states 0)) (hpolled : ∀ n, g.PolledBy stop states answers n) :
    (∀ o : Oracle, o.Tabulates g (states 0) → ∃ neighbours : Identifier → List Identifier,
      g.CliqueNeighbours (states 0) o neighbours ∧ ∀ settings : Settings,
        (∀ n : SearchNode Vertex, n.Within (g.Stands (states 0)) →
          Subject.RemembersThroughout ⟨o, g.roster (states 0)⟩ g stop (states 0) neighbours
            (Subject.searchBelow settings n)) ∧
        Subject.RemembersThroughout ⟨o, g.roster (states 0)⟩ g stop (states 0) neighbours
          ((Subject.plan settings).topBranches (g.roster (states 0)).vertices)) ∧
    ∀ settings : Settings, g.FitsIn settings → ∃ o : Oracle, o.Tabulates g (states 0) ∧
      (Subject.tabulate g settings).Answers (states 0) ⟨o, g.roster (states 0)⟩ := by
  refine ⟨fun o ho => ⟨_, Access.cliqueNeighbours_members hg ho, fun settings => ⟨fun n hn => ?_, ?_⟩⟩,
    fun settings => Subject.tabulate_answers hg⟩
  · exact (Subject.searchBelow_mirrors hg ho settings hn).within.remembersThroughout hg hpolled ho
  · exact (Subject.topBranches_mirrors hg ho settings).within.remembersThroughout hg hpolled ho

/-- The clique neighbourhoods of an asymmetric graph, in searches that are stopped at their third poll by a stop
check that changes the world at each poll. -/
theorem cliqueNeighbours_mutual_lopsided :
    (Thing.lopsided.access {}).Orderly (World.polled 0) ∧
      (∀ n, (Thing.lopsided.access {}).PolledBy World.stopThird World.polled (fun k => k == 2) n) ∧
      (Thing.lopsided.access {}).FitsIn { iterative := .truth true } ∧
      ∃ o : Oracle, o.Tabulates (Thing.lopsided.access {}) (World.polled 0) ∧
        (Subject.tabulate (Thing.lopsided.access {}) { iterative := .truth true }).Answers (World.polled 0)
          ⟨o, (Thing.lopsided.access {}).roster (World.polled 0)⟩ ∧
        ∃ neighbours, (Thing.lopsided.access {}).CliqueNeighbours (World.polled 0) o neighbours ∧
          Subject.RemembersThroughout ⟨o, (Thing.lopsided.access {}).roster (World.polled 0)⟩
            (Thing.lopsided.access {}) World.stopThird (World.polled 0) neighbours
            (Subject.search ⟨o, (Thing.lopsided.access {}).roster (World.polled 0)⟩
              { iterative := .truth true }) := by
  have horderly := Thing.lopsided_orderly (World.polled 0)
  have hfits : (Thing.lopsided.access {}).FitsIn { iterative := .truth true } :=
    Thing.lopsided_fitsIn rfl
  obtain ⟨hneighbours, htabulated⟩ := cliqueNeighbours_mutual horderly Thing.lopsided_polledBy
  obtain ⟨o, ho, htabulate⟩ := htabulated _ hfits
  obtain ⟨neighbours, hall, hremembers⟩ := hneighbours o ho
  refine ⟨horderly, Thing.lopsided_polledBy, hfits, o, ho, htabulate, neighbours, hall, ?_⟩
  exact (hremembers _).1 _ (Subject.root_within _ _ _)

end MaximalCliques
