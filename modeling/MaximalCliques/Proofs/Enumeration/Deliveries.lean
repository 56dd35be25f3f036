import MaximalCliques.Proofs.Graph.NoCancellations
import MaximalCliques.Proofs.Search.Freshness

/-!
# What a search on any graph delivers and counts

Nothing is asked of the graph here, nor of the stop check: they may refuse, change their minds, and have
directions and repetitions.  Even so a search counts the cliques that it delivers, and delivers none twice;
and it raises a cancellation only if one of them does.

* **`Searching.Leads`** — what a question leads to in the course of a search, whether it is answered or
  refused; **`Searching.Leads.bind`** puts two of them together.
* **`Subject.hoodOf_gives`**, **`Subject.mayBranch_polled`** — what a request for a neighbourhood and a poll
  change.
* **`Progress.Quiet`** — nothing has been delivered in the meantime.
* **`Progress.Tells`** — the cliques have been counted, and none of them has been delivered twice.
* **`Subject.finish_leads`**, **`Subject.next_leads`** — conducting a search to its end, and up to its next
  clique.
-/

namespace MaximalCliques

variable {σ α β : Type} {own : Prop} {p p' : Progress}

/-! ### What a question leads to -/

/-- What has come of a question: an answer and a progress in `post`, or a refusal and a progress in `after`.
If `own` holds, the refusal is no cancellation. -/
def Searching.Led (own : Prop) (post : α → Progress → Prop) (after : Progress → Prop) :
    Except Fault α × (Progress × σ) → Prop
  | (.ok a, (p, _)) => post a p
  | (.error e, (p, _)) => after p ∧ (own → e.Rejects)

/-- **What a question leads to in the course of a search** that has come to `p`, in whatever state. -/
def Searching.Leads (q : Searching σ α) (own : Prop) (p : Progress) (post : α → Progress → Prop)
    (after : Progress → Prop) : Prop := ∀ w, Searching.Led own post after (q.run (p, w))

namespace Searching

variable {after after' : Progress → Prop} {post : α → Progress → Prop} {post' : β → Progress → Prop}

theorem leads_pure {a : α} (h : post a p) : (pure a : Searching σ α).Leads own p post after := fun _ => h

/-- Of two questions, the second one depending on the answer to the first one. -/
theorem Leads.bind {q : Searching σ α} {k : α → Searching σ β} (hq : q.Leads own p post after)
    (hafter : ∀ p', after p' → after' p')
    (hk : ∀ a p', post a p' → (k a).Leads own p' post' after') :
    (q >>= k).Leads own p post' after' := by
  intro w
  have hled := hq w
  rw [Query.run_bind]
  generalize q.run (p, w) = answered at hled
  obtain ⟨answer, p', w'⟩ := answered
  cases answer with
  | ok a => exact hk a p' hled w'
  | error e => exact ⟨hafter p' hled.1, hled.2⟩

theorem Leads.imp {post' : α → Progress → Prop} {q : Searching σ α} (h : q.Leads own p post after)
    (hpost : ∀ a p', post a p' → post' a p') (hafter : ∀ p', after p' → after' p') :
    q.Leads own p post' after' := by
  intro w
  have hled := h w
  generalize q.run (p, w) = answered at hled
  obtain ⟨answer, p', w'⟩ := answered
  cases answer with
  | ok a => exact hpost a p' hled
  | error e => exact ⟨hafter p' hled.1, hled.2⟩

theorem Leads.post_of_run {q : Searching σ α} (h : q.Leads own p post after) {w w' : σ} {a : α}
    (hrun : q.run (p, w) = (.ok a, (p', w'))) : post a p' := by
  have hled := h w
  rw [hrun] at hled
  exact hled

theorem Leads.get_bind {k : Progress × σ → Searching σ β}
    (hk : ∀ w, (k (p, w)).Leads own p post' after) : (get >>= k).Leads own p post' after :=
  fun w => hk w w

theorem Leads.modify_bind (change : Progress → Progress) {k : PUnit → Searching σ β}
    (hk : (k ⟨⟩).Leads own (change p) post' after) :
    ((modify fun x : Progress × σ => (change x.1, x.2) : Searching σ PUnit) >>= k).Leads own p post' after :=
  fun w => hk w

/-- A question to the graph or the stop check, of which it is known what it answers. -/
theorem leads_during {q : Query σ α} (known : α → Prop) (hq : own → q.NeverCancels)
    (hknown : ∀ {w w' : σ} {a : α}, q.run w = (.ok a, w') → known a) :
    Searching.Leads (Query.during q) own p (fun a p' => p' = p ∧ known a) (· = p) := by
  intro w
  have hnever := fun how => hq how w
  have hrun : (Query.during q : Searching σ α).run (p, w) = ((q.run w).1, (p, (q.run w).2)) := rfl
  rw [hrun]
  cases hanswer : q.run w with
  | mk answer w' =>
    rw [hanswer] at hnever
    cases answer with
    | ok a => exact ⟨rfl, hknown hanswer⟩
    | error e => exact ⟨rfl, fun how => hnever how e rfl⟩

end Searching

/-! ### What a request changes -/

/-- Nothing has changed in the meantime but the numbers of polls and of branches. -/
def Progress.Polled (p p' : Progress) : Prop :=
  p' = { p with polls := p'.polls, counters := { p.counters with branches := p'.counters.branches } }

namespace Subject

variable {s : Subject} {g : Access σ}

/-- **What comes of asking for the neighbourhood of a vertex.**  It has been kept at the place of the vertex; or
it is made of the clique neighbours that the graph and the oracle answer with, and is kept there from now on. -/
inductive Gives (s : Subject) (g : Access σ) (v : Vertex) (p : Progress) : Hood Vertex → Progress → Prop
  | kept {h : Hood Vertex} (hkept : p.hoods[v.place]? = some h) : Gives s g v p h p
  | asked {w w' : σ} {members : List Identifier} (hnew : p.hoods[v.place]? = none)
      (hmembers : (cliqueNeighbours g s.oracle v.node).run w = (.ok members, w')) :
      Gives s g v p (.ofMembers s.roster members)
        { p with hoods := p.hoods.insert v.place (.ofMembers s.roster members) }

/-- **What holds of the neighbourhoods at their places** goes on to hold, if it holds of those that are made of
clique neighbours. -/
theorem Gives.keeps {v : Vertex} {h : Hood Vertex} (hgives : s.Gives g v p h p')
    (good : Nat → Hood Vertex → Prop) (hp : ∀ k h, p.hoods[k]? = some h → good k h)
    (hnew : ∀ {w w' : σ} {members}, (cliqueNeighbours g s.oracle v.node).run w = (.ok members, w') →
      good v.place (.ofMembers s.roster members)) :
    good v.place h ∧ ∀ k h, p'.hoods[k]? = some h → good k h := by
  cases hgives with
  | kept hkept => exact ⟨hp _ h hkept, hp⟩
  | asked _ hmembers =>
    refine ⟨hnew hmembers, fun k old hold => ?_⟩
    rw [Std.HashMap.getElem?_insert] at hold
    split at hold
    · next hplace =>
      rw [← Option.some.inj hold, ← eq_of_beq hplace]
      exact hnew hmembers
    · exact hp k old hold

/-- **Asking for a neighbourhood.** -/
theorem hoodOf_gives (v : Vertex) (hown : own → (neighbourhood g s.oracle s.roster v).NeverCancels) :
    (s.hoodOf g v).Leads own p (s.Gives g v p) (· = p) := by
  refine .get_bind fun w => ?_
  cases hasked : p.hoods[v.place]? with
  | some h =>
    simp only
    exact Searching.leads_pure (.kept hasked)
  | none =>
    simp only
    refine (Searching.leads_during (fun h => s.Gives g v p h { p with hoods := p.hoods.insert v.place h })
      hown fun hrun => ?_).bind (fun _ => id) ?_
    · obtain ⟨members, u, hmembers, hpure⟩ := Query.ok_of_run_bind hrun
      obtain ⟨rfl, -⟩ := Query.eq_of_pure hpure
      exact .asked hasked hmembers
    · rintro h p' ⟨rfl, hgives⟩
      exact .modify_bind (fun p => { p with hoods := p.hoods.insert v.place h }) (Searching.leads_pure hgives)

/-- **A poll**, whether it is answered or refused. -/
theorem mayBranch_polled {stop : Nat → Query σ Bool} (n : SearchNode Vertex) (v : Vertex)
    (hown : own → (stop p.polls).NeverCancels) :
    ((s.conductor g stop).mayBranch n v).Leads own p (fun _ => p.Polled) p.Polled := by
  refine .get_bind fun w => .modify_bind (fun q => { q with polls := p.polls + 1 }) ?_
  refine (Searching.leads_during (fun _ => True) hown fun _ => trivial).bind (fun p' hp' => hp' ▸ rfl) ?_
  rintro stopped p' ⟨rfl, -⟩
  cases stopped with
  | true => exact Searching.leads_pure rfl
  | false =>
    exact .modify_bind (fun p => { p with
      counters := { p.counters with branches := p.counters.branches + 1 } })
      (Searching.leads_pure rfl)

end Subject

/-! ### Nothing is delivered in the meantime -/

namespace Progress

/-- The neighbourhoods that have been asked for keep the places of vertices. -/
def KeepsPlaces (p : Progress) : Prop :=
  ∀ (k : Nat) (h : Hood Vertex), p.hoods[k]? = some h → h.Keeps Vertex.place

/-- **Nothing has been delivered in the meantime**, and no clique has been counted. -/
structure Quiet (p p' : Progress) : Prop where
  found : p'.found = p.found
  cliques : p'.counters.cliques = p.counters.cliques
  hoods : p.KeepsPlaces → p'.KeepsPlaces

theorem Quiet.of_hoods_eq (hfound : p'.found = p.found)
    (hcliques : p'.counters.cliques = p.counters.cliques) (hhoods : p'.hoods = p.hoods) :
    p.Quiet p' where
  found := hfound
  cliques := hcliques
  hoods h := by
    unfold KeepsPlaces
    rw [hhoods]
    exact h

theorem Quiet.refl (p : Progress) : p.Quiet p := .of_hoods_eq rfl rfl rfl

theorem Polled.quiet (h : p.Polled p') : p.Quiet p' := by
  rw [h]
  exact .of_hoods_eq rfl rfl rfl

/-- **One clique has been delivered in the meantime**, and counted. -/
structure Emits (p : Progress) (clique : Clique) (p' : Progress) : Prop where
  found : p'.found = clique :: p.found
  cliques : p'.counters.cliques = p.counters.cliques + 1
  hoods : p.KeepsPlaces → p'.KeepsPlaces

end Progress

/-! ### What has been delivered -/

/-- The places of a clique. -/
def Clique.placeSet (c : Clique) : Finset Nat := (c.map Vertex.place).toFinset

theorem Clique.places_ne_of_placeSet {c d : Clique} (h : c.placeSet ≠ d.placeSet) :
    c.places ≠ d.places := by
  intro hplaces
  have hmem (c : Clique) (k : Nat) : k ∈ c.places ↔ k ∈ c.placeSet := by
    rw [placeSet, List.mem_toFinset, places, inOrder]
    exact ((List.mergeSort_perm c Vertex.le).map Vertex.place).mem_iff
  refine h (Finset.ext fun k => ?_)
  rw [← hmem c k, ← hmem d k, hplaces]

namespace Progress

/-- A set of places whose clique has been delivered. -/
def Seen (p : Progress) (S : Finset Nat) : Prop := S ∈ p.found.map Clique.placeSet

/-- **What has been delivered has been counted**, on top of `n` cliques that had been before, and no clique
has been delivered twice. -/
structure Tells (n : Int) (p : Progress) : Prop where
  counted : p.counters.cliques = n + p.found.length
  distinct : (p.found.map Clique.placeSet).Nodup
  hoods : p.KeepsPlaces

theorem tells_start (counters : Counters) : Tells counters.cliques { counters } where
  counted := (Int.add_zero _).symm
  distinct := List.nodup_nil
  hoods k h hk := by simp at hk

theorem Tells.quiet {n : Int} (h : p.Tells n) (hquiet : p.Quiet p') : p'.Tells n where
  counted := by rw [hquiet.cliques, hquiet.found, h.counted]
  distinct := by rw [hquiet.found]; exact h.distinct
  hoods := hquiet.hoods h.hoods

theorem Tells.emit {n : Int} {clique : Clique} (h : p.Tells n) (hnew : ¬p.Seen clique.placeSet)
    (hemits : p.Emits clique p') : p'.Tells n where
  counted := by
    rw [hemits.cliques, hemits.found, h.counted, List.length_cons]
    omega
  distinct := by
    rw [hemits.found]
    exact List.nodup_cons.2 ⟨hnew, h.distinct⟩
  hoods := hemits.hoods h.hoods

/-- What has been delivered is handed over as a set in which each clique stands once. -/
theorem Tells.length_collect {n : Int} (h : p.Tells n) :
    (Clique.collect p.found.reverse).length = p.found.length := by
  have hpairwise : p.found.reverse.Pairwise fun c d => c.places ≠ d.places := by
    rw [List.pairwise_reverse]
    exact (List.pairwise_map.1 h.distinct).imp fun hne => (Clique.places_ne_of_placeSet hne).symm
  rw [(Clique.collect_perm hpairwise).length_eq, List.length_reverse]

end Progress

/-- What is left of a search delivers other cliques, if nothing has been delivered in the meantime. -/
theorem Run.Fresh.quiet {run : Run Vertex β} (h : run.Fresh Vertex.place p.Seen)
    (hquiet : p.Quiet p') : run.Fresh Vertex.place p'.Seen :=
  h.mono fun S hS => by rwa [Progress.Seen, ← hquiet.found]

theorem Run.Fresh.emit {clique : Clique} {rest : Run Vertex β}
    (h : (Run.emit clique rest).Fresh Vertex.place p.Seen) (hemits : p.Emits clique p') :
    rest.Fresh Vertex.place p'.Seen := by
  refine h.2.mono fun S hS => ?_
  rw [Progress.Seen, hemits.found] at hS
  exact (List.mem_cons.1 hS).symm

/-- **Where a search continues** after it has been conducted up to its next clique, `k` having been delivered
before: if there is one it has been delivered, and the rest of the search delivers others. -/
def Pause.Continues (k : Nat) (p : Progress) : Pause Vertex β → Prop
  | .clique _ rest => rest.Fresh Vertex.place p.Seen ∧ p.found.length = k + 1
  | _ => p.found.length = k

/-! ### Conducting a search -/

theorem Hood.keeps_ofMembers (roster : Roster) (members : List Identifier) :
    (Hood.ofMembers roster members).Keeps Vertex.place := by
  intro u u' h
  obtain ⟨x, -, -, rfl⟩ := exists_of_find? h
  rfl

/-- **A subject that raises a cancellation only if the graph or the stop check does.** -/
structure Subject.Reports (s : Subject) (g : Access σ) (stop : Nat → Query σ Bool) (own : Prop) :
    Prop where
  neighbourhood : own → ∀ v, (neighbourhood g s.oracle s.roster v).NeverCancels
  polled : own → ∀ k, (stop k).NeverCancels

namespace Subject.Reports

variable {s : Subject} {g : Access σ} {stop : Nat → Query σ Bool} (hs : s.Reports g stop own)
include hs

theorem hoodOf_leads (v : Vertex) (p : Progress) : (s.hoodOf g v).Leads own p
    (fun h p' => p.Quiet p' ∧ (p.KeepsPlaces → h.Keeps Vertex.place)) p.Quiet := by
  refine (hoodOf_gives v fun how => hs.neighbourhood how v).imp (fun h p' hgives => ?_)
    fun p' hp' => hp' ▸ .refl p
  have hkeeps (hp : p.KeepsPlaces) : h.Keeps Vertex.place ∧ p'.KeepsPlaces :=
    hgives.keeps (fun _ h => h.Keeps Vertex.place) hp fun _ => Hood.keeps_ofMembers _ _
  refine ⟨⟨?_, ?_, fun hp => (hkeeps hp).2⟩, fun hp => (hkeeps hp).1⟩
  · cases hgives <;> rfl
  · cases hgives <;> rfl

theorem mayBranch_leads (n : SearchNode Vertex) (v : Vertex) (p : Progress) :
    ((s.conductor g stop).mayBranch n v).Leads own p (fun _ => p.Quiet) p.Quiet :=
  (mayBranch_polled n v fun how => hs.polled how p.polls).imp (fun _ _ h => h.quiet) fun _ h => h.quiet

omit hs in
theorem visit_leads (g : Access σ) (stop : Nat → Query σ Bool) (own : Prop) (node : SearchNode Vertex)
    (p : Progress) :
    ((s.conductor g stop).visit node).Leads own p (fun _ => p.Quiet) p.Quiet :=
  fun _ => .of_hoods_eq rfl rfl rfl

omit hs in
theorem emit_leads (g : Access σ) (stop : Nat → Query σ Bool) (own : Prop) (clique : Clique)
    (p : Progress) :
    ((s.conductor g stop).emit clique).Leads own p (fun _ => p.Emits clique) p.Quiet :=
  fun _ => ⟨rfl, rfl, id⟩

variable {n : Int} {run : Run Vertex β}

/-- **Conducting a search to its end**: what it delivers is counted, and nothing is delivered twice. -/
theorem finish_leads (hrun : run.Fresh Vertex.place p.Seen) (hp : p.Tells n) :
    (run.finish (s.conductor g stop)).Leads own p (fun _ => Progress.Tells n) (Progress.Tells n) := by
  induction run generalizing p with
  | done b => exact Searching.leads_pure hp
  | ask v resume ih =>
    refine (hs.hoodOf_leads v p).bind (fun _ => hp.quiet) ?_
    rintro h p' ⟨hquiet, hkeeps⟩
    exact ih h ((hrun h (hkeeps hp.hoods)).quiet hquiet) (hp.quiet hquiet)
  | visit node rest ih =>
    exact (visit_leads g stop own node p).bind (fun _ => hp.quiet) fun _ p' hquiet =>
      ih (Run.Fresh.quiet hrun hquiet) (hp.quiet hquiet)
  | branch node v rest ih =>
    refine (hs.mayBranch_leads node v p).bind (fun _ => hp.quiet) fun goOn p' hquiet => ?_
    cases goOn with
    | true => exact ih (Run.Fresh.quiet hrun hquiet) (hp.quiet hquiet)
    | false => exact Searching.leads_pure (hp.quiet hquiet)
  | emit clique rest ih =>
    exact (emit_leads g stop own clique p).bind (fun _ => hp.quiet) fun _ p' hemits =>
      ih (hrun.emit hemits) (hp.emit hrun.1 hemits)

/-- **Conducting a search up to its next clique**: it is counted if there is one, and the rest of the search
delivers others. -/
theorem next_leads (hrun : run.Fresh Vertex.place p.Seen) (hp : p.Tells n) :
    (run.next (s.conductor g stop)).Leads own p
      (fun pause p' => p'.Tells n ∧ pause.Continues p.found.length p') (Progress.Tells n) := by
  induction run generalizing p with
  | done b => exact Searching.leads_pure ⟨hp, rfl⟩
  | ask v resume ih =>
    refine (hs.hoodOf_leads v p).bind (fun _ => hp.quiet) ?_
    rintro h p' ⟨hquiet, hkeeps⟩
    rw [← hquiet.found]
    exact ih h ((hrun h (hkeeps hp.hoods)).quiet hquiet) (hp.quiet hquiet)
  | visit node rest ih =>
    refine (visit_leads g stop own node p).bind (fun _ => hp.quiet) fun _ p' hquiet => ?_
    rw [← hquiet.found]
    exact ih (Run.Fresh.quiet hrun hquiet) (hp.quiet hquiet)
  | branch node v rest ih =>
    refine (hs.mayBranch_leads node v p).bind (fun _ => hp.quiet) fun goOn p' hquiet => ?_
    rw [← hquiet.found]
    cases goOn with
    | true => exact ih (Run.Fresh.quiet hrun hquiet) (hp.quiet hquiet)
    | false => exact Searching.leads_pure ⟨hp.quiet hquiet, rfl⟩
  | emit clique rest =>
    refine (emit_leads g stop own clique p).bind (fun _ => hp.quiet) fun _ p' hemits => ?_
    have hlength : p'.found.length = p.found.length + 1 := by rw [hemits.found, List.length_cons]
    exact Searching.leads_pure ⟨hp.emit hrun.1 hemits, hrun.emit hemits, hlength⟩

/-- **Conducting a search without counting** what it delivers: only one that makes polls is stopped. -/
theorem conduct_leads {polls : Prop} {q : β → Prop}
    (hrun : run.KeepsTo (fun _ => True) polls q) (p : Progress) :
    (run.finish (s.conductor g stop)).Leads own p (fun result _ => result = none → polls)
      fun _ => True := by
  induction run generalizing p with
  | done b => exact Searching.leads_pure fun hnone => by cases hnone
  | ask v resume ih =>
    exact (hs.hoodOf_leads v p).bind (fun _ _ => trivial)
      fun h p' _ => ih h (hrun.2 h fun _ _ _ => trivial) p'
  | visit node rest ih =>
    exact (visit_leads g stop own node p).bind (fun _ _ => trivial) fun _ p' _ => ih hrun p'
  | branch node v rest ih =>
    refine (hs.mayBranch_leads node v p).bind (fun _ _ => trivial) fun goOn p' _ => ?_
    cases goOn with
    | true => exact ih hrun.2 p'
    | false => exact Searching.leads_pure fun _ => hrun.1
  | emit clique rest ih =>
    exact (emit_leads g stop own clique p).bind (fun _ _ => trivial) fun _ p' _ => ih hrun p'

/-- **Answering one request** is refused by a cancellation only if the graph or the stop check is. -/
theorem step_leads (run : Run Vertex β) (p : Progress) :
    (run.step (s.conductor g stop)).Leads own p (fun _ _ => True) fun _ => True := by
  cases run with
  | done b => exact Searching.leads_pure trivial
  | ask v resume =>
    exact (hs.hoodOf_leads v p).bind (fun _ _ => trivial) fun _ _ _ => Searching.leads_pure trivial
  | visit node rest => exact fun _ => trivial
  | branch node v rest =>
    refine (hs.mayBranch_leads node v p).bind (fun _ _ => trivial) fun goOn _ _ => ?_
    cases goOn <;> exact Searching.leads_pure trivial
  | emit clique rest => exact fun _ => trivial

end Subject.Reports

/-! ### The search of a tabulated graph -/

section Tabulated

variable {g : Access σ} {settings : Settings} {s : Subject} {v w : σ}

/-- A graph that has been tabulated gives its nodes their indices and lists each of them once. -/
theorem Subject.exists_of_tabulate (h : (tabulate g settings).run w = (.ok s, v)) :
    s.oracle.index = g.index ∧ ∃ nodes : List (Identifier × Nat), s.roster = .ofNodes nodes ∧
      (nodes.map Prod.fst).Pairwise fun x y => (x == y) = false := by
  obtain ⟨limit, u, -, hlimited⟩ := Query.ok_of_run_bind h
  obtain ⟨o, u, hbuild, hbuilt⟩ := Query.ok_of_run_bind hlimited
  obtain ⟨roster, u, hgather, hpure⟩ := Query.ok_of_run_bind hbuilt
  obtain ⟨rfl, -⟩ := Query.eq_of_pure hpure
  constructor
  · obtain ⟨exceeded, u, -, hbuild⟩ := Query.ok_of_run_bind hbuild
    cases exceeded with
    | true =>
      obtain ⟨_, _, hthrow, -⟩ := Query.ok_of_run_bind hbuild
      cases hthrow
    | false =>
      obtain ⟨n, u, -, hbuild⟩ := Query.ok_of_run_bind hbuild
      obtain ⟨table, u, -, hbuild⟩ := Query.ok_of_run_bind hbuild
      obtain ⟨_, u, -, hpure⟩ := Query.ok_of_run_bind hbuild
      obtain ⟨rfl, -⟩ := Query.eq_of_pure hpure
      rfl
  · obtain ⟨nodes, u, -, hgather⟩ := Query.ok_of_run_bind hgather
    obtain ⟨indexed, u, hindexed, hpure⟩ := Query.ok_of_run_bind hgather
    obtain ⟨rfl, -⟩ := Query.eq_of_pure hpure
    refine ⟨indexed, rfl, ?_⟩
    rw [(Roster.map_fst_of_mapM hindexed).1]
    exact Identifier.pairwise_mergeSort_distinct _ _

/-- It raises a cancellation only if the graph or the stop check does. -/
theorem Subject.reports_of_tabulate (h : (tabulate g settings).run w = (.ok s, v))
    (stop : Nat → Query σ Bool) : s.Reports g stop (g.NeverCancelsWith stop) where
  neighbourhood how := how.graph.neighbourhood (exists_of_tabulate h).1 s.roster
  polled how := how.polled

theorem Subject.search_fresh (h : (tabulate g settings).run w = (.ok s, v)) {seen : Finset Nat → Prop}
    (hseen : ∀ S, ¬seen S) : (s.search settings).Fresh Vertex.place seen := by
  obtain ⟨-, nodes, hroster, -⟩ := exists_of_tabulate h
  rw [search, searchBelow_eq]
  have hplaces : s.roster.vertices.map Vertex.place = nodes.zipIdx.map Prod.snd := by
    rw [hroster, Roster.ofNodes, List.map_map]
    rfl
  refine (Plan.search_fresh (plan settings)).1 _ ⟨?_, fun u _ => List.not_mem_nil⟩ (fun S _ => hseen S)
    trivial
  rw [hplaces, List.zipIdx_map_snd]
  exact List.nodup_range'

end Tabulated

end MaximalCliques
