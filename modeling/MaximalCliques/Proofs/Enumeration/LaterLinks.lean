import MaximalCliques.Proofs.Enumeration.InOrder
import MaximalCliques.Proofs.Enumeration.Refinement
import MaximalCliques.Proofs.Enumeration.Rejections
import MaximalCliques.Proofs.Enumeration.Views
import MaximalCliques.Proofs.Graph.LaterLinks

/-!
# Enumerations after links have been drawn

Whatever links are drawn in a numbered network, its indices and its numbered nodes still belong to each
other.  An enumeration that is started afterwards either is refused, for a neighbour without an index, or
delivers exactly the maximal cliques of the numbered nodes with the links that there are by then.

* **`Access.RefusedThroughout`**, **`Access.EnumeratedThroughout`** — what all ways of enumerating come to.
* **`Access.refusedThroughout_of_build`**, **`Access.enumeratedThroughout_of_orderly`** — when they do.
* **`IndexedNetwork.addLinks_indexes_and_enumerates`** — one of both is so after any links.
-/

namespace MaximalCliques

variable {σ : Type} {g : Access σ} {w : σ} {settings : Settings} {counters : Counters} {e : Fault}

/-! ### All ways of enumerating -/

/-- **Every enumeration is refused** for one reason, whatever its stop check, and leaves the counters and
the state as they are: one after the other, as a set, in branches, and on a pool by every schedule. -/
structure Access.RefusedThroughout (g : Access σ) (settings : Settings) (counters : Counters) (w : σ)
    (e : Fault) : Prop where
  iterated : ∀ stop, (iterate g settings stop counters).run w = ({ fault := e, counters }, w)
  enumerated : ∀ stop, (enumerate g settings stop counters).run w = ({ fault := e, counters }, w)
  inBranches : ∀ stop discipline,
    (enumerateInBranches g settings stop discipline counters).run w = ({ fault := e, counters }, w)
  onPool : ∀ stop, (Standing.Ends fun moves => enumerateOnPool g settings stop counters moves w) ∧
    ∀ moves branches outcome world,
      enumerateOnPool g settings stop counters moves w = .settled branches outcome world →
      branches = [] ∧ outcome = { fault := e, counters } ∧ world = w

/-- **Every enumeration that nobody stops delivers exactly the maximal cliques**, each once, and ends
without a fault: one after the other, as a set, in branches if there are workers, and on a pool by every
schedule. -/
structure Access.EnumeratedThroughout (g : Access σ) (settings : Settings) (counters : Counters)
    (w : σ) : Prop where
  iterated : ∃ outcome, (iterate g settings (fun _ => pure false) counters).run w = (outcome, w) ∧
    outcome.fault = none ∧ g.Enumerates w (outcome.cliques.map Clique.nodes)
  enumerated : ∃ outcome, (enumerate g settings (fun _ => pure false) counters).run w = (outcome, w) ∧
    outcome.fault = none ∧ g.Enumerates w (outcome.cliques.map Clique.nodes)
  inBranches : settings.AllowsWork → ∀ discipline, ∃ outcome world,
    (enumerateInBranches g settings (fun _ => pure false) discipline counters).run w
      = (outcome, world) ∧
    outcome.fault = none ∧ g.Enumerates w (outcome.cliques.map Clique.nodes)
  onPool : settings.AllowsWork →
    (Standing.Ends fun moves =>
      enumerateOnPool g settings (fun _ => pure false) counters moves w) ∧
    ∀ moves branches outcome world,
      enumerateOnPool g settings (fun _ => pure false) counters moves w
        = .settled branches outcome world →
      outcome.fault = none ∧ g.Enumerates w (outcome.cliques.map Clique.nodes)

/-- **A graph whose oracle is refused** is refused throughout. -/
theorem Access.refusedThroughout_of_build {limit : Identifier} (hlimit : settings.capacity = .ok limit)
    (hbuild : (Oracle.build g limit).run w = (.error e, w)) (hrejects : e.Rejects) :
    g.RefusedThroughout settings counters w e := by
  have htabulate : (Subject.tabulate g settings).run w = (.error e, w) := by
    rw [Subject.tabulate, hlimit]
    show (Oracle.build g limit >>= _).run w = _
    rw [Query.run_bind, hbuild]
  have hiterate : ∀ stop, (iterate g settings stop counters).run w = ({ fault := e, counters }, w) :=
    fun _ => iterate_of_tabulate_error htabulate
  have hprepare : ∀ stop, (prepareBranches g settings stop counters).run w
      = (.inl { fault := e, counters }, w) := fun _ => prepareBranches_of_tabulate_error htabulate
  refine ⟨hiterate, fun stop => ?_, fun stop => (over_of_prepareBranches (hprepare stop)).1,
    fun stop => ?_⟩
  · have hset := enumerate_of_iterate (hiterate stop)
    rwa [Outcome.asSet_of_rejects hrejects counters] at hset
  · have hover := enumerateOnPool_of_over (hprepare stop)
    exact ⟨Standing.ends_of_over hover, fun _ _ _ _ hsettled => Standing.eq_of_over hover hsettled⟩

/-- **An orderly graph that fits** is enumerated throughout. -/
theorem Access.enumeratedThroughout_of_orderly (hg : g.Orderly w) (hfits : g.FitsIn settings)
    (counters : Counters) : g.EnumeratedThroughout settings counters w := by
  obtain ⟨o, ho, htabulate⟩ := Subject.tabulate_answers hg hfits
  have hexact := Subject.discoveries_enumerates hg ho settings
  have hcollected : g.Enumerates w
      ((Clique.collect (Subject.discoveries g w o settings)).map Clique.nodes) :=
    hexact.perm (List.Perm.map Clique.nodes
      (Clique.collect_perm (Subject.pairwise_discoveries hg ho settings)))
  have hsettled : settings.AllowsWork → ∀ moves branches outcome world,
      enumerateOnPool g settings (fun _ => pure false) counters moves w
        = .settled branches outcome world →
      outcome.fault = none ∧ g.Enumerates w (outcome.cliques.map Clique.nodes) := by
    intro hwork moves branches outcome world h
    by_cases hempty : g.listed w = []
    · obtain ⟨-, hcliques, hfault, -⟩ := enumerateOnPool_unstopped_of_empty htabulate h hempty
      rw [hcliques]
      exact ⟨hfault, hcollected⟩
    · obtain ⟨-, hcliques, hfault, -⟩ := enumerateOnPool_unstopped hg ho htabulate h hempty hwork
      rw [hcliques]
      exact ⟨hfault, hcollected⟩
  refine ⟨⟨_, iterate_unstopped hg ho htabulate counters, rfl, hexact⟩, ?_, fun hwork discipline => ?_,
    fun hwork => ⟨enumerateOnPool_ends hg ho htabulate (fun _ => false) counters hwork, hsettled hwork⟩⟩
  · obtain ⟨outcome, hrun, hfault, henumerates, -⟩ := enumerate_unstopped hg hfits counters
    exact ⟨outcome, hrun, hfault, henumerates⟩
  · obtain ⟨moves, branches, outcome, world, hrun, hpool⟩ :=
      enumerateInBranches_schedule g hwork.room (fun _ => pure false) discipline counters w
    exact ⟨outcome, world, hrun, hsettled hwork moves branches outcome world hpool⟩

/-! ### After any links -/

/-- **Later links leave the indices, and no enumeration goes wrong for them.**  Number the nodes of a
network that holds together, directed or not, and draw any links afterwards, also to new nodes and such
that are refused.  Indices and numbered nodes still belong to each other.  If a numbered node then has a
neighbour without an index, every enumeration is refused for such a neighbour, which is named if it has a
text; otherwise every enumeration delivers exactly the maximal cliques of the numbered nodes, of which two are
mutually adjacent if there are by then links from each to the other. -/
theorem IndexedNetwork.addLinks_indexes_and_enumerates {G : Network} (hG : G.WellFormed)
    (links : List (Identifier × Identifier)) {w : World} {place : Nat}
    (hw : w.networks[place]? = some ((ofNetwork G).addLinks links)) :
    ((ofNetwork G).addLinks links).Indexes G.nodes.toList ∧
    (∀ x y, ((Base.network place).access w).Mutual w x y ↔
      x ∈ G.nodes.toList ∧ y ∈ G.nodes.toList ∧ (x == y) = false ∧
        (∃ l ∈ ((ofNetwork G).addLinks links).network.links.toList, Network.Leads G.directed l x y) ∧
        ∃ l ∈ ((ofNetwork G).addLinks links).network.links.toList, Network.Leads G.directed l y x) ∧
    ∀ settings counters, ((Base.network place).access w).FitsIn settings →
      ((∃ x ∈ G.nodes.toList, ∃ y ∈ ((ofNetwork G).addLinks links).network.successors x,
          y.isIn G.nodes.toList = false) →
        ∃ x ∈ G.nodes.toList, ∃ y ∈ ((ofNetwork G).addLinks links).network.successors x,
          y.isIn G.nodes.toList = false ∧
          ∃ e, ((Base.network place).access w).RefusedThroughout settings counters w e ∧
            (y.isWritable = true → e = .unknownNode y)) ∧
      ((∀ x ∈ G.nodes.toList, ∀ y ∈ ((ofNetwork G).addLinks links).network.successors x,
          y.isIn G.nodes.toList = true) →
        ((Base.network place).access w).EnumeratedThroughout settings counters w) := by
  obtain ⟨hnumbering, hdirected, hformed⟩ := addLinks_keeps hG links
  refine ⟨indexes_of_different hnumbering hG.nodup, fun x y => ?_, fun settings counters hfits =>
    ⟨fun hstray => ?_, fun hclosed => ?_⟩⟩
  · rw [← hdirected]
    exact Base.network_mutual_iff hw hnumbering hG.keys
  · obtain ⟨limit, hlimit, hlimited⟩ := hfits
    obtain ⟨x, hx, y, hy, hunknown, hbuild⟩ :=
      Base.network_build_refused hw hnumbering hG.keys hlimited hstray
    refine ⟨x, hx, y, hy, hunknown, _, Access.refusedThroughout_of_build hlimit hbuild ?_, ?_⟩
    · exact Fault.Rejects.raised fun _ h => by cases h
    · exact fun hwritable => Fault.raised_eq_of_shown rfl hwritable
  · refine Access.enumeratedThroughout_of_orderly ?_ hfits counters
    refine Base.network_orderly hw hnumbering hG.keys fun x hx y hy => ⟨hclosed x hx y hy, ?_⟩
    exact Identifier.keyless?_of_isIn hG.keys (hclosed x hx y hy)

def Network.single : Network where
  directed := false
  nodes := #[.integer 0]

def Network.oneWay : Network where
  directed := true
  nodes := #[.integer 0, .integer 1]
  links := #[(.integer 0, .integer 1)]

def IndexedNetwork.outgrown : IndexedNetwork :=
  (ofNetwork .single).addLinks [(.integer 0, .integer 1)]

/-- Later links between two nodes: one from a value that cannot be a node, one from a new node, and one
back along the edge. -/
def IndexedNetwork.approached : IndexedNetwork :=
  (ofNetwork .oneWay).addLinks
    [(.sequence [], .integer 0), (.integer 2, .integer 0), (.truth true, .integer 0)]

/-- A link to a new node has every enumeration refused; a link from a new node has none refused if links
have directions, and neither has one that is refused itself. -/
theorem IndexedNetwork.addLinks_indexes_and_enumerates_outgrown :
    Network.single.WellFormed ∧ Network.oneWay.WellFormed ∧ outgrown.Indexes [.integer 0] ∧
    (∃ y, ∃ e, ((Base.network 0).access { networks := #[outgrown] }).RefusedThroughout {} {}
      { networks := #[outgrown] } e ∧ (y.isWritable = true → e = .unknownNode y)) ∧
    ((Base.network 0).access { networks := #[approached] }).EnumeratedThroughout {} {}
      { networks := #[approached] } := by
  have hsingle : Network.single.WellFormed := ⟨by decide, by decide, by decide⟩
  have honeWay : Network.oneWay.WellFormed := ⟨by decide, by decide, by decide⟩
  have houtgrown : ({ networks := #[outgrown] } : World).networks[0]? = some outgrown := rfl
  have happroached : ({ networks := #[approached] } : World).networks[0]? = some approached := rfl
  obtain ⟨hindexes, -, hrefused⟩ := addLinks_indexes_and_enumerates hsingle _ houtgrown
  obtain ⟨-, -, henumerated⟩ := addLinks_indexes_and_enumerates honeWay _ happroached
  refine ⟨hsingle, honeWay, hindexes, ?_, ?_⟩
  · have hfits : ((Base.network 0).access { networks := #[outgrown] }).FitsIn {} :=
      Access.fitsIn_of_le (n := 16384) rfl (by decide +kernel) (by decide +kernel) (by decide) (by decide)
    obtain ⟨-, -, y, -, -, h⟩ := (hrefused {} {} hfits).1 (by decide +kernel)
    exact ⟨y, h⟩
  · have hfits : ((Base.network 0).access { networks := #[approached] }).FitsIn {} :=
      Access.fitsIn_of_le (n := 16384) rfl (by decide +kernel) (by decide +kernel) (by decide) (by decide)
    exact (henumerated {} {} hfits).2 (by decide +kernel)

/-- **What is no integer is no index**, and is not reported as an unknown node if it has no order with
numbers, or lies between the indices. -/
theorem IndexedNetwork.nodeAt_refused_outgrown : ∃ e e',
    outgrown.nodeAt (.text "a") = .error e ∧ .invalidNode ∉ e.families ∧ e.node? = none ∧
    outgrown.nodeAt (.real (.finite false 1 (-1))) = .error e' ∧ .invalidNode ∉ e'.families ∧
      e'.node? = none :=
  ⟨.notOrdered .notAbove "int" "str", .notAPlace "list" "float", rfl, by decide, rfl, rfl, by decide,
    rfl⟩

end MaximalCliques
