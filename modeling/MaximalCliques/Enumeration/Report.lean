import MaximalCliques.Journal.Level

/-!
# Reports of an enumeration

* **`Report`** — what an enumeration reports.
* **`Report.level`**, **`Report.channel`**, **`Report.message`** — how a report is recorded.  A report
  that states an elapsed time is given the text of that time.
* **`Report.template`**, **`Report.arguments`** — what the message is made of.
-/

namespace MaximalCliques

/-- What an enumeration reports. -/
inductive Report where
  | oracleBuilt (bound entries : Nat)
  | enumerated (cliques : Nat) (calls branches : Int)
  | enumeratedInBranches (cliques branches : Nat)
  | cancelled (cliques : Int)
  | cancelledInBranches (cliques : Nat)
deriving DecidableEq, Repr

namespace Report

/-- How much a report matters: 10 for a detail, 20 for a piece of news. -/
def level : Report → Level
  | oracleBuilt .. | enumerated .. | enumeratedInBranches .. => 10
  | cancelled _ | cancelledInBranches _ => 20

def channel : Report → String
  | oracleBuilt .. => "cliquegraph.algorithms.adjacency"
  | _ => "cliquegraph.algorithms.cliques"

def message (elapsed : String) : Report → String
  | oracleBuilt bound entries =>
    s!"Built adjacency oracle: node_bound={bound} entries={entries} in " ++ elapsed
  | enumerated cliques calls branches =>
    s!"Enumerated {cliques} maximal cliques (calls={calls} branches={branches}) in " ++ elapsed
  | enumeratedInBranches cliques branches =>
    s!"Enumerated {cliques} maximal cliques over {branches} branches in " ++ elapsed
  | cancelled cliques => s!"Clique enumeration cancelled after {cliques} cliques"
  | cancelledInBranches cliques =>
    s!"Parallel clique enumeration cancelled after {cliques} cliques"

def template : Report → String
  | oracleBuilt .. => "Built adjacency oracle: node_bound=%d entries=%d in %.6fs"
  | enumerated .. => "Enumerated %d maximal cliques (calls=%d branches=%d) in %.6fs"
  | enumeratedInBranches .. => "Enumerated %d maximal cliques over %d branches in %.6fs"
  | cancelled _ => "Clique enumeration cancelled after %d cliques"
  | cancelledInBranches _ => "Parallel clique enumeration cancelled after %d cliques"

/-- The arguments of a report; an elapsed time stands as zero. -/
def arguments : Report → List Identifier
  | oracleBuilt bound entries => [.integer bound, .integer entries, noTime]
  | enumerated cliques calls branches =>
    [.integer cliques, .integer calls, .integer branches, noTime]
  | enumeratedInBranches cliques branches => [.integer cliques, .integer branches, noTime]
  | cancelled cliques => [.integer cliques]
  | cancelledInBranches cliques => [.integer cliques]
where
  noTime : Identifier := .real (Binary64.nearest false 0 1)

end Report

end MaximalCliques
