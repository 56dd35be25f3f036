import MaximalCliques.Enumeration.Pool
import MaximalCliques.Proofs.Enumeration.Accounting
import MaximalCliques.Proofs.Enumeration.Announcements
import MaximalCliques.Proofs.Enumeration.Answered
import MaximalCliques.Proofs.Enumeration.Batches
import MaximalCliques.Proofs.Enumeration.Cancellation
import MaximalCliques.Proofs.Enumeration.CancelledNumbers
import MaximalCliques.Proofs.Enumeration.CliqueSets
import MaximalCliques.Proofs.Enumeration.Completions
import MaximalCliques.Proofs.Enumeration.Conducting
import MaximalCliques.Proofs.Enumeration.Conjunctions
import MaximalCliques.Proofs.Enumeration.Deliveries
import MaximalCliques.Proofs.Enumeration.Depth
import MaximalCliques.Proofs.Enumeration.Discovery
import MaximalCliques.Proofs.Enumeration.Exactness
import MaximalCliques.Proofs.Enumeration.Hoods
import MaximalCliques.Proofs.Enumeration.ImmediateStops
import MaximalCliques.Proofs.Enumeration.InOrder
import MaximalCliques.Proofs.Enumeration.Interruption
import MaximalCliques.Proofs.Enumeration.LaterLinks
import MaximalCliques.Proofs.Enumeration.Neighbourhoods
import MaximalCliques.Proofs.Enumeration.PoolOutcomes
import MaximalCliques.Proofs.Enumeration.Precedence
import MaximalCliques.Proofs.Enumeration.Pruning
import MaximalCliques.Proofs.Enumeration.Refinement
import MaximalCliques.Proofs.Enumeration.Rejections
import MaximalCliques.Proofs.Enumeration.Relabelling
import MaximalCliques.Proofs.Enumeration.Resumptions
import MaximalCliques.Proofs.Enumeration.Rosters
import MaximalCliques.Proofs.Enumeration.Schedules
import MaximalCliques.Proofs.Enumeration.Subproblems
import MaximalCliques.Proofs.Enumeration.Termination
import MaximalCliques.Proofs.Enumeration.Views
import MaximalCliques.Proofs.Enumeration.Visits
import MaximalCliques.Proofs.Enumeration.WorkingTriples
import MaximalCliques.Proofs.Graph.Adjacency
import MaximalCliques.Proofs.Graph.Appearances
import MaximalCliques.Proofs.Graph.Bases
import MaximalCliques.Proofs.Graph.Conjunctions
import MaximalCliques.Proofs.Graph.Directions
import MaximalCliques.Proofs.Graph.EdgeLists
import MaximalCliques.Proofs.Graph.Indices
import MaximalCliques.Proofs.Graph.LaterLinks
import MaximalCliques.Proofs.Graph.LazyFiltering
import MaximalCliques.Proofs.Graph.Networks
import MaximalCliques.Proofs.Graph.NoCancellations
import MaximalCliques.Proofs.Graph.OracleBuilding
import MaximalCliques.Proofs.Graph.OracleEntries
import MaximalCliques.Proofs.Graph.Restriction
import MaximalCliques.Proofs.Graph.Steadiness
import MaximalCliques.Proofs.Graph.Unchanged
import MaximalCliques.Proofs.Graph.ViewsAsFilters
import MaximalCliques.Proofs.Graph.ViewsOfMarks
import MaximalCliques.Proofs.Identifier.FirstOccurrences
import MaximalCliques.Proofs.Identifier.Table
import MaximalCliques.Proofs.Journal.LevelInForce
import MaximalCliques.Proofs.Journal.RefusedConfigurations
import MaximalCliques.Proofs.Marks.Mirroring
import MaximalCliques.Proofs.Marks.Operations
import MaximalCliques.Proofs.Marks.Readings
import MaximalCliques.Proofs.Search.Accounts
import MaximalCliques.Proofs.Search.Cutting
import MaximalCliques.Proofs.Search.Freshness
import MaximalCliques.Proofs.Search.Invariant
import MaximalCliques.Proofs.Search.Keeping
import MaximalCliques.Proofs.Search.Limits
import MaximalCliques.Proofs.Search.Mirror
import MaximalCliques.Proofs.Search.Precedence
import MaximalCliques.Proofs.Search.Reordering
import MaximalCliques.Proofs.Search.Requests
import MaximalCliques.Proofs.Search.Splitting
import MaximalCliques.Proofs.Search.StackSearch
import MaximalCliques.Proofs.Search.Subproblem
import MaximalCliques.Proofs.Search.Visits
import MaximalCliques.Proofs.Search.WorkingTriples
import MaximalCliques.Proofs.Session.Marks
import MaximalCliques.Proofs.Session.UnknownNodes
import MaximalCliques.Proofs.Session.VisitMaps
import MaximalCliques.Session.Journaled
import MaximalCliques.Session.Perform
import MaximalCliques.Session.Run
