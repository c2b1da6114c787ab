import Tessera.Grammar.Draft
import Tessera.Grammar.Listing
import Tessera.Trace
import Tessera.Proofs.Grammar.Eager
import Tessera.Proofs.Grammar.Chains
import Tessera.Proofs.Search.Completeness
import Tessera.Proofs.Tree.Sound
import Tessera.Proofs.Tree.Branches
import Tessera.Proofs.Tree.Groves
import Tessera.Proofs.Tree.Growth
import Tessera.Proofs.Tree.Clearing
import Tessera.Proofs.Tree.Reports
import Tessera.Proofs.Tree.Assignment
import Tessera.Proofs.Tree.Gardens
import Tessera.Proofs.Tree.Propagation
import Tessera.Proofs.Tree.Edits
import Tessera.Tree.Operation
import Tessera.Proofs.Tree.Contents
import Tessera.Proofs.Tree.Items
import Tessera.Proofs.Tree.FirstUse
import Tessera.Proofs.Tree.Sessions
import Tessera.Proofs.Tree.Coherence
import Tessera.Proofs.Tree.Ownership
import Tessera.Proofs.Tree.Splicing
import Tessera.Proofs.Tree.Notification
import Tessera.Proofs.Search.Feasibility
import Tessera.Proofs.Tree.Reparsing
import Tessera.Proofs.Search.PatternDepth
import Tessera.Proofs.Tree.Releases
import Tessera.Proofs.Tree.Staleness
import Tessera.Proofs.Search.Nesting
import Tessera.Proofs.Search.Recognition
import Tessera.Proofs.Search.GreedyLoops
import Tessera.Proofs.Search.Marking
import Tessera.Proofs.Tree.Atomicity
import Tessera.Proofs.Tree.Forgetting
import Tessera.Proofs.Search.RecursionLimit
import Tessera.Proofs.Tree.Presence
import Tessera.Proofs.Tree.Stability
import Tessera.Proofs.Search.Strict
import Tessera.Tree.Strict
import Tessera.Proofs.Tree.StrictGrowth
import Tessera.Proofs.Tree.StrictAssignment
import Tessera.Proofs.Tree.Definitions
import Tessera.Proofs.Tree.StrictPropagation
import Tessera.Proofs.Tree.StrictCalls
import Tessera.Proofs.Tree.StrictSessions
import Tessera.Proofs.Search.Defaults
import Tessera.Proofs.Tree.Insertion
import Tessera.Proofs.Tree.Fresh
import Tessera.Proofs.Tree.Undoing
import Tessera.Proofs.Tree.Losers
import Tessera.Proofs.Grammar.Cycles
import Tessera.Proofs.Tree.Creation
import Tessera.Pattern.Scan
import Tessera.Proofs.Pattern.Scans
import Tessera.Proofs.Search.Chronicle
import Tessera.Proofs.Search.Deepest
import Tessera.Proofs.Grammar.Lengths
import Tessera.Proofs.Grammar.Forks
import Tessera.Proofs.Search.Messages
import Tessera.Proofs.Tree.Outlines
import Tessera.Proofs.Tree.Tracing
import Tessera.Proofs.Tree.Peaks
import Tessera.Proofs.Text.Locations
import Tessera.Proofs.Search.Places
import Tessera.Proofs.Names
import Tessera.Proofs.Text.Excerpts
import Tessera.Grammar.Scribe
import Tessera.Proofs.Grammar.Scribes
