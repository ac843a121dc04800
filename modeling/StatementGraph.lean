import StatementGraph.Archive
import StatementGraph.Authority
import StatementGraph.Config
import StatementGraph.Engine.Basic
import StatementGraph.Engine.Propagation
import StatementGraph.Engine.Session
import StatementGraph.Export.Dot
import StatementGraph.Export.Json
import StatementGraph.Export.Record
import StatementGraph.Failure
import StatementGraph.Failure.Kind
import StatementGraph.Graph.Containment
import StatementGraph.Graph.Order
import StatementGraph.Graph.Walk
import StatementGraph.Id
import StatementGraph.Identifier
import StatementGraph.Index
import StatementGraph.Listener
import StatementGraph.LockTable
import StatementGraph.Mutation.Construct
import StatementGraph.Mutation.Copy
import StatementGraph.Mutation.Name
import StatementGraph.Mutation.Remove
import StatementGraph.Mutation.Restore
import StatementGraph.Proofs.Aborting
import StatementGraph.Proofs.Accounting
import StatementGraph.Proofs.Acting
import StatementGraph.Proofs.Allocation
import StatementGraph.Proofs.Archiving
import StatementGraph.Proofs.Auditing
import StatementGraph.Proofs.AuthorityRecovery
import StatementGraph.Proofs.BatchOrder
import StatementGraph.Proofs.BatchRemoval
import StatementGraph.Proofs.Bookkeeping
import StatementGraph.Proofs.Buried
import StatementGraph.Proofs.Cascade
import StatementGraph.Proofs.CascadeClosure
import StatementGraph.Proofs.Changes
import StatementGraph.Proofs.Checking
import StatementGraph.Proofs.ClosedSubstitution
import StatementGraph.Proofs.Consistency
import StatementGraph.Proofs.Construction
import StatementGraph.Proofs.Containment
import StatementGraph.Proofs.CopyCompleteness
import StatementGraph.Proofs.CopyFidelity
import StatementGraph.Proofs.CopyInvariant
import StatementGraph.Proofs.CopyRun
import StatementGraph.Proofs.Copying
import StatementGraph.Proofs.Declaring
import StatementGraph.Proofs.Deletion
import StatementGraph.Proofs.Descent
import StatementGraph.Proofs.Durability
import StatementGraph.Proofs.Enlarging
import StatementGraph.Proofs.Entering
import StatementGraph.Proofs.Erasing
import StatementGraph.Proofs.Filing
import StatementGraph.Proofs.Graph
import StatementGraph.Proofs.GraphRenaming
import StatementGraph.Proofs.Grounding
import StatementGraph.Proofs.Growth
import StatementGraph.Proofs.History
import StatementGraph.Proofs.Hoisting
import StatementGraph.Proofs.IdentifierGrammar
import StatementGraph.Proofs.IndexMirror
import StatementGraph.Proofs.Instantiation
import StatementGraph.Proofs.Isolation
import StatementGraph.Proofs.Journal
import StatementGraph.Proofs.Kinship
import StatementGraph.Proofs.Labels
import StatementGraph.Proofs.Lawmaking
import StatementGraph.Proofs.LeastFixpoint
import StatementGraph.Proofs.Listening
import StatementGraph.Proofs.LockFrame
import StatementGraph.Proofs.LockOwnership
import StatementGraph.Proofs.Lockstep
import StatementGraph.Proofs.Lodging
import StatementGraph.Proofs.Maintained
import StatementGraph.Proofs.Making
import StatementGraph.Proofs.Nameless
import StatementGraph.Proofs.Names
import StatementGraph.Proofs.OneSided
import StatementGraph.Proofs.Opening
import StatementGraph.Proofs.Operation
import StatementGraph.Proofs.Ordering
import StatementGraph.Proofs.Outcomes
import StatementGraph.Proofs.Overlapping
import StatementGraph.Proofs.Pairing
import StatementGraph.Proofs.Precedence
import StatementGraph.Proofs.Propagation
import StatementGraph.Proofs.Querying
import StatementGraph.Proofs.Quiescence
import StatementGraph.Proofs.Rebuilding
import StatementGraph.Proofs.Recovery
import StatementGraph.Proofs.Rederiving
import StatementGraph.Proofs.Refusal
import StatementGraph.Proofs.Relaying
import StatementGraph.Proofs.Removing
import StatementGraph.Proofs.Repairing
import StatementGraph.Proofs.Replicas
import StatementGraph.Proofs.Restorable
import StatementGraph.Proofs.Restoring
import StatementGraph.Proofs.Reverting
import StatementGraph.Proofs.Reviving
import StatementGraph.Proofs.Rising
import StatementGraph.Proofs.Rollback
import StatementGraph.Proofs.Rule
import StatementGraph.Proofs.Saturation
import StatementGraph.Proofs.Sealing
import StatementGraph.Proofs.Session
import StatementGraph.Proofs.Signatures
import StatementGraph.Proofs.Soundness
import StatementGraph.Proofs.Structure
import StatementGraph.Proofs.Tables
import StatementGraph.Proofs.TermCasts
import StatementGraph.Proofs.TermCodes
import StatementGraph.Proofs.TermEquality
import StatementGraph.Proofs.TermMarkers
import StatementGraph.Proofs.TermParams
import StatementGraph.Proofs.TermRenaming
import StatementGraph.Proofs.TermScope
import StatementGraph.Proofs.TermSplitting
import StatementGraph.Proofs.Tracing
import StatementGraph.Proofs.Truth
import StatementGraph.Proofs.TypeEquality
import StatementGraph.Proofs.TypingDepth
import StatementGraph.Proofs.Undoing
import StatementGraph.Proofs.Walks
import StatementGraph.Proofs.Withdrawing
import StatementGraph.Proofs.Within
import StatementGraph.Rule
import StatementGraph.Scope
import StatementGraph.Statement
import StatementGraph.Store
import StatementGraph.Table
import StatementGraph.Term.Basic
import StatementGraph.Term.Equality
import StatementGraph.Term.Substitution
import StatementGraph.Term.Supply
import StatementGraph.Term.Typing
import StatementGraph.Text.Combining
import StatementGraph.Text.Printable
import StatementGraph.Toml.Document
import StatementGraph.Toml.Scan
import StatementGraph.Toml.Value
import StatementGraph.Toml.Writer
import StatementGraph.Trace
import StatementGraph.Transaction
import StatementGraph.UndoLog
