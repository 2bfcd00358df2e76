import GraphQuery.Builder.Change
import GraphQuery.Builder.Filtering
import GraphQuery.Builder.Property
import GraphQuery.Builder.Session
import GraphQuery.Builder.Workspace
import GraphQuery.Clause
import GraphQuery.Composition
import GraphQuery.Connections
import GraphQuery.Copying
import GraphQuery.Draft
import GraphQuery.Entries
import GraphQuery.Expression
import GraphQuery.Fault
import GraphQuery.Filter
import GraphQuery.Filter.Operator
import GraphQuery.Filter.Text
import GraphQuery.Log
import GraphQuery.ParameterStack
import GraphQuery.Pattern.Direction
import GraphQuery.Pattern.Element
import GraphQuery.Pattern.Naming
import GraphQuery.Pattern.Store
import GraphQuery.Pattern.Trail
import GraphQuery.Pattern.Walk
import GraphQuery.Proofs.Compiling.Accepted
import GraphQuery.Proofs.Compiling.Agreement
import GraphQuery.Proofs.Compiling.Copies
import GraphQuery.Proofs.Compiling.Erasure
import GraphQuery.Proofs.Compiling.Kinds
import GraphQuery.Proofs.Compiling.Order
import GraphQuery.Proofs.Compiling.Outcome
import GraphQuery.Proofs.Compiling.Projection
import GraphQuery.Proofs.Compiling.Scope
import GraphQuery.Proofs.Compiling.Views
import GraphQuery.Proofs.Compiling.Writable
import GraphQuery.Proofs.Computation
import GraphQuery.Proofs.Condition.Calls
import GraphQuery.Proofs.Condition.Grammar
import GraphQuery.Proofs.Condition.Groups
import GraphQuery.Proofs.Condition.Joints
import GraphQuery.Proofs.Condition.Mappings
import GraphQuery.Proofs.Condition.Meaning
import GraphQuery.Proofs.Connections.Closing
import GraphQuery.Proofs.Connections.Isolation
import GraphQuery.Proofs.Connections.Ledger
import GraphQuery.Proofs.Connections.Transactions
import GraphQuery.Proofs.Execution
import GraphQuery.Proofs.Parameters.Building
import GraphQuery.Proofs.Parameters.Calls
import GraphQuery.Proofs.Parameters.Dictionary
import GraphQuery.Proofs.Parameters.Fresh
import GraphQuery.Proofs.Parameters.Grounded
import GraphQuery.Proofs.Parameters.Held
import GraphQuery.Proofs.Parameters.Numbering
import GraphQuery.Proofs.Parameters.Script
import GraphQuery.Proofs.Patterns.Blanks
import GraphQuery.Proofs.Patterns.Brackets
import GraphQuery.Proofs.Patterns.Calls
import GraphQuery.Proofs.Patterns.Chains
import GraphQuery.Proofs.Patterns.Contexts
import GraphQuery.Proofs.Patterns.Declarations
import GraphQuery.Proofs.Patterns.Edges
import GraphQuery.Proofs.Patterns.Ends
import GraphQuery.Proofs.Patterns.Fans
import GraphQuery.Proofs.Patterns.History
import GraphQuery.Proofs.Patterns.Index
import GraphQuery.Proofs.Patterns.Intents
import GraphQuery.Proofs.Patterns.Labels
import GraphQuery.Proofs.Patterns.Markers
import GraphQuery.Proofs.Patterns.Names
import GraphQuery.Proofs.Patterns.Optionality
import GraphQuery.Proofs.Patterns.Properties
import GraphQuery.Proofs.Patterns.Rejections
import GraphQuery.Proofs.Patterns.Relationships
import GraphQuery.Proofs.Patterns.Repetition
import GraphQuery.Proofs.Patterns.Requests
import GraphQuery.Proofs.Patterns.Shelf
import GraphQuery.Proofs.Patterns.Spellings
import GraphQuery.Proofs.Patterns.Starts
import GraphQuery.Proofs.Patterns.Terrain
import GraphQuery.Proofs.Patterns.Traces
import GraphQuery.Proofs.Patterns.Walks
import GraphQuery.Proofs.Quoting.Legible
import GraphQuery.Proofs.Quoting.Projections
import GraphQuery.Proofs.Quoting.Texts
import GraphQuery.Proofs.Scripts.Aggregations
import GraphQuery.Proofs.Scripts.Batches
import GraphQuery.Proofs.Scripts.Building
import GraphQuery.Proofs.Scripts.Changes
import GraphQuery.Proofs.Scripts.Edits
import GraphQuery.Proofs.Scripts.Labels
import GraphQuery.Proofs.Scripts.Reads
import GraphQuery.Proofs.Scripts.Rejections
import GraphQuery.Proofs.Scripts.Steps
import GraphQuery.Proofs.Secrecy.Acting
import GraphQuery.Proofs.Secrecy.Alike
import GraphQuery.Proofs.Secrecy.Blank
import GraphQuery.Proofs.Secrecy.Building
import GraphQuery.Proofs.Secrecy.Calls
import GraphQuery.Proofs.Secrecy.Compiling
import GraphQuery.Proofs.Secrecy.Connecting
import GraphQuery.Proofs.Secrecy.Outline
import GraphQuery.Proofs.Secrecy.Registering
import GraphQuery.Proofs.Secrecy.Script
import GraphQuery.Proofs.Workspaces
import GraphQuery.Query
import GraphQuery.QueryResult
import GraphQuery.Report
import GraphQuery.Settings
import GraphQuery.Text.Blank
import GraphQuery.Text.LetterCase
import GraphQuery.Text.Quoted
import GraphQuery.Text.Split
import GraphQuery.Timestamp
import GraphQuery.Value
