import NeutralQuery.Main
import NeutralQuery.Projection.Decode
import NeutralQuery.Search.Run
import NeutralQuery.Session
import NeutralQuery.Sql.Scan
import NeutralQuery.Document.Run
import NeutralQuery.Proofs.Filter.Reading
import NeutralQuery.Proofs.Plan.Layout
import NeutralQuery.Proofs.Memory.Counting
import NeutralQuery.Proofs.Finder.Paging
import NeutralQuery.Proofs.Plan.Fields
import NeutralQuery.Proofs.Sql.Reading
import NeutralQuery.Proofs.Filter.Shape
import NeutralQuery.Proofs.Plan.Typing
import NeutralQuery.Proofs.Filter.Verdicts
import NeutralQuery.Proofs.Sql.Predicates
import NeutralQuery.Proofs.Sql.Where
import NeutralQuery.Proofs.Row.Places
import NeutralQuery.Proofs.Plan.Grouping
import NeutralQuery.Proofs.Plan.Closure
import NeutralQuery.Proofs.Memory.Groups
import NeutralQuery.Proofs.Memory.Safety
import NeutralQuery.Proofs.Memory.Joining
import NeutralQuery.Proofs.Memory.Absence
import NeutralQuery.Proofs.Memory.Identity
import NeutralQuery.Proofs.Plan.Locations
import NeutralQuery.Proofs.Plan.Literals
import NeutralQuery.Proofs.Sql.Clauses
import NeutralQuery.Proofs.Plan.Rendering
import NeutralQuery.Proofs.Sql.Bindings
import NeutralQuery.Proofs.Sql.Numbering
import NeutralQuery.Proofs.Plan.Masking
import NeutralQuery.Proofs.Sql.Masking
import NeutralQuery.Proofs.Plan.Having
import NeutralQuery.Proofs.Plan.Tags
import NeutralQuery.Proofs.Memory.Results
import NeutralQuery.Proofs.Sql.Spans
import NeutralQuery.Proofs.Sql.Outputs
import NeutralQuery.Proofs.Sql.Scoping
import NeutralQuery.Proofs.Sql.Grouped
import NeutralQuery.Proofs.Memory.Paging
import NeutralQuery.Proofs.Document.Matching
import NeutralQuery.Proofs.Search.Matching
import NeutralQuery.Proofs.Row.Flattening
import NeutralQuery.Proofs.Projection.Nesting
import NeutralQuery.Proofs.Projection.Pieces
import NeutralQuery.Proofs.Projection.Records
import NeutralQuery.Proofs.Plan.Crossings
import NeutralQuery.Proofs.Plan.Dependencies
import NeutralQuery.Proofs.Plan.Order
import NeutralQuery.Proofs.Plan.Sharing
import NeutralQuery.Proofs.Memory.Blocks
import NeutralQuery.Proofs.Session.Histories
import NeutralQuery.Proofs.Finder.Calls
import NeutralQuery.Proofs.Memory.Tallies
import NeutralQuery.Proofs.Decimal.Writing
import NeutralQuery.Proofs.Time.Writing
import NeutralQuery.Proofs.Time.Spans
import NeutralQuery.Proofs.Identifier.Writing
import NeutralQuery.Proofs.Memory.Distinct
import NeutralQuery.Proofs.Path.Writing
import NeutralQuery.Proofs.Document.Keys
import NeutralQuery.Proofs.Document.Grouping
import NeutralQuery.Proofs.Json.Numbers
import NeutralQuery.Proofs.Json.Records
import NeutralQuery.Proofs.Search.Bodies
import NeutralQuery.Proofs.Search.Paging
import NeutralQuery.Proofs.Catalog.Integrity
import NeutralQuery.Proofs.Filter.Leaves
import NeutralQuery.Proofs.Filter.Grammar
import NeutralQuery.Proofs.Memory.Sorting
import NeutralQuery.Proofs.Memory.Comparing
import NeutralQuery.Proofs.Scalar.Conversion
import NeutralQuery.Proofs.Query.Paging
import NeutralQuery.Proofs.Memory.Champions
import NeutralQuery.Proofs.Operator.Texts
import NeutralQuery.Proofs.Sql.Owners
import NeutralQuery.Proofs.Sql.Rows
import NeutralQuery.Proofs.Outcome.Traversals
import NeutralQuery.Proofs.Filter.Replacing
import NeutralQuery.Proofs.Filter.Mentions
import NeutralQuery.Proofs.Row.Laws
import NeutralQuery.Proofs.Plan.Registers
import NeutralQuery.Proofs.Sql.Lexemes
