import SqlAlgebra.Binary64.Hex
import SqlAlgebra.Command
import SqlAlgebra.Dialect.Basic
import SqlAlgebra.Format.Json
import SqlAlgebra.Json.Text
import SqlAlgebra.PlanCache.Basic
import SqlAlgebra.Query.Build
import SqlAlgebra.Query.Equality
import SqlAlgebra.Query.Restoring
import SqlAlgebra.Query.Scope
import SqlAlgebra.Settings.Files
import SqlAlgebra.Statement.Lowering
import SqlAlgebra.Proofs.Additions
import SqlAlgebra.Proofs.ClauseOrder
import SqlAlgebra.Proofs.Forms
import SqlAlgebra.Proofs.Expressions
import SqlAlgebra.Proofs.Nodes
import SqlAlgebra.Proofs.Agreement
import SqlAlgebra.Proofs.Numbering
import SqlAlgebra.Proofs.Pipelines
import SqlAlgebra.Proofs.Validity
import SqlAlgebra.Proofs.Acceptance
import SqlAlgebra.Proofs.Escaping
import SqlAlgebra.Proofs.CachedPlans
import SqlAlgebra.Proofs.Gating
import SqlAlgebra.Proofs.Slots
import SqlAlgebra.Proofs.Merging
import SqlAlgebra.Proofs.CacheHistory
import SqlAlgebra.Proofs.Faithfulness
import SqlAlgebra.Proofs.JsonFormat
import SqlAlgebra.Proofs.StoredValues
import SqlAlgebra.Proofs.StoredExpressions
import SqlAlgebra.Proofs.StoredQueries
import SqlAlgebra.Proofs.RoundTrip
import SqlAlgebra.Proofs.RowSources
import SqlAlgebra.Proofs.Qualifiers
import SqlAlgebra.Proofs.Parts
import SqlAlgebra.Proofs.Cutting
import SqlAlgebra.Proofs.Unbroken
import SqlAlgebra.Proofs.Placeholders
import SqlAlgebra.Proofs.OutputRows
import SqlAlgebra.Proofs.SetGrouping
import SqlAlgebra.Proofs.Marks
import SqlAlgebra.Proofs.Operands
import SqlAlgebra.Proofs.Gluing
import SqlAlgebra.Proofs.NullPlacement
import SqlAlgebra.Proofs.Filling
import SqlAlgebra.Proofs.ConflictGuards
import SqlAlgebra.Proofs.Insets
import SqlAlgebra.Proofs.DerivedNames
import SqlAlgebra.Proofs.CacheAccounting
import SqlAlgebra.Proofs.EmptyGroupings
import SqlAlgebra.Proofs.QuotedPrefixes
import SqlAlgebra.Proofs.DocumentIntegers
import SqlAlgebra.Proofs.SavedSettings
import SqlAlgebra.Proofs.LateLowering
