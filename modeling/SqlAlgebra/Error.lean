import SqlAlgebra.Dialect.Capability
import SqlAlgebra.Query.Describe

/-!
# Why a query cannot be compiled

The causes for which building or compiling a query fails, and the message for each of them.
-/

namespace SqlAlgebra

/-- The kinds of commands that stand outside queries. -/
inductive CommandKind where
  | savepoint | releaseSavepoint | rollbackToSavepoint | advisoryLock | advisoryUnlock | copy
deriving DecidableEq

namespace CommandKind

def label : CommandKind → String
  | savepoint => "SAVEPOINT"
  | releaseSavepoint => "RELEASE SAVEPOINT"
  | rollbackToSavepoint => "ROLLBACK TO SAVEPOINT"
  | advisoryLock => "ADVISORY LOCK"
  | advisoryUnlock => "ADVISORY UNLOCK"
  | copy => "COPY"

end CommandKind

/-- A construct for which a dialect may have no spelling. -/
inductive Construct where
  | join (kind : JoinKind)
  | setAll (op : SetOperator)
  | operator (op : BinaryOperator)
  | cast (type : SqlType)
  | onConflict
  | command (kind : CommandKind)
deriving DecidableEq

namespace Construct

def label : Construct → String
  | join kind => kind.keyword
  | setAll op => op.keyword ++ " ALL"
  | operator op => "operator " ++ op.symbol
  | cast type => "CAST to " ++ type.label
  | onConflict => "ON CONFLICT"
  | command kind => kind.label

end Construct

/-- The ways in which a query can be malformed, whatever the dialect. -/
inductive Malformation where
  | choiceWithoutBranch
  | betweenBounds (given : Nat)
  | emptyInList (subject : Expr)
  | crossJoinWithCondition
  | joinWithoutCondition (kind : JoinKind)
  | emptySelect
  | emptyOrderBy
  | emptyWith
  | insertWithoutRows (table : String)
  | rowWidth (table : String) (expected given : Nat)
  | conflictWithoutAssignment
  | conflictWithoutTarget
  | emptySet
  | emptyReturning
  | returningRows (found : QueryKind)
  | returningTwice
  | misplaced (stage source : QueryKind)
  | nestedModification (kind : QueryKind)
  | notFinite (x : Binary64)
  | insertWithoutSource (table : String)
  | updateWithoutAssignment (table : String)
  | nestedTooDeeply
  | emptyCache

namespace Malformation

def message : Malformation → String
  | choiceWithoutBranch => "CASE requires at least one WHEN branch"
  | betweenBounds given =>
    "BETWEEN takes exactly a low and a high bound, got " ++ toString given
  | emptyInList subject => "IN list for `" ++ subject.describe ++ "` is empty"
  | crossJoinWithCondition => "CROSS JOIN does not take a condition"
  | joinWithoutCondition kind => kind.keyword ++ " requires a join condition"
  | emptySelect => "SELECT requires at least one item"
  | emptyOrderBy => "ORDER BY requires at least one key"
  | emptyWith => "WITH requires at least one common table expression"
  | insertWithoutRows table => "INSERT INTO " ++ table ++ " has no rows"
  | rowWidth table expected given =>
    "INSERT INTO " ++ table ++ " expects " ++ toString expected ++ " values per row, got " ++
      toString given
  | conflictWithoutAssignment => "ON CONFLICT DO UPDATE requires at least one assignment"
  | conflictWithoutTarget => "ON CONFLICT DO UPDATE requires a conflict target"
  | emptySet => "SET requires at least one assignment"
  | emptyReturning => "RETURNING requires at least one item"
  | returningRows found =>
    "RETURNING requires a data-modifying statement, found " ++ found.label
  | returningTwice => "RETURNING given more than once"
  | misplaced stage source => stage.label ++ " cannot follow " ++ source.label
  | nestedModification kind => kind.label ++ " cannot be nested as a row source"
  | notFinite x => "float literal " ++ x.text ++ " has no SQL representation"
  | insertWithoutSource table => "INSERT INTO " ++ table ++ " has no VALUES or SELECT source"
  | updateWithoutAssignment table => "UPDATE " ++ table ++ " has no SET assignments"
  | nestedTooDeeply => "queries are nested too deeply"
  | emptyCache => "plan cache capacity must be at least 1"

end Malformation

/-- Why a placeholder has no table. -/
inductive Unresolved where
  | ambiguous (reason : String)
  | leftOver

namespace Unresolved

/-- The reason, for a field of the given name. -/
def message (field : String) : Unresolved → String
  | ambiguous reason => "placeholder field `" ++ field ++ "` is ambiguous: " ++ reason
  | leftOver => "placeholder field `" ++ field ++ "` was never resolved to a table"

end Unresolved

/-- Why a query or a command cannot be compiled for a dialect. -/
inductive CompileError where
  | resolution (expr : Expr) (field : String) (cause : Unresolved)
  | capability (dialect : String) (feature : Capability)
  | structural (cause : Malformation)
  | unrepresentable (dialect : String) (construct : Construct)

namespace CompileError

def message : CompileError → String
  | resolution expr field cause =>
    "cannot resolve `" ++ expr.describe ++ "`: " ++ cause.message field
  | capability dialect feature => "dialect `" ++ dialect ++ "` does not support " ++ feature.label
  | structural cause => "malformed query: " ++ cause.message
  | unrepresentable dialect construct =>
    "dialect `" ++ dialect ++ "` cannot represent " ++ construct.label

end CompileError

end SqlAlgebra
