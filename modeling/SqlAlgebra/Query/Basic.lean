import SqlAlgebra.Frame
import SqlAlgebra.Operator
import SqlAlgebra.SqlType
import SqlAlgebra.Value

/-!
# Queries and expressions

A query is a root (a table, the start of a data-modifying statement, a set operation or a WITH)
with stages stacked upon it, each of which acts on the rows of what lies below. Expressions occur
in stages, and queries occur in expressions as subqueries, so the two types are declared together.
-/

namespace SqlAlgebra

/-- The rows that a query yields: all columns of a table, a declared row, or none at all. -/
inductive Shape where
  | table (name : String)
  | row (name : Option String) (fields : List String)
  | unit
deriving DecidableEq

/-- One entry of a WITH clause; its body is a query, or what a query has been lowered to. -/
structure Cte (β : Type) where
  name : String
  columns : List String
  body : β
deriving DecidableEq

/-- What a join adds to the rows: a table, or a body that may refer to the rows before it. -/
inductive JoinTarget (β : Type) where
  | table (name : String)
  | lateral (body : β) (name : String)
deriving DecidableEq

mutual

/-- A scalar expression or a predicate. A `placeholder` is a column of the one table its query
reads from, whose name is filled in later. -/
inductive Expr where
  | column (table : Option String) (name : String)
  | placeholder (name : String)
  | literal (value : Value)
  | parameter (type : SqlType) (name : String)
  | binary (op : BinaryOperator) (left right : Expr)
  | unary (op : UnaryOperator) (operand : Expr)
  | call (name : String) (args : List Expr) (distinct : Bool)
  | between (subject low high : Expr) (negated : Bool)
  | inList (subject : Expr) (values : List Expr) (negated : Bool)
  | cast (operand : Expr) (type : SqlType)
  | subquery (query : Query)
  | existence (query : Query) (negated : Bool)
  | choice (branches : List Branch) (otherwise : Option Expr)
  | window (name : String) (args partition : List Expr) (order : List OrderKey)
      (frame : Option Frame)
  | wildcard

/-- One WHEN of a CASE. -/
structure Branch where
  condition : Expr
  result : Expr

/-- One key of an ORDER BY, of a query or of a window call. -/
structure OrderKey where
  expr : Expr
  direction : SortDirection
  nulls : Option NullsOrder

/-- One projected expression, with the name it is given, if any. -/
structure SelectItem where
  expr : Expr
  name : Option String

/-- A new value for a column. -/
structure Assignment where
  column : String
  value : Expr

/-- What an insertion does with a row that conflicts with an existing one. -/
inductive ConflictAction where
  | doNothing
  | doUpdate (assignments : List Assignment)

/-- A step of a query, acting on the rows or the statement below it. -/
inductive Stage where
  | filter (predicate : Expr)
  | join (target : JoinTarget Query) (condition : Option Expr) (kind : JoinKind)
  | select (shape : Shape) (items : List SelectItem)
  | orderBy (keys : List OrderKey)
  | limit (count : Expr)
  | offset (count : Expr)
  | distinct
  | groupBy (keys : List Expr)
  | having (predicate : Expr)
  | values (rows : List (List Expr))
  | insertSelect (rows : Query)
  | onConflict (target : List String) (action : ConflictAction)
  | set (assignments : List Assignment)
  | updateWhere (predicate : Expr)
  | deleteWhere (predicate : Expr)
  | returning (shape : Shape) (items : List SelectItem)

/-- A query: a root, or a stage upon a source. -/
inductive Query where
  | table (name : String)
  | insertInto (table : String) (columns : List String)
  | update (table : String)
  | deleteFrom (table : String)
  | setOperation (op : SetOperator) (all : Bool) (left right : Query)
  | withCtes (recursive : Bool) (ctes : List (Cte Query)) (main : Query)
  | step (source : Query) (stage : Stage)

end

instance : Inhabited Expr := ⟨.wildcard⟩
instance : Inhabited Query := ⟨.table ""⟩

/-- The kinds of roots and stages, as messages name them. -/
inductive QueryKind where
  | table | filter | join | select | orderBy | limit | offset | distinct | groupBy | having
  | insertInto | values | insertSelect | onConflict
  | update | set | updateWhere
  | deleteFrom | deleteWhere
  | returning
  | setOperation (op : SetOperator)
  | withCtes
deriving DecidableEq

namespace QueryKind

def label : QueryKind → String
  | table => "FROM"
  | filter => "WHERE"
  | join => "JOIN"
  | select => "SELECT"
  | orderBy => "ORDER BY"
  | limit => "LIMIT"
  | offset => "OFFSET"
  | distinct => "DISTINCT"
  | groupBy => "GROUP BY"
  | having => "HAVING"
  | insertInto => "INSERT INTO"
  | values => "VALUES"
  | insertSelect => "INSERT SELECT"
  | onConflict => "ON CONFLICT"
  | update => "UPDATE"
  | set => "SET"
  | updateWhere => "UPDATE WHERE"
  | deleteFrom => "DELETE FROM"
  | deleteWhere => "DELETE WHERE"
  | returning => "RETURNING"
  | setOperation op => op.keyword
  | withCtes => "WITH"

end QueryKind

namespace Stage

def kind : Stage → QueryKind
  | filter .. => .filter
  | join .. => .join
  | select .. => .select
  | orderBy .. => .orderBy
  | limit .. => .limit
  | offset .. => .offset
  | distinct => .distinct
  | groupBy .. => .groupBy
  | having .. => .having
  | values .. => .values
  | insertSelect .. => .insertSelect
  | onConflict .. => .onConflict
  | set .. => .set
  | updateWhere .. => .updateWhere
  | deleteWhere .. => .deleteWhere
  | returning .. => .returning

end Stage

namespace Query

/-- The kind of the root or of the topmost stage. -/
def kind : Query → QueryKind
  | table .. => .table
  | insertInto .. => .insertInto
  | update .. => .update
  | deleteFrom .. => .deleteFrom
  | setOperation op .. => .setOperation op
  | withCtes .. => .withCtes
  | step _ stage => stage.kind

/-- The kinds of the stages from the topmost down to the root. -/
def kinds : Query → List QueryKind
  | step source stage => stage.kind :: source.kinds
  | root => [root.kind]

end Query

end SqlAlgebra
