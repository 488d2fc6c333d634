import SqlAlgebra.Query.Basic

/-!
# Statements

What queries are lowered to: SQL statements clause by clause, in which every placeholder has been
filled in and every stage has found its clause. Queries nested in expressions are still queries.
-/

namespace SqlAlgebra

/-- What an insertion does with conflicting rows, and on which columns they conflict. -/
structure Upsert where
  target : List String
  action : ConflictAction

/-- An UPDATE. -/
structure Update where
  table : String
  assignments : List Assignment
  filters : List Expr
  returning : Option (List SelectItem)

/-- A DELETE. -/
structure Delete where
  table : String
  filters : List Expr
  returning : Option (List SelectItem)

mutual

/-- A statement. -/
inductive Statement where
  | select (block : Block)
  | setOperation (op : SetOperator) (all : Bool) (left right : Statement)
  | withCtes (recursive : Bool) (ctes : List (Cte Statement)) (body : Statement)
  | insert (insertion : Insert)
  | update (change : Update)
  | delete (deletion : Delete)

/-- One SELECT. -/
structure Block where
  origin : Origin
  joins : List Join
  filters : List Expr
  groupBy : List Expr
  having : List Expr
  projection : Option (List SelectItem)
  distinct : Bool
  orderBy : List OrderKey
  limit : Option Expr
  offset : Option Expr

/-- What a SELECT reads from: a table, or a statement under a name of its own. -/
inductive Origin where
  | table (name : String)
  | derived (body : Statement) (name : String)

/-- One join of a SELECT. -/
structure Join where
  kind : JoinKind
  target : JoinTarget Statement
  condition : Option Expr

/-- An INSERT, which is incomplete as long as it has no source. -/
structure Insert where
  table : String
  columns : List String
  source : Option InsertSource
  upsert : Option Upsert
  returning : Option (List SelectItem)

/-- Where inserted rows come from. -/
inductive InsertSource where
  | values (rows : List (List Expr))
  | select (body : Statement)

end

namespace Statement

/-- The statement changes data, so that it cannot stand where rows are read. -/
def isModification : Statement → Bool
  | insert _ | update _ | delete _ => true
  | select _ | setOperation .. | withCtes .. => false

end Statement

namespace Block

/-- The SELECT of everything from an origin. -/
def ofOrigin (origin : Origin) : Block where
  origin := origin
  joins := []
  filters := []
  groupBy := []
  having := []
  projection := none
  distinct := false
  orderBy := []
  limit := none
  offset := none

/-- Some clause of the SELECT works on groups of rows. -/
def grouped (b : Block) : Bool := !b.groupBy.isEmpty || !b.having.isEmpty

/-- The columns of the SELECT are settled. -/
def projected (b : Block) : Bool := b.projection.isSome || b.distinct

/-- The order or the number of rows is settled. -/
def paged (b : Block) : Bool := !b.orderBy.isEmpty || b.limit.isSome || b.offset.isSome

end Block

/-- The clauses of a SELECT that a stage can add to. -/
inductive Clause where
  | filter | join | groupBy | having | select | distinct | orderBy | limit | offset
deriving DecidableEq

/-- A clause can still be added to a SELECT. SQL evaluates joins, filters, groups, projection,
order and paging in this sequence, so a clause is taken only if it runs after all that is there. -/
def Block.accepts (b : Block) : Clause → Bool
  | .filter | .groupBy => !b.grouped && !b.projected && !b.paged
  | .join => b.filters.isEmpty && !b.grouped && !b.projected && !b.paged
  | .having => !b.projected && !b.paged
  | .select => !b.projected
  | .distinct => !b.distinct && !b.paged
  | .orderBy => !b.paged
  | .limit => b.limit.isNone
  | .offset => b.offset.isNone && b.limit.isNone

end SqlAlgebra
