import SqlAlgebra.Query.Shape
import SqlAlgebra.Query.Scope
import SqlAlgebra.Statement.Basic

/-!
# Rows of pipelines and of statements

A pipeline over one table can be read in two ways. Stage by stage, each stage acts on the list of
rows that the stages below it give. As a statement, each SELECT evaluates its clauses in the
sequence of SQL, its derived table before everything else. Both readings leave open what the tables
contain and what predicates, counts, window calls and comparisons mean, and both are partial: they
cover the stages and the clauses that filter, project, remove duplicates, sort and cut off.
-/

namespace SqlAlgebra

/-- The values of columns by name. -/
abbrev Row := List (String × Value)

/-- The value of a column, or null where the row has no such column. -/
def Row.get (row : Row) (name : String) : Value := (row.lookup name).getD .null

/-- What the tables contain, and what expressions mean. -/
structure Meaning where
  table : String → List Row
  /-- The predicate holds of the row. -/
  holds : Expr → Row → Bool
  /-- The number that a LIMIT or an OFFSET gives. -/
  count : Expr → Nat
  /-- The value of a window call over rows, at the row in the given position. -/
  window : Expr → List Row → Nat → Value
  /-- How values compare in an order of the given direction that places nulls as given. -/
  compare : SortDirection → Option NullsOrder → Value → Value → Ordering

/-- The expression is a column that is named without its table. -/
def Expr.isBare : Expr → Bool
  | .column none _ => true
  | _ => false

/-- The expression is a window call. -/
def Expr.isWindow : Expr → Bool
  | .window .. => true
  | _ => false

/-- The name of the column that an order key consists of. -/
def OrderKey.column (key : OrderKey) : String :=
  match key.expr with
  | .column none name => name
  | _ => ""

/-- The item is a bare column or a window call. -/
def SelectItem.isPlain (item : SelectItem) : Bool := item.expr.isBare || item.expr.isWindow

namespace Meaning

variable (m : Meaning)

/-- The value of a projected expression at one of the rows. -/
def value (rows : List Row) (position : Nat) (row : Row) : Expr → Value
  | .column none name => Row.get row name
  | e => m.window e rows position

/-- The row that the items make at one of the rows. -/
def output (items : List SelectItem) (rows : List Row) (position : Nat) (row : Row) : Row :=
  items.map fun item => (item.outputName, m.value rows position row item.expr)

/-- The rows that the items make, one for each row. -/
def project (items : List SelectItem) (rows : List Row) : List Row :=
  rows.mapIdx (m.output items rows)

/-- The first key that tells them apart decides which of two comes first. -/
def precedes {α : Type} (read : α → String → Value) (keys : List OrderKey) (a b : α) : Bool :=
  (keys.foldr (fun key rest =>
    (m.compare key.direction key.nulls (read a key.column) (read b key.column)).then rest)
    .eq).isLE

/-- Sort by keys that are read as given. What the keys do not tell apart stays in its order. -/
def sort {α : Type} (read : α → String → Value) (keys : List OrderKey) (as : List α) : List α :=
  as.mergeSort (m.precedes read keys)

/-- Skip as many as the OFFSET says, and of the rest keep as many as the LIMIT says. -/
def page {α : Type} (limit offset : Option Expr) (as : List α) : List α :=
  let rest := match offset with
    | none => as
    | some e => as.drop (m.count e)
  match limit with
  | none => rest
  | some e => rest.take (m.count e)

end Meaning

/-- All rows can be sorted by the key: it is a bare column that each of them has. -/
def OrderKey.sorts (rows : List Row) (key : OrderKey) : Bool :=
  key.expr.isBare && rows.all fun row => (row.lookup key.column).isSome

/-- What a stage makes of the rows that reach it, its placeholders being in `scope`. -/
def Stage.rows? (m : Meaning) (scope : Scope) (rows : List Row) : Stage → Option (List Row)
  | .filter e => do
    let e ← (e.resolve scope).toOption
    return rows.filter (m.holds e)
  | .select _ items => do
    let items ← (scope.resolveItems items).toOption
    if !items.isEmpty && items.all SelectItem.isPlain then return m.project items rows else none
  | .distinct => some rows.eraseDups
  | .orderBy keys => do
    let keys ← (scope.resolveKeys keys).toOption
    if !keys.isEmpty && keys.all (OrderKey.sorts rows) then return m.sort Row.get keys rows
    else none
  | .offset e => do
    let e ← (e.resolve scope).toOption
    return rows.drop (m.count e)
  | .limit e => do
    let e ← (e.resolve scope).toOption
    return rows.take (m.count e)
  | _ => none

/-- The rows of a pipeline, stage by stage. -/
def Query.rows? (m : Meaning) : Query → Option (List Row)
  | .table name => some (m.table name)
  | .step source stage => do
    stage.rows? m (Query.step source stage).scope (← source.rows? m)
  | _ => none

namespace Block

/-- The clauses of the SELECT are those that the reading covers. -/
def isPlain (b : Block) : Bool :=
  b.joins.isEmpty && b.groupBy.isEmpty && b.having.isEmpty &&
    (b.projection.getD []).all SelectItem.isPlain && b.orderBy.all (·.expr.isBare)

/-- WHERE: the rows that all filters keep. -/
def filterRows (m : Meaning) (b : Block) (rows : List Row) : List Row :=
  rows.filter fun row => b.filters.all (m.holds · row)

/-- SELECT: an output row for each row, together with the row it comes from. Window calls see all
rows that the filters have kept. -/
def outputs (m : Meaning) (b : Block) (rows : List Row) : List (Row × Row) :=
  match b.projection with
  | none => rows.map fun row => (row, row)
  | some items => (m.project items rows).zip rows

/-- DISTINCT: of equal output rows, the first. -/
def distinctOutputs (b : Block) (outputs : List (Row × Row)) : List (Row × Row) :=
  if b.distinct then outputs.eraseDupsBy fun p p' => p.1 == p'.1 else outputs

/-- In ORDER BY, a name is that of an output column if there is one, and else of a column of the
row that the output comes from. -/
def readOutput (p : Row × Row) (name : String) : Value := (p.1.lookup name).getD (Row.get p.2 name)

/-- ORDER BY: the output rows in order. -/
def orderOutputs (m : Meaning) (b : Block) (outputs : List (Row × Row)) : List (Row × Row) :=
  if b.orderBy.isEmpty then outputs else m.sort readOutput b.orderBy outputs

/-- The rows of a SELECT, given those of what it reads from. -/
def evaluate (m : Meaning) (b : Block) (rows : List Row) : List Row :=
  (m.page b.limit b.offset
    (b.orderOutputs m (b.distinctOutputs (b.outputs m (b.filterRows m rows))))).map Prod.fst

end Block

mutual

/-- The rows of a statement, as SQL evaluates it. -/
def Statement.rows? (m : Meaning) : Statement → Option (List Row)
  | .select block => block.rows? m
  | _ => none
termination_by structural s => s

def Block.rows? (m : Meaning) : Block → Option (List Row)
  | ⟨origin, joins, filters, groupBy, having, projection, distinct, orderBy, limit, offset⟩ => do
    let b : Block :=
      ⟨origin, joins, filters, groupBy, having, projection, distinct, orderBy, limit, offset⟩
    let rows ← origin.rows? m
    if b.isPlain then return b.evaluate m rows else none
termination_by structural b => b

def Origin.rows? (m : Meaning) : Origin → Option (List Row)
  | .table name => some (m.table name)
  | .derived body _ => body.rows? m
termination_by structural o => o

end

end SqlAlgebra
