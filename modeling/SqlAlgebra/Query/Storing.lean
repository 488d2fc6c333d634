import SqlAlgebra.Command
import SqlAlgebra.Format.Names

/-!
# Stored queries

How expressions, queries and commands are stored. Every node names its kind and, apart from those
that are only a name, its parts. A stage names its source as the first of its parts.
-/

namespace SqlAlgebra

variable {ω δ : Type} (f : Format ω δ)

/-- A shape, by its kind. -/
def Shape.write : Shape → ω
  | .table name => f.wrapped "Table" (f.text name)
  | .row name fields =>
    f.tagged "Row" [("name", f.ofOption f.text name), ("fields", f.texts fields)]
  | .unit => f.constant "Unit"

/-- The name of a stage's kind. -/
def Stage.tag : Stage → String
  | .filter _ => "Where"
  | .join .. => "Join"
  | .select .. => "Select"
  | .orderBy _ => "OrderBy"
  | .limit _ => "Limit"
  | .offset _ => "Offset"
  | .distinct => "Distinct"
  | .groupBy _ => "GroupBy"
  | .having _ => "Having"
  | .values _ => "InsertValues"
  | .insertSelect _ => "InsertSelect"
  | .onConflict .. => "OnConflict"
  | .set _ => "UpdateAssign"
  | .updateWhere _ => "UpdateWhere"
  | .deleteWhere _ => "DeleteWhere"
  | .returning .. => "Returning"

mutual

/-- The stored form of an expression. -/
def Expr.write : Expr → ω
  | .column table name =>
    f.wrapped "Column" (f.record [("table", f.ofOption f.text table), ("name", f.text name)])
  | .placeholder name => f.wrapped "Placeholder" (f.text name)
  | .literal value => f.wrapped "Literal" (value.write f)
  | .parameter type name =>
    f.wrapped "Parameter" (f.record [("ty", type.write f), ("name", f.text name)])
  | .binary op left right =>
    f.tagged "Binary" [("op", op.write f), ("left", left.write), ("right", right.write)]
  | .unary op operand => f.tagged "Unary" [("op", op.write f), ("operand", operand.write)]
  | .call name args distinct =>
    f.tagged "Function" [("name", f.text name), ("args", f.list (Expr.writeAll args)),
      ("distinct", f.bool distinct)]
  | .between subject low high negated =>
    f.tagged "Between" [("expr", subject.write), ("low", low.write), ("high", high.write),
      ("negated", f.bool negated)]
  | .inList subject values negated =>
    f.tagged "InList" [("expr", subject.write), ("values", f.list (Expr.writeAll values)),
      ("negated", f.bool negated)]
  | .cast operand type => f.tagged "Cast" [("expr", operand.write), ("ty", type.write f)]
  | .subquery query => f.wrapped "Subquery" query.write
  | .existence query negated =>
    f.tagged "Exists" [("query", query.write), ("negated", f.bool negated)]
  | .choice branches otherwise =>
    f.tagged "Case" [("branches", f.list (Branch.writeAll branches)),
      ("otherwise", Expr.writeOption otherwise)]
  | .window name args partition order frame =>
    f.wrapped "Window" (f.record [("name", f.text name), ("args", f.list (Expr.writeAll args)),
      ("partition_by", f.list (Expr.writeAll partition)),
      ("order_by", f.list (OrderKey.writeAll order)),
      ("frame", f.ofOption (Frame.write f) frame)])
  | .wildcard => f.constant "Wildcard"
termination_by structural e => e

def Expr.writeAll : List Expr → List ω
  | [] => []
  | e :: es => e.write :: Expr.writeAll es
termination_by structural es => es

def Expr.writeOption : Option Expr → ω
  | none => f.absent
  | some e => f.present e.write
termination_by structural e => e

def Expr.writeRows : List (List Expr) → List ω
  | [] => []
  | row :: rows => f.list (Expr.writeAll row) :: Expr.writeRows rows
termination_by structural rows => rows

def Branch.writeAll : List Branch → List ω
  | [] => []
  | ⟨condition, result⟩ :: branches =>
    f.pair condition.write result.write :: Branch.writeAll branches
termination_by structural branches => branches

/-- The stored form of an order key. -/
def OrderKey.write : OrderKey → ω
  | ⟨e, direction, nulls⟩ =>
    f.record [("expr", e.write), ("direction", direction.write f),
      ("nulls", f.ofOption (NullsOrder.write f) nulls)]
termination_by structural key => key

def OrderKey.writeAll : List OrderKey → List ω
  | [] => []
  | key :: keys => key.write :: OrderKey.writeAll keys
termination_by structural keys => keys

def SelectItem.writeAll : List SelectItem → List ω
  | [] => []
  | ⟨e, name⟩ :: items =>
    f.record [("expr", e.write), ("alias", f.ofOption f.text name)] :: SelectItem.writeAll items
termination_by structural items => items

def Assignment.writeAll : List Assignment → List ω
  | [] => []
  | ⟨column, value⟩ :: assignments =>
    f.record [("column", f.text column), ("value", value.write)] ::
      Assignment.writeAll assignments
termination_by structural assignments => assignments

def ConflictAction.write : ConflictAction → ω
  | .doNothing => f.constant "DoNothing"
  | .doUpdate assignments => f.wrapped "DoUpdate" (f.list (Assignment.writeAll assignments))
termination_by structural action => action

def JoinTarget.write : JoinTarget Query → ω
  | .table name => f.wrapped "Table" (f.text name)
  | .lateral body name => f.tagged "Lateral" [("query", body.write), ("alias", f.text name)]
termination_by structural target => target

def Cte.writeAll : List (Cte Query) → List ω
  | [] => []
  | ⟨name, columns, body⟩ :: ctes =>
    f.record [("name", f.text name), ("columns", f.texts columns), ("query", body.write)] ::
      Cte.writeAll ctes
termination_by structural ctes => ctes

/-- The parts of a stage other than its source. -/
def Stage.parts : Stage → List (String × ω)
  | .filter predicate | .having predicate | .updateWhere predicate | .deleteWhere predicate =>
    [("predicate", predicate.write)]
  | .join target condition kind =>
    [("target", JoinTarget.write target), ("condition", Expr.writeOption condition),
      ("kind", kind.write f)]
  | .select shape items | .returning shape items =>
    [("shape", shape.write f), ("items", f.list (SelectItem.writeAll items))]
  | .orderBy keys => [("keys", f.list (OrderKey.writeAll keys))]
  | .limit count | .offset count => [("count", count.write)]
  | .distinct => []
  | .groupBy keys => [("keys", f.list (Expr.writeAll keys))]
  | .values rows => [("rows", f.list (Expr.writeRows rows))]
  | .insertSelect rows => [("query", rows.write)]
  | .onConflict target action => [("target", f.texts target), ("action", action.write)]
  | .set assignments => [("assignments", f.list (Assignment.writeAll assignments))]
termination_by structural stage => stage

/-- The stored form of a query. -/
def Query.write : Query → ω
  | .table name => f.tagged "From" [("table", f.text name)]
  | .insertInto name columns =>
    f.tagged "InsertInto" [("table", f.text name), ("columns", f.texts columns)]
  | .update name => f.tagged "Update" [("table", f.text name)]
  | .deleteFrom name => f.tagged "DeleteFrom" [("table", f.text name)]
  | .setOperation op all left right =>
    f.tagged "SetOperation" [("op", op.write f), ("all", f.bool all), ("left", left.write),
      ("right", right.write)]
  | .withCtes recursive ctes main =>
    f.tagged "With" [("recursive", f.bool recursive), ("ctes", f.list (Cte.writeAll ctes)),
      ("main", main.write)]
  | .step source stage => f.tagged stage.tag (("source", source.write) :: stage.parts)
termination_by structural q => q

end

/-- The stored form of a command. -/
def Command.write : Command → ω
  | .savepoint name => f.wrapped "Savepoint" (f.text name)
  | .releaseSavepoint name => f.wrapped "ReleaseSavepoint" (f.text name)
  | .rollbackToSavepoint name => f.wrapped "RollbackToSavepoint" (f.text name)
  | .advisoryLock key => f.tagged "AdvisoryLock" [("key", key.write f)]
  | .advisoryUnlock key => f.tagged "AdvisoryUnlock" [("key", key.write f)]
  | .copyIn table columns =>
    f.tagged "CopyIn" [("table", f.text table), ("columns", f.texts columns)]

end SqlAlgebra
