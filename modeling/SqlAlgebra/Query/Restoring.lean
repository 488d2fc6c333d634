import SqlAlgebra.Query.Storing

/-!
# Reading stored queries

Expressions, queries and commands are read node by node: the reader of a node is given readers for
the expressions and the queries in it. Those are the readers of the level below, and a document says
how many levels there can be.
-/

namespace SqlAlgebra

variable {ω δ : Type} (f : Format ω δ)

def Shape.read? (x : δ) : Option Shape :=
  match f.variant? x with
  | some ("Table", some name) => (f.text? name).map .table
  | some ("Row", some parts) => do
    let [name, fields] ← f.fields? ["name", "fields"] parts | none
    let name ← f.optional f.text? name
    let fields ← Format.required (f.listOf? f.text?) fields
    return .row name fields
  | some ("Unit", contents) => if f.isEmpty contents then some .unit else none
  | _ => none

/-- Readers for the expressions and the queries inside a node. -/
structure NodeReader (δ : Type) where
  expr : δ → Option Expr
  query : δ → Option Query

namespace NodeReader

variable (read : NodeReader δ)

def exprs : δ → Option (List Expr) := f.listOf? read.expr

def branch (x : δ) : Option Branch := do
  let (condition, result) ← f.pairOf? read.expr read.expr x
  return ⟨condition, result⟩

def orderKey (x : δ) : Option OrderKey := do
  let [e, direction, nulls] ← f.record? ["expr", "direction", "nulls"] x | none
  let e ← Format.required read.expr e
  let direction ← Format.required (SortDirection.read? f) direction
  let nulls ← f.optional (NullsOrder.read? f) nulls
  return ⟨e, direction, nulls⟩

def selectItem (x : δ) : Option SelectItem := do
  let [e, name] ← f.record? ["expr", "alias"] x | none
  let e ← Format.required read.expr e
  let name ← f.optional f.text? name
  return ⟨e, name⟩

def assignment (x : δ) : Option Assignment := do
  let [column, value] ← f.record? ["column", "value"] x | none
  let column ← Format.required f.text? column
  let value ← Format.required read.expr value
  return ⟨column, value⟩

def conflictAction (x : δ) : Option ConflictAction :=
  match f.variant? x with
  | some ("DoNothing", contents) => if f.isEmpty contents then some .doNothing else none
  | some ("DoUpdate", some assignments) =>
    (f.listOf? (read.assignment f) assignments).map .doUpdate
  | _ => none

def joinTarget (x : δ) : Option (JoinTarget Query) :=
  match f.variant? x with
  | some ("Table", some name) => (f.text? name).map .table
  | some ("Lateral", some parts) => do
    let [body, name] ← f.fields? ["query", "alias"] parts | none
    let body ← Format.required read.query body
    let name ← Format.required f.text? name
    return .lateral body name
  | _ => none

def cte (x : δ) : Option (Cte Query) := do
  let [name, columns, body] ← f.record? ["name", "columns", "query"] x | none
  let name ← Format.required f.text? name
  let columns ← Format.required (f.listOf? f.text?) columns
  let body ← Format.required read.query body
  return ⟨name, columns, body⟩

/-- An expression by the name of its kind, with the place of its parts. -/
def exprOfParts (tag : String) (parts : δ) : Option Expr :=
  match tag with
  | "Placeholder" => (f.text? parts).map .placeholder
  | "Literal" => (Value.read? f parts).map .literal
  | "Subquery" => (read.query parts).map .subquery
  | "Column" => do
    let [table, name] ← f.record? ["table", "name"] parts | none
    let table ← f.optional f.text? table
    let name ← Format.required f.text? name
    return .column table name
  | "Parameter" => do
    let [type, name] ← f.record? ["ty", "name"] parts | none
    let type ← Format.required (SqlType.read? f) type
    let name ← Format.required f.text? name
    return .parameter type name
  | "Binary" => do
    let [op, left, right] ← f.fields? ["op", "left", "right"] parts | none
    let op ← Format.required (BinaryOperator.read? f) op
    let left ← Format.required read.expr left
    let right ← Format.required read.expr right
    return .binary op left right
  | "Unary" => do
    let [op, operand] ← f.fields? ["op", "operand"] parts | none
    let op ← Format.required (UnaryOperator.read? f) op
    let operand ← Format.required read.expr operand
    return .unary op operand
  | "Function" => do
    let [name, args, distinct] ← f.fields? ["name", "args", "distinct"] parts | none
    let name ← Format.required f.text? name
    let args ← Format.required (read.exprs f) args
    let distinct ← Format.required f.bool? distinct
    return .call name args distinct
  | "Between" => do
    let [subject, low, high, negated] ← f.fields? ["expr", "low", "high", "negated"] parts | none
    let subject ← Format.required read.expr subject
    let low ← Format.required read.expr low
    let high ← Format.required read.expr high
    let negated ← Format.required f.bool? negated
    return .between subject low high negated
  | "InList" => do
    let [subject, values, negated] ← f.fields? ["expr", "values", "negated"] parts | none
    let subject ← Format.required read.expr subject
    let values ← Format.required (read.exprs f) values
    let negated ← Format.required f.bool? negated
    return .inList subject values negated
  | "Cast" => do
    let [operand, type] ← f.fields? ["expr", "ty"] parts | none
    let operand ← Format.required read.expr operand
    let type ← Format.required (SqlType.read? f) type
    return .cast operand type
  | "Exists" => do
    let [query, negated] ← f.fields? ["query", "negated"] parts | none
    let query ← Format.required read.query query
    let negated ← Format.required f.bool? negated
    return .existence query negated
  | "Case" => do
    let [branches, otherwise] ← f.fields? ["branches", "otherwise"] parts | none
    let branches ← Format.required (f.listOf? (read.branch f)) branches
    let otherwise ← f.optional read.expr otherwise
    return .choice branches otherwise
  | "Window" => do
    let [name, args, partition, order, frame] ←
      f.record? ["name", "args", "partition_by", "order_by", "frame"] parts | none
    let name ← Format.required f.text? name
    let args ← Format.required (read.exprs f) args
    let partition ← Format.required (read.exprs f) partition
    let order ← Format.required (f.listOf? (read.orderKey f)) order
    let frame ← f.optional (Frame.read? f) frame
    return .window name args partition order frame
  | _ => none

/-- An expression whose inner expressions and queries are read by `read`. -/
def exprNode (x : δ) : Option Expr :=
  match f.variant? x with
  | some ("Wildcard", contents) => if f.isEmpty contents then some .wildcard else none
  | some (tag, some parts) => read.exprOfParts f tag parts
  | _ => none

/-- The names of the parts of a stage, apart from its source. -/
def stageNames : String → Option (List String)
  | "Where" | "Having" | "UpdateWhere" | "DeleteWhere" => some ["predicate"]
  | "Join" => some ["target", "condition", "kind"]
  | "Select" | "Returning" => some ["shape", "items"]
  | "OrderBy" | "GroupBy" => some ["keys"]
  | "Limit" | "Offset" => some ["count"]
  | "Distinct" => some []
  | "InsertValues" => some ["rows"]
  | "InsertSelect" => some ["query"]
  | "OnConflict" => some ["target", "action"]
  | "UpdateAssign" => some ["assignments"]
  | _ => none

/-- A stage by the name of its kind, with the parts other than its source. -/
def stage (tag : String) (parts : List (Option δ)) : Option Stage :=
  match tag, parts with
  | "Where", [predicate] => (Format.required read.expr predicate).map .filter
  | "Join", [target, condition, kind] => do
    let target ← Format.required (read.joinTarget f) target
    let condition ← f.optional read.expr condition
    let kind ← Format.required (JoinKind.read? f) kind
    return .join target condition kind
  | "Select", [shape, items] => do
    let shape ← Format.required (Shape.read? f) shape
    let items ← Format.required (f.listOf? (read.selectItem f)) items
    return .select shape items
  | "OrderBy", [keys] => (Format.required (f.listOf? (read.orderKey f)) keys).map .orderBy
  | "Limit", [count] => (Format.required read.expr count).map .limit
  | "Offset", [count] => (Format.required read.expr count).map .offset
  | "Distinct", [] => some .distinct
  | "GroupBy", [keys] => (Format.required (read.exprs f) keys).map .groupBy
  | "Having", [predicate] => (Format.required read.expr predicate).map .having
  | "InsertValues", [rows] => (Format.required (f.listOf? (read.exprs f)) rows).map .values
  | "InsertSelect", [rows] => (Format.required read.query rows).map .insertSelect
  | "OnConflict", [target, action] => do
    let target ← Format.required (f.listOf? f.text?) target
    let action ← Format.required (read.conflictAction f) action
    return .onConflict target action
  | "UpdateAssign", [assignments] =>
    (Format.required (f.listOf? (read.assignment f)) assignments).map .set
  | "UpdateWhere", [predicate] => (Format.required read.expr predicate).map .updateWhere
  | "DeleteWhere", [predicate] => (Format.required read.expr predicate).map .deleteWhere
  | "Returning", [shape, items] => do
    let shape ← Format.required (Shape.read? f) shape
    let items ← Format.required (f.listOf? (read.selectItem f)) items
    return .returning shape items
  | _, _ => none

/-- A stage with its source, by the name of its kind and with the place of the parts. -/
def step (tag : String) (parts : δ) : Option Query := do
  let names ← stageNames tag
  let source :: rest ← f.fields? ("source" :: names) parts | none
  let source ← Format.required read.query source
  return .step source (← read.stage f tag rest)

/-- A query by the name of its kind, with the place of its parts. -/
def queryOfParts (tag : String) (parts : δ) : Option Query :=
  match tag with
  | "From" => do
    let [table] ← f.fields? ["table"] parts | none
    (Format.required f.text? table).map .table
  | "InsertInto" => do
    let [table, columns] ← f.fields? ["table", "columns"] parts | none
    let table ← Format.required f.text? table
    let columns ← Format.required (f.listOf? f.text?) columns
    return .insertInto table columns
  | "Update" => do
    let [table] ← f.fields? ["table"] parts | none
    (Format.required f.text? table).map .update
  | "DeleteFrom" => do
    let [table] ← f.fields? ["table"] parts | none
    (Format.required f.text? table).map .deleteFrom
  | "SetOperation" => do
    let [op, all, left, right] ← f.fields? ["op", "all", "left", "right"] parts | none
    let op ← Format.required (SetOperator.read? f) op
    let all ← Format.required f.bool? all
    let left ← Format.required read.query left
    let right ← Format.required read.query right
    return .setOperation op all left right
  | "With" => do
    let [recursive, ctes, main] ← f.fields? ["recursive", "ctes", "main"] parts | none
    let recursive ← Format.required f.bool? recursive
    let ctes ← Format.required (f.listOf? (read.cte f)) ctes
    let main ← Format.required read.query main
    return .withCtes recursive ctes main
  | tag => read.step f tag parts

/-- A query whose inner expressions and queries are read by `read`. -/
def queryNode (x : δ) : Option Query :=
  match f.variant? x with
  | some (tag, some parts) => read.queryOfParts f tag parts
  | _ => none

/-- The readers for at most `levels` nodes inside one another. -/
def upTo : Nat → NodeReader δ
  | 0 => ⟨fun _ => none, fun _ => none⟩
  | levels + 1 => ⟨(upTo levels).exprNode f, (upTo levels).queryNode f⟩

end NodeReader

/-- The expression that is stored at a place. -/
def Expr.read? (x : δ) : Option Expr := (NodeReader.upTo f (f.levels x + 1)).expr x

/-- The query that is stored at a place. -/
def Query.read? (x : δ) : Option Query := (NodeReader.upTo f (f.levels x + 1)).query x

/-- The order key that is stored at a place. -/
def OrderKey.read? (x : δ) : Option OrderKey := (NodeReader.upTo f (f.levels x + 1)).orderKey f x

/-- The command that is stored at a place. -/
def Command.read? (x : δ) : Option Command :=
  match f.variant? x with
  | some ("Savepoint", some name) => (f.text? name).map .savepoint
  | some ("ReleaseSavepoint", some name) => (f.text? name).map .releaseSavepoint
  | some ("RollbackToSavepoint", some name) => (f.text? name).map .rollbackToSavepoint
  | some ("AdvisoryLock", some parts) => do
    let [key] ← f.fields? ["key"] parts | none
    (Format.required (Expr.read? f) key).map .advisoryLock
  | some ("AdvisoryUnlock", some parts) => do
    let [key] ← f.fields? ["key"] parts | none
    (Format.required (Expr.read? f) key).map .advisoryUnlock
  | some ("CopyIn", some parts) => do
    let [table, columns] ← f.fields? ["table", "columns"] parts | none
    let table ← Format.required f.text? table
    let columns ← Format.required (f.listOf? f.text?) columns
    return .copyIn table columns
  | _ => none

end SqlAlgebra
