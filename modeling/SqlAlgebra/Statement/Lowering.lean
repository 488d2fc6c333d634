import SqlAlgebra.Dialect.Basic
import SqlAlgebra.Query.Scope
import SqlAlgebra.Statement.Basic

/-!
# Lowering queries to statements

A query is lowered from its root upwards, each stage being added to the statement of its source. A
stage joins the current SELECT where SQL's clause order can express it. Elsewhere the SELECT is
closed off as a derived table and a new one starts above it.

Whatever a stage can report about itself comes before what its source reports: the source is handed
over as the outcome of lowering it, and looked at only when it is needed.
-/

namespace SqlAlgebra

/-- The dialect has a capability. -/
def Dialect.require (d : Dialect) (c : Capability) : Except CompileError Unit :=
  if d.supports c then .ok () else .error (.capability d.name c)

/-- What is known of the source below a stage: its kind, the name it takes as a derived table, and
the outcome of lowering it. -/
structure Source where
  kind : QueryKind
  derivedName : String
  statement : Except CompileError Statement

namespace Source

/-- The stage cannot stand upon this source. -/
def misplaced (s : Source) (stage : QueryKind) : CompileError :=
  .structural (.misplaced stage s.kind)

/-- The source as a statement that yields rows. -/
def rows (s : Source) (stage : QueryKind) : Except CompileError Statement := do
  let statement ← s.statement
  if statement.isModification then .error (s.misplaced stage) else .ok statement

/-- A SELECT over the source to which the clause can be added. -/
def block (s : Source) (stage : QueryKind) (clause : Clause) : Except CompileError Block := do
  match ← s.rows stage with
  | .select block =>
    if block.accepts clause then return block
    else return .ofOrigin (.derived (.select block) s.derivedName)
  | statement => return .ofOrigin (.derived statement s.derivedName)

/-- The source as an INSERT that can still be added to. -/
def insert (s : Source) (stage : QueryKind) : Except CompileError Insert := do
  match ← s.statement with
  | .insert i => if i.returning.isSome then .error (s.misplaced stage) else .ok i
  | _ => .error (s.misplaced stage)

/-- The source as an UPDATE that can still be added to. -/
def update (s : Source) (stage : QueryKind) : Except CompileError Update := do
  match ← s.statement with
  | .update u => if u.returning.isSome then .error (s.misplaced stage) else .ok u
  | _ => .error (s.misplaced stage)

/-- The source as a DELETE that can still be added to. -/
def delete (s : Source) (stage : QueryKind) : Except CompileError Delete := do
  match ← s.statement with
  | .delete x => if x.returning.isSome then .error (s.misplaced stage) else .ok x
  | _ => .error (s.misplaced stage)

end Source

/-- A join has a condition exactly if its kind takes one, and the dialect has the kind. -/
def JoinKind.check (d : Dialect) (kind : JoinKind) (condition : Option Expr) :
    Except CompileError Unit :=
  if kind = .cross ∧ condition.isSome then .error (.structural .crossJoinWithCondition)
  else if kind ≠ .cross ∧ condition.isNone then .error (.structural (.joinWithoutCondition kind))
  else if d.supportsJoin kind then .ok ()
  else .error (.unrepresentable d.name (.join kind))

/-- The rows to insert are not empty and have a value for every column; without columns, as many
values as the first row. -/
def Insert.checkRows (insert : Insert) (rows : List (List Expr)) : Except CompileError Unit :=
  match rows with
  | [] => .error (.structural (.insertWithoutRows insert.table))
  | first :: _ =>
    let width := if insert.columns.isEmpty then first.length else insert.columns.length
    match rows.find? (·.length != width) with
    | some row => .error (.structural (.rowWidth insert.table width row.length))
    | none => .ok ()

/-- A row query in front of ON CONFLICT, whose ON would be read as that of a join unless the SELECT
has a filter, is given one. -/
def Statement.guardJoin : Statement → Statement
  | .select block =>
    if block.filters.isEmpty then
      .select { block with filters := [.literal (.bool true)] }
    else .select block
  | .withCtes recursive ctes body => .withCtes recursive ctes body.guardJoin
  | statement => statement

/-- The INSERT with its row query guarded, where the dialect writes ON CONFLICT. -/
def Insert.guardJoin (d : Dialect) (insert : Insert) : Insert :=
  match d.upsert, insert.source with
  | some .onConflict, some (.select body) =>
    { insert with source := some (.select body.guardJoin) }
  | _, _ => insert

/-- The action of an upsert with its assignments resolved. -/
def ConflictAction.resolve (scope : Scope) : ConflictAction → Except CompileError ConflictAction
  | .doNothing => .ok .doNothing
  | .doUpdate assignments =>
    if assignments.isEmpty then .error (.structural .conflictWithoutAssignment)
    else do return .doUpdate (← scope.resolveAssignments assignments)

/-- The data-modifying statement with items to return. -/
def Statement.addReturning (items : List SelectItem) (source : QueryKind) :
    Statement → Except CompileError Statement
  | .insert i =>
    if i.returning.isSome then .error (.structural .returningTwice)
    else .ok (.insert { i with returning := some items })
  | .update u =>
    if u.returning.isSome then .error (.structural .returningTwice)
    else .ok (.update { u with returning := some items })
  | .delete x =>
    if x.returning.isSome then .error (.structural .returningTwice)
    else .ok (.delete { x with returning := some items })
  | _ => .error (.structural (.returningRows source))

/-- The statement of a query, if it can be read for rows. -/
def Statement.asRows (kind : QueryKind) (statement : Statement) : Except CompileError Statement :=
  if statement.isModification then .error (.structural (.nestedModification kind))
  else .ok statement

mutual

/-- The statement for a query. -/
def Query.lower (d : Dialect) : Query → Except CompileError Statement
  | .table name => .ok (.select (.ofOrigin (.table name)))
  | .insertInto name columns => .ok (.insert ⟨name, columns, none, none, none⟩)
  | .update name => .ok (.update ⟨name, [], [], none⟩)
  | .deleteFrom name => .ok (.delete ⟨name, [], none⟩)
  | .setOperation op all left right => do
    if all && !d.supportsSetAll op then .error (.unrepresentable d.name (.setAll op))
    let left ← (← left.lower d).asRows left.kind
    let right ← (← right.lower d).asRows right.kind
    return .setOperation op all left right
  | .withCtes recursive ctes main => do
    d.require .cte
    if ctes.isEmpty then .error (.structural .emptyWith)
    let ctes ← Cte.lowerAll d ctes
    return .withCtes recursive ctes (← main.lower d)
  | .step source stage =>
    stage.lower d (Query.step source stage).scope
      ⟨source.kind, source.scope.derivedName, source.lower d⟩
termination_by structural q => q

/-- The bodies of a WITH, which may also modify data. -/
def Cte.lowerAll (d : Dialect) : List (Cte Query) → Except CompileError (List (Cte Statement))
  | [] => .ok []
  | ⟨name, columns, body⟩ :: ctes => do
    let body ← body.lower d
    return ⟨name, columns, body⟩ :: (← Cte.lowerAll d ctes)
termination_by structural ctes => ctes

/-- What a join adds. -/
def JoinTarget.lower (d : Dialect) :
    JoinTarget Query → Except CompileError (JoinTarget Statement)
  | .table name => .ok (.table name)
  | .lateral body name => do
    d.require .lateral
    return .lateral (← (← body.lower d).asRows body.kind) name
termination_by structural target => target

/-- The statement of a stage upon its source, the placeholders of the stage being in `scope`. -/
def Stage.lower (d : Dialect) (scope : Scope) (source : Source) :
    Stage → Except CompileError Statement
  | .filter predicate => do
    let predicate ← predicate.resolve scope
    let block ← source.block .filter .filter
    return .select { block with filters := block.filters ++ [predicate] }
  | .join target condition kind => do
    kind.check d condition
    let condition ← scope.resolveOption condition
    let target ← JoinTarget.lower d target
    let block ← source.block .join .join
    return .select { block with joins := block.joins ++ [⟨kind, target, condition⟩] }
  | .select _ items => do
    if items.isEmpty then .error (.structural .emptySelect)
    let items ← scope.resolveItems items
    let block ← source.block .select .select
    return .select { block with projection := some items }
  | .orderBy keys => do
    if keys.isEmpty then .error (.structural .emptyOrderBy)
    let keys ← scope.resolveKeys keys
    let block ← source.block .orderBy .orderBy
    return .select { block with orderBy := keys }
  | .limit count => do
    let count ← count.resolve scope
    let block ← source.block .limit .limit
    return .select { block with limit := some count }
  | .offset count => do
    let count ← count.resolve scope
    let block ← source.block .offset .offset
    return .select { block with offset := some count }
  | .distinct => do
    let block ← source.block .distinct .distinct
    return .select { block with distinct := true }
  | .groupBy [] => source.rows .groupBy
  | .groupBy keys => do
    let keys ← scope.resolveAll keys
    let block ← source.block .groupBy .groupBy
    return .select { block with groupBy := keys }
  | .having predicate => do
    let predicate ← predicate.resolve scope
    let block ← source.block .having .having
    return .select { block with having := block.having ++ [predicate] }
  | .values rows => do
    let insert ← source.insert .values
    if insert.source.isSome then .error (source.misplaced .values)
    insert.checkRows rows
    return .insert { insert with source := some (.values (← scope.resolveRows rows)) }
  | .insertSelect rows => do
    let insert ← source.insert .insertSelect
    if insert.source.isSome then .error (source.misplaced .insertSelect)
    let body ← (← rows.lower d).asRows rows.kind
    return .insert { insert with source := some (.select body) }
  | .onConflict target action => do
    d.require .upsert
    let insert ← source.insert .onConflict
    if insert.source.isNone || insert.upsert.isSome then .error (source.misplaced .onConflict)
    let action ← action.resolve scope
    return .insert (Insert.guardJoin d { insert with upsert := some ⟨target, action⟩ })
  | .set assignments => do
    if assignments.isEmpty then .error (.structural .emptySet)
    let assignments ← scope.resolveAssignments assignments
    let update ← source.update .set
    if update.filters.isEmpty then
      return .update { update with assignments := update.assignments ++ assignments }
    else .error (source.misplaced .set)
  | .updateWhere predicate => do
    let predicate ← predicate.resolve scope
    let update ← source.update .updateWhere
    return .update { update with filters := update.filters ++ [predicate] }
  | .deleteWhere predicate => do
    let predicate ← predicate.resolve scope
    let delete ← source.delete .deleteWhere
    return .delete { delete with filters := delete.filters ++ [predicate] }
  | .returning _ items => do
    d.require .returning
    if items.isEmpty then .error (.structural .emptyReturning)
    let items ← scope.resolveItems items
    (← source.statement).addReturning items source.kind
termination_by structural stage => stage

end

/-- The statement for a query that is read for its rows. -/
def Query.lowerRows (d : Dialect) (q : Query) : Except CompileError Statement := do
  (← q.lower d).asRows q.kind

end SqlAlgebra
