import SqlAlgebra.Query.Tokens
import SqlAlgebra.Statement.Lowering

/-!
# Statements as tokens

A statement is written clause by clause in the order of SQL, so that the first error in the text is
the one reported.
-/

namespace SqlAlgebra

/-- Projected items. -/
def SelectItem.renderAll (d : Dialect) (nested : Query → Rendered) (items : List SelectItem) :
    Rendered := do
  let parts ← items.mapM fun item => do
    let e ← item.expr.render d nested
    match item.name with
    | none => return e
    | some name => return e ++ [.text " AS ", .ident name]
  return Token.commas parts

/-- Assignments of an UPDATE or an upsert. -/
def Assignment.renderAll (d : Dialect) (nested : Query → Rendered)
    (assignments : List Assignment) : Rendered := do
  let parts ← assignments.mapM fun a => do
    return .ident a.column :: .text " = " :: (← a.value.render d nested)
  return Token.commas parts

/-- Rows of constants between brackets. -/
def Expr.renderRows (d : Dialect) (nested : Query → Rendered) (rows : List (List Expr)) :
    Rendered := do
  let rows ← rows.mapM (Expr.renderAll d nested)
  return Token.commas (rows.map fun row => Token.parens (Token.commas row))

/-- A clause of predicates that must all hold, or nothing if there are none. -/
def Expr.renderAnd (d : Dialect) (nested : Query → Rendered) (keyword : String)
    (predicates : List Expr) : Rendered := do
  let parts ← Expr.renderAll d nested predicates
  if parts.isEmpty then return []
  else return .text keyword :: [.text " AND "].intercalate parts

/-- A clause of expressions, or nothing if there are none. -/
def Expr.renderClause (d : Dialect) (nested : Query → Rendered) (keyword : String)
    (es : List Expr) : Rendered := do
  let parts ← Expr.renderAll d nested es
  if parts.isEmpty then return [] else return .text keyword :: Token.commas parts

/-- The order clause, or nothing if there are no keys. -/
def OrderKey.renderClause (d : Dialect) (nested : Query → Rendered) (keys : List OrderKey) :
    Rendered := do
  let parts ← OrderKey.renderAll d nested keys
  if parts.isEmpty then return [] else return .text " ORDER BY " :: Token.commas parts

/-- LIMIT and OFFSET. An OFFSET alone may need another clause before it. -/
def Expr.renderPage (d : Dialect) (nested : Query → Rendered) (limit offset : Option Expr) :
    Rendered := do
  let limitTokens ← match limit, offset with
    | some count, _ => do pure (.text " LIMIT " :: (← count.render d nested))
    | none, none => pure []
    | none, some _ => match d.offsetWithoutLimit with
      | none => pure []
      | some clause => pure [.text (" " ++ clause)]
  let offsetTokens ← match offset with
    | none => pure []
    | some count => do pure (.text " OFFSET " :: (← count.render d nested))
  return limitTokens ++ offsetTokens

/-- The RETURNING clause, if there is one. -/
def SelectItem.renderReturning (d : Dialect) (nested : Query → Rendered) :
    Option (List SelectItem) → Rendered
  | none => .ok []
  | some items => do return .text " RETURNING " :: (← SelectItem.renderAll d nested items)

/-- The clause of an upsert. Where rows with duplicate keys are ignored, there is none. -/
def Upsert.render (d : Dialect) (nested : Query → Rendered) (upsert : Upsert) :
    UpsertSyntax → Rendered
  | .onConflict =>
    match upsert.action with
    | .doNothing =>
      .ok (.text " ON CONFLICT" :: Token.columnList upsert.target ++ [.text " DO NOTHING"])
    | .doUpdate assignments =>
      if upsert.target.isEmpty then .error (.structural .conflictWithoutTarget)
      else do
        let assignments ← Assignment.renderAll d nested assignments
        return .text " ON CONFLICT" :: Token.columnList upsert.target ++
          .text " DO UPDATE SET " :: assignments
  | .onDuplicateKey =>
    match upsert.action with
    | .doNothing => .ok []
    | .doUpdate assignments => do
      let assignments ← Assignment.renderAll d nested assignments
      return .text " ON DUPLICATE KEY UPDATE " :: .proposedAsValues true ::
        (assignments ++ [.proposedAsValues false])

/-- The clause of an upsert, if there is one, in the dialect's spelling. -/
def Upsert.renderOption (d : Dialect) (nested : Query → Rendered) : Option Upsert → Rendered
  | none => .ok []
  | some upsert =>
    match d.upsert with
    | none => .error (.unrepresentable d.name .onConflict)
    | some spelling => upsert.render d nested spelling

/-- There is a spelling for the upsert, if there is one. -/
def Upsert.check (d : Dialect) : Option Upsert → Except CompileError Unit
  | none => .ok ()
  | some _ =>
    if d.upsert.isNone then .error (.unrepresentable d.name .onConflict) else .ok ()

/-- The insertion skips rows with duplicate keys by its first words. -/
def Upsert.isIgnore (d : Dialect) : Option Upsert → Bool
  | some ⟨_, .doNothing⟩ => d.upsert == some .onDuplicateKey
  | _ => false

def Update.render (d : Dialect) (nested : Query → Rendered) (u : Update) : Rendered :=
  if u.assignments.isEmpty then .error (.structural (.updateWithoutAssignment u.table))
  else do
    let assignments ← Assignment.renderAll d nested u.assignments
    let filters ← Expr.renderAnd d nested " WHERE " u.filters
    let returning ← SelectItem.renderReturning d nested u.returning
    return .text "UPDATE " :: .ident u.table :: .text " SET " :: assignments ++ filters ++ returning

def Delete.render (d : Dialect) (nested : Query → Rendered) (x : Delete) : Rendered := do
  let filters ← Expr.renderAnd d nested " WHERE " x.filters
  let returning ← SelectItem.renderReturning d nested x.returning
  return .text "DELETE FROM " :: .ident x.table :: filters ++ returning

/-- A statement under a name. -/
def Token.derived (body : List Token) (name : String) : List Token :=
  parens body ++ [text " AS ", ident name]

/-- The operand of a set operation can stand as it is: a SELECT without order and paging, or on the
left side a set operation of the same kind. -/
def Statement.isFlat (chain : Option (SetOperator × Bool)) : Statement → Bool
  | .select block => !block.paged
  | .setOperation op all _ _ => chain == some (op, all)
  | _ => false

/-- The operand of a set operation, read from a derived table where it cannot stand as it is. -/
def Token.operand (isFlat : Bool) (ts : List Token) : List Token :=
  if isFlat then ts else text "SELECT * FROM " :: derived ts "t"

mutual

/-- The tokens of a statement, `nested` writing the queries in its expressions. -/
def Statement.render (d : Dialect) (nested : Query → Rendered) : Statement → Rendered
  | .select block => block.render d nested
  | .setOperation op all left right => do
    let leftTokens ← left.render d nested
    let rightTokens ← right.render d nested
    return Token.operand (left.isFlat (some (op, all))) leftTokens ++
      .text (" " ++ op.keyword ++ (if all then " ALL " else " ")) ::
      Token.operand (right.isFlat none) rightTokens
  | .withCtes recursive ctes body => do
    let ctes ← Cte.renderAll d nested ctes
    let body ← body.render d nested
    return .text (if recursive then "WITH RECURSIVE " else "WITH ") :: Token.commas ctes ++
      .text " " :: body
  | .insert i => i.render d nested
  | .update u => u.render d nested
  | .delete x => x.render d nested
termination_by structural s => s

def Block.render (d : Dialect) (nested : Query → Rendered) : Block → Rendered
  | ⟨origin, joins, filters, groupBy, having, projection, distinct, orderBy, limit, offset⟩ => do
    let items ← match projection with
      | none => pure [Token.text "*"]
      | some items => SelectItem.renderAll d nested items
    let origin ← origin.render d nested
    let joins ← Join.renderAll d nested joins
    let filters ← Expr.renderAnd d nested " WHERE " filters
    let groupBy ← Expr.renderClause d nested " GROUP BY " groupBy
    let having ← Expr.renderAnd d nested " HAVING " having
    let orderBy ← OrderKey.renderClause d nested orderBy
    let page ← Expr.renderPage d nested limit offset
    return .text (if distinct then "SELECT DISTINCT " else "SELECT ") :: items ++
      .text " FROM " :: origin ++ joins ++ filters ++ groupBy ++ having ++ orderBy ++ page
termination_by structural b => b

def Origin.render (d : Dialect) (nested : Query → Rendered) : Origin → Rendered
  | .table name => .ok [.ident name]
  | .derived body name => do return Token.derived (← body.render d nested) name
termination_by structural o => o

def Join.renderAll (d : Dialect) (nested : Query → Rendered) : List Join → Rendered
  | [] => .ok []
  | ⟨kind, target, condition⟩ :: joins => do
    let target ← JoinTarget.render d nested target
    let condition ← match condition with
      | none => pure []
      | some e => do pure (.text " ON " :: (← e.render d nested))
    let rest ← Join.renderAll d nested joins
    return .text (" " ++ kind.keyword ++ " ") :: target ++ condition ++ rest
termination_by structural joins => joins

def JoinTarget.render (d : Dialect) (nested : Query → Rendered) : JoinTarget Statement → Rendered
  | .table name => .ok [.ident name]
  | .lateral body name => do
    return .text "LATERAL " :: Token.derived (← body.render d nested) name
termination_by structural target => target

def Cte.renderAll (d : Dialect) (nested : Query → Rendered) :
    List (Cte Statement) → Except CompileError (List (List Token))
  | [] => .ok []
  | ⟨name, columns, body⟩ :: ctes => do
    let body ← body.render d nested
    let cte := .ident name :: Token.columnList columns ++ .text " AS " :: Token.parens body
    return cte :: (← Cte.renderAll d nested ctes)
termination_by structural ctes => ctes

def Insert.render (d : Dialect) (nested : Query → Rendered) : Insert → Rendered
  | ⟨table, _, none, _, _⟩ => .error (.structural (.insertWithoutSource table))
  | ⟨table, columns, some source, upsert, returning⟩ => do
    Upsert.check d upsert
    let source ← source.render d nested
    let upsertTokens ← Upsert.renderOption d nested upsert
    let returning ← SelectItem.renderReturning d nested returning
    return .text (if Upsert.isIgnore d upsert then "INSERT IGNORE INTO " else "INSERT INTO ") ::
      .ident table :: Token.columnList columns ++ source ++ upsertTokens ++ returning
termination_by structural i => i

def InsertSource.render (d : Dialect) (nested : Query → Rendered) : InsertSource → Rendered
  | .values rows => do return .text " VALUES " :: (← Expr.renderRows d nested rows)
  | .select body => do return .text " " :: (← body.render d nested)
termination_by structural s => s

end

end SqlAlgebra
