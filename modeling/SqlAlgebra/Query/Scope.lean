import SqlAlgebra.Error

/-!
# Scopes and placeholders

A placeholder is a column of the one table that its query reads from. The scope of a query says
which table that is, or why there is none, and resolving an expression in a scope replaces its
placeholders by columns of the table. Nested queries have scopes of their own and are left alone.
-/

namespace SqlAlgebra

/-- The table to which placeholders belong, or the reason why there is no single one. -/
inductive Scope where
  | table (name : String)
  | ambiguous (reason : String)
deriving DecidableEq

namespace Scope

/-- The name of a query of this scope when it is wrapped as a derived table. -/
def derivedName : Scope → String
  | table name => name
  | ambiguous _ => "t"

end Scope

/-- The scope of a query, found by going down to its root. A join on the way makes it ambiguous. -/
def Query.scope : Query → Scope
  | .table name => .table name
  | .insertInto name _ => .table name
  | .update name => .table name
  | .deleteFrom name => .table name
  | .setOperation .. => .ambiguous "pipeline reads from a set operation"
  | .withCtes .. => .ambiguous "pipeline reads from a WITH query"
  | .step _ (.join ..) => .ambiguous "pipeline contains a JOIN"
  | .step source _ => source.scope

mutual

/-- The expression with every placeholder replaced by a column of `table`. -/
def Expr.qualify (table : String) : Expr → Expr
  | .placeholder name => .column (some table) name
  | .binary op left right => .binary op (left.qualify table) (right.qualify table)
  | .unary op operand => .unary op (operand.qualify table)
  | .call name args distinct => .call name (Expr.qualifyAll table args) distinct
  | .between subject low high negated =>
    .between (subject.qualify table) (low.qualify table) (high.qualify table) negated
  | .inList subject values negated =>
    .inList (subject.qualify table) (Expr.qualifyAll table values) negated
  | .cast operand type => .cast (operand.qualify table) type
  | .choice branches otherwise =>
    .choice (Branch.qualifyAll table branches) (Expr.qualifyOption table otherwise)
  | .window name args partition order frame =>
    .window name (Expr.qualifyAll table args) (Expr.qualifyAll table partition)
      (OrderKey.qualifyAll table order) frame
  | .column t name => .column t name
  | .literal value => .literal value
  | .parameter type name => .parameter type name
  | .subquery query => .subquery query
  | .existence query negated => .existence query negated
  | .wildcard => .wildcard
termination_by structural e => e

def Expr.qualifyAll (table : String) : List Expr → List Expr
  | [] => []
  | e :: es => e.qualify table :: Expr.qualifyAll table es
termination_by structural es => es

def Expr.qualifyOption (table : String) : Option Expr → Option Expr
  | none => none
  | some e => some (e.qualify table)
termination_by structural e => e

def Branch.qualifyAll (table : String) : List Branch → List Branch
  | [] => []
  | ⟨condition, result⟩ :: branches =>
    ⟨condition.qualify table, result.qualify table⟩ :: Branch.qualifyAll table branches
termination_by structural branches => branches

def OrderKey.qualifyAll (table : String) : List OrderKey → List OrderKey
  | [] => []
  | ⟨e, direction, nulls⟩ :: keys =>
    ⟨e.qualify table, direction, nulls⟩ :: OrderKey.qualifyAll table keys
termination_by structural keys => keys

end

mutual

/-- The leftmost placeholder of an expression, nested queries apart. -/
def Expr.firstPlaceholder? : Expr → Option String
  | .placeholder name => some name
  | .binary _ left right => left.firstPlaceholder?.or right.firstPlaceholder?
  | .unary _ operand => operand.firstPlaceholder?
  | .call _ args _ => Expr.firstPlaceholderIn? args
  | .between subject low high _ =>
    (subject.firstPlaceholder?.or low.firstPlaceholder?).or high.firstPlaceholder?
  | .inList subject values _ => subject.firstPlaceholder?.or (Expr.firstPlaceholderIn? values)
  | .cast operand _ => operand.firstPlaceholder?
  | .choice branches otherwise =>
    (Branch.firstPlaceholderIn? branches).or (Expr.firstPlaceholderOption? otherwise)
  | .window _ args partition order _ =>
    ((Expr.firstPlaceholderIn? args).or (Expr.firstPlaceholderIn? partition)).or
      (OrderKey.firstPlaceholderIn? order)
  | .column .. | .literal _ | .parameter .. | .subquery _ | .existence .. | .wildcard => none
termination_by structural e => e

def Expr.firstPlaceholderIn? : List Expr → Option String
  | [] => none
  | e :: es => e.firstPlaceholder?.or (Expr.firstPlaceholderIn? es)
termination_by structural es => es

def Expr.firstPlaceholderOption? : Option Expr → Option String
  | none => none
  | some e => e.firstPlaceholder?
termination_by structural e => e

def Branch.firstPlaceholderIn? : List Branch → Option String
  | [] => none
  | ⟨condition, result⟩ :: branches =>
    (condition.firstPlaceholder?.or result.firstPlaceholder?).or
      (Branch.firstPlaceholderIn? branches)
termination_by structural branches => branches

def OrderKey.firstPlaceholderIn? : List OrderKey → Option String
  | [] => none
  | ⟨e, _, _⟩ :: keys => e.firstPlaceholder?.or (OrderKey.firstPlaceholderIn? keys)
termination_by structural keys => keys

end

/-- The expression with its placeholders filled in. Where there is no single table, an expression
without placeholders stays as it is and any other is refused. -/
def Expr.resolve (scope : Scope) (e : Expr) : Except CompileError Expr :=
  match scope with
  | .table table => .ok (e.qualify table)
  | .ambiguous reason =>
    match e.firstPlaceholder? with
    | some field => .error (.resolution e field (.ambiguous reason))
    | none => .ok e

namespace Scope

/-- Resolve expressions from left to right; the first failure counts. -/
def resolveAll (scope : Scope) (es : List Expr) : Except CompileError (List Expr) :=
  es.mapM (Expr.resolve scope)

def resolveRows (scope : Scope) (rows : List (List Expr)) :
    Except CompileError (List (List Expr)) :=
  rows.mapM scope.resolveAll

def resolveOption (scope : Scope) : Option Expr → Except CompileError (Option Expr)
  | none => .ok none
  | some e => do return some (← e.resolve scope)

def resolveItems (scope : Scope) (items : List SelectItem) :
    Except CompileError (List SelectItem) :=
  items.mapM fun item => do return { item with expr := ← item.expr.resolve scope }

def resolveKeys (scope : Scope) (keys : List OrderKey) : Except CompileError (List OrderKey) :=
  keys.mapM fun key => do return { key with expr := ← key.expr.resolve scope }

def resolveAssignments (scope : Scope) (assignments : List Assignment) :
    Except CompileError (List Assignment) :=
  assignments.mapM fun a => do return { a with value := ← a.value.resolve scope }

end Scope

end SqlAlgebra
