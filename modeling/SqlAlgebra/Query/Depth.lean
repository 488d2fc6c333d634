import SqlAlgebra.Query.Basic

/-!
# Nesting depth

How many queries lie inside one another through expressions. The queries that a root or a stage
holds directly are at the level of the query itself.
-/

namespace SqlAlgebra

mutual

/-- The largest number of queries inside one another within an expression. -/
def Expr.depth : Expr → Nat
  | .column .. | .placeholder _ | .literal _ | .parameter .. | .wildcard => 0
  | .binary _ left right => max left.depth right.depth
  | .unary _ operand => operand.depth
  | .call _ args _ => Expr.depthAll args
  | .between subject low high _ => max subject.depth (max low.depth high.depth)
  | .inList subject values _ => max subject.depth (Expr.depthAll values)
  | .cast operand _ => operand.depth
  | .subquery query => query.depth + 1
  | .existence query _ => query.depth + 1
  | .choice branches otherwise => max (Branch.depthAll branches) (Expr.depthOption otherwise)
  | .window _ args partition order _ =>
    max (Expr.depthAll args) (max (Expr.depthAll partition) (OrderKey.depthAll order))
termination_by structural e => e

def Expr.depthAll : List Expr → Nat
  | [] => 0
  | e :: es => max e.depth (Expr.depthAll es)
termination_by structural es => es

def Expr.depthOption : Option Expr → Nat
  | none => 0
  | some e => e.depth
termination_by structural e => e

def Expr.depthRows : List (List Expr) → Nat
  | [] => 0
  | row :: rows => max (Expr.depthAll row) (Expr.depthRows rows)
termination_by structural rows => rows

def Branch.depthAll : List Branch → Nat
  | [] => 0
  | ⟨condition, result⟩ :: branches =>
    max (max condition.depth result.depth) (Branch.depthAll branches)
termination_by structural branches => branches

def OrderKey.depthAll : List OrderKey → Nat
  | [] => 0
  | ⟨e, _, _⟩ :: keys => max e.depth (OrderKey.depthAll keys)
termination_by structural keys => keys

def SelectItem.depthAll : List SelectItem → Nat
  | [] => 0
  | ⟨e, _⟩ :: items => max e.depth (SelectItem.depthAll items)
termination_by structural items => items

def Assignment.depthAll : List Assignment → Nat
  | [] => 0
  | ⟨_, e⟩ :: assignments => max e.depth (Assignment.depthAll assignments)
termination_by structural assignments => assignments

def ConflictAction.depth : ConflictAction → Nat
  | .doNothing => 0
  | .doUpdate assignments => Assignment.depthAll assignments
termination_by structural action => action

def JoinTarget.depth : JoinTarget Query → Nat
  | .table _ => 0
  | .lateral body _ => body.depth
termination_by structural target => target

def Cte.depthAll : List (Cte Query) → Nat
  | [] => 0
  | ⟨_, _, body⟩ :: ctes => max body.depth (Cte.depthAll ctes)
termination_by structural ctes => ctes

def Stage.depth : Stage → Nat
  | .filter e | .limit e | .offset e | .having e | .updateWhere e | .deleteWhere e => e.depth
  | .join target condition _ => max (JoinTarget.depth target) (Expr.depthOption condition)
  | .select _ items | .returning _ items => SelectItem.depthAll items
  | .orderBy keys => OrderKey.depthAll keys
  | .distinct => 0
  | .groupBy keys => Expr.depthAll keys
  | .values rows => Expr.depthRows rows
  | .insertSelect rows => rows.depth
  | .onConflict _ action => action.depth
  | .set assignments => Assignment.depthAll assignments
termination_by structural stage => stage

/-- The largest number of queries inside one another within the expressions of a query. -/
def Query.depth : Query → Nat
  | .table _ | .insertInto .. | .update _ | .deleteFrom _ => 0
  | .setOperation _ _ left right => max left.depth right.depth
  | .withCtes _ ctes main => max (Cte.depthAll ctes) main.depth
  | .step source stage => max source.depth stage.depth
termination_by structural q => q

end

end SqlAlgebra
