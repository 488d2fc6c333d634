import SqlAlgebra.Compile
import SqlAlgebra.Query.Equality

/-!
# Commands

Statements that stand outside queries: savepoints, advisory locks, and the start of a bulk load.
Each needs a capability of the dialect.
-/

namespace SqlAlgebra

/-- A command. -/
inductive Command where
  | savepoint (name : String)
  | releaseSavepoint (name : String)
  | rollbackToSavepoint (name : String)
  | advisoryLock (key : Expr)
  | advisoryUnlock (key : Expr)
  | copyIn (table : String) (columns : List String)
deriving DecidableEq

namespace Command

def kind : Command → CommandKind
  | savepoint _ => .savepoint
  | releaseSavepoint _ => .releaseSavepoint
  | rollbackToSavepoint _ => .rollbackToSavepoint
  | advisoryLock _ => .advisoryLock
  | advisoryUnlock _ => .advisoryUnlock
  | copyIn _ _ => .copy

end Command

namespace LockSyntax

/-- The words before the key of a lock that is taken or released. -/
def opening : LockSyntax → Bool → String
  | postgres, true => "SELECT pg_advisory_lock"
  | postgres, false => "SELECT pg_advisory_unlock"
  | mySql, true => "SELECT GET_LOCK"
  | mySql, false => "SELECT RELEASE_LOCK"

/-- What follows the key. A wait of `-1` has no end. -/
def closing : LockSyntax → Bool → List Token
  | mySql, true => [.text ", -1"]
  | _, _ => []

end LockSyntax

namespace Command

/-- A command has no source table to which placeholders could belong. -/
def scope : Scope := .ambiguous "commands have no source table"

/-- A command on a savepoint. -/
def renderSavepoint (d : Dialect) (keyword name : String) : Rendered := do
  d.require .savepoint
  return [.text keyword, .ident name]

/-- A command that takes or releases a lock. -/
def renderLock (d : Dialect) (kind : CommandKind) (key : Expr) (taken : Bool) : Rendered := do
  d.require .advisoryLock
  match d.advisoryLock with
  | none => .error (.unrepresentable d.name (.command kind))
  | some spelling =>
    let key ← key.resolve scope
    let key ← key.render d (Query.renderRows d key.depth)
    return .text (spelling.opening taken) :: Token.parens (key ++ spelling.closing taken)

/-- The tokens of a command. -/
def render (d : Dialect) : Command → Rendered
  | savepoint name => renderSavepoint d "SAVEPOINT " name
  | releaseSavepoint name => renderSavepoint d "RELEASE SAVEPOINT " name
  | rollbackToSavepoint name => renderSavepoint d "ROLLBACK TO SAVEPOINT " name
  | advisoryLock key => renderLock d .advisoryLock key true
  | advisoryUnlock key => renderLock d .advisoryUnlock key false
  | copyIn table columns => do
    d.require .bulkCopy
    match d.bulkCopy with
    | none => .error (.unrepresentable d.name (.command .copy))
    | some .copyFromStdin =>
      return .text "COPY " :: .ident table :: Token.columnList columns ++ [.text " FROM STDIN"]

/-- The plan of a command in a dialect. -/
def compile (d : Dialect) (c : Command) : Except CompileError Plan := do
  return Plan.ofTokens d (← c.render d)

end Command

end SqlAlgebra
