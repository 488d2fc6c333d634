import SqlAlgebra.Plan
import SqlAlgebra.Query.Depth
import SqlAlgebra.Statement.Tokens

/-!
# Compiling queries

A query is lowered to a statement, the statement is written as tokens, and the tokens are numbered
and quoted. A query nested in an expression is lowered only when writing comes to it. Nested queries
are parts of the query around them, so the nesting depth of the whole bounds how often that happens
inside itself.
-/

namespace SqlAlgebra

namespace Query

/-- The tokens of a query that is read for its rows, for queries inside one another at most `limit`
times. -/
def renderRows (d : Dialect) : Nat → Query → Rendered
  | 0, _ => .error (.structural .nestedTooDeeply)
  | limit + 1, q => do
    (← q.lowerRows d).render d (renderRows d limit)

/-- The tokens of a query. -/
def render (d : Dialect) (q : Query) : Rendered := do
  (← q.lower d).render d (renderRows d q.depth)

/-- The plan of a query in a dialect. -/
def compile (d : Dialect) (q : Query) : Except CompileError Plan := do
  return Plan.ofTokens d (← q.render d)

end Query

end SqlAlgebra
