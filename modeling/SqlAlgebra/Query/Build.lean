import SqlAlgebra.Error
import SqlAlgebra.Query.Shape

/-!
# Building queries

Constructions of expressions and of queries beyond the constructors of their types. Those that a
caller can get wrong report how.
-/

namespace SqlAlgebra

namespace Expr

/-- The name that stands for the row proposed for insertion. -/
def proposedTable : String := "excluded"

/-- A column of the row proposed for insertion. -/
def proposed (name : String) : Expr := .column (some proposedTable) name

/-- The number of rows. -/
def countAll : Expr := .call "COUNT" [.wildcard] false

/-- A range test whose bounds come as a list, which must hold two. -/
def betweenBounds (subject : Expr) : List Expr → Except CompileError Expr
  | [low, high] => .ok (.between subject low high false)
  | bounds => .error (.structural (.betweenBounds bounds.length))

/-- Membership in a list, which must not be empty. -/
def memberOf (subject : Expr) (values : List Expr) (negated : Bool) : Except CompileError Expr :=
  if values.isEmpty then .error (.structural (.emptyInList subject))
  else .ok (.inList subject values negated)

/-- Membership in the rows of a query. -/
def memberOfQuery (subject : Expr) (query : Query) (negated : Bool) : Expr :=
  .inList subject [.subquery query] negated

/-- A CASE, which must have a branch. -/
def caseOf (branches : List Branch) (otherwise : Option Expr) : Except CompileError Expr :=
  if branches.isEmpty then .error (.structural .choiceWithoutBranch)
  else .ok (.choice branches otherwise)

end Expr

namespace Query

def filter (q : Query) (predicate : Expr) : Query := q.step (.filter predicate)

/-- Join a table. -/
def join (q : Query) (kind : JoinKind) (table : String) (condition : Option Expr) : Query :=
  q.step (.join (.table table) condition kind)

/-- Join the rows of a query that may refer to the rows before it. -/
def joinLateral (q : Query) (kind : JoinKind) (rows : Query) (name : String)
    (condition : Option Expr) : Query :=
  q.step (.join (.lateral rows name) condition kind)

/-- Project to items; the shape has a field for each of them. -/
def select (q : Query) (items : List SelectItem) (shapeName : Option String) : Query :=
  q.step (.select (Shape.ofItems shapeName items) items)

def orderBy (q : Query) (keys : List OrderKey) : Query := q.step (.orderBy keys)

def limit (q : Query) (count : Expr) : Query := q.step (.limit count)

def offset (q : Query) (count : Expr) : Query := q.step (.offset count)

def distinct (q : Query) : Query := q.step .distinct

def groupBy (q : Query) (keys : List Expr) : Query := q.step (.groupBy keys)

def having (q : Query) (predicate : Expr) : Query := q.step (.having predicate)

def values (q : Query) (rows : List (List Expr)) : Query := q.step (.values rows)

def insertSelect (q : Query) (rows : Query) : Query := q.step (.insertSelect rows)

def onConflict (q : Query) (target : List String) (action : ConflictAction) : Query :=
  q.step (.onConflict target action)

def set (q : Query) (assignments : List Assignment) : Query := q.step (.set assignments)

def updateWhere (q : Query) (predicate : Expr) : Query := q.step (.updateWhere predicate)

def deleteWhere (q : Query) (predicate : Expr) : Query := q.step (.deleteWhere predicate)

/-- Return items from a data-modifying statement; the shape has a field for each of them. -/
def returning (q : Query) (items : List SelectItem) : Query :=
  q.step (.returning (Shape.ofItems none items) items)

end Query

end SqlAlgebra
