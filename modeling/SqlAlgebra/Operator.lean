/-!
# Operators

The operators of expressions and of queries, with the spelling that messages use. The spelling in a
statement is the dialect's choice.
-/

namespace SqlAlgebra

/-- Binary operators of expressions. -/
inductive BinaryOperator where
  | eq | notEq | lt | ltEq | gt | gtEq
  | and | or
  | plus | minus | multiply | divide | modulo
  | like | notLike | iLike | notILike | concat | regexMatch
deriving DecidableEq

namespace BinaryOperator

/-- Every operator once, in the order of declaration. -/
def all : List BinaryOperator :=
  [eq, notEq, lt, ltEq, gt, gtEq, and, or, plus, minus, multiply, divide, modulo,
    like, notLike, iLike, notILike, concat, regexMatch]

/-- The spelling in messages, the same for all dialects. -/
def symbol : BinaryOperator → String
  | eq => "="
  | notEq => "!="
  | lt => "<"
  | ltEq => "<="
  | gt => ">"
  | gtEq => ">="
  | and => "AND"
  | or => "OR"
  | plus => "+"
  | minus => "-"
  | multiply => "*"
  | divide => "/"
  | modulo => "%"
  | like => "LIKE"
  | notLike => "NOT LIKE"
  | iLike => "ILIKE"
  | notILike => "NOT ILIKE"
  | concat => "||"
  | regexMatch => "~"

/-- Every operator is listed. -/
theorem mem_all (op : BinaryOperator) : op ∈ all := by cases op <;> decide

end BinaryOperator

/-- Unary operators. The two null tests stand behind their operand. -/
inductive UnaryOperator where
  | not | minus | isNull | isNotNull
deriving DecidableEq

/-- Operations that combine the rows of two queries. -/
inductive SetOperator where
  | union | intersect | except
deriving DecidableEq

namespace SetOperator

def keyword : SetOperator → String
  | union => "UNION"
  | intersect => "INTERSECT"
  | except => "EXCEPT"

/-- Every operation once. -/
def all : List SetOperator := [union, intersect, except]

end SetOperator

/-- Kinds of joins. All but the cross join need a condition. -/
inductive JoinKind where
  | inner | left | right | full | cross
deriving DecidableEq

namespace JoinKind

def keyword : JoinKind → String
  | inner => "JOIN"
  | left => "LEFT JOIN"
  | right => "RIGHT JOIN"
  | full => "FULL JOIN"
  | cross => "CROSS JOIN"

/-- Every kind once. -/
def all : List JoinKind := [inner, left, right, full, cross]

end JoinKind

/-- The direction of an order key. -/
inductive SortDirection where
  | asc | desc
deriving DecidableEq

/-- An explicit place for nulls in an order. -/
inductive NullsOrder where
  | first | last
deriving DecidableEq

namespace NullsOrder

def keyword : NullsOrder → String
  | first => "NULLS FIRST"
  | last => "NULLS LAST"

end NullsOrder

end SqlAlgebra
