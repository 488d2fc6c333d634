import SqlAlgebra.Query.Basic
import SqlAlgebra.Text.Lowercase
import SqlAlgebra.Text.Quoted

/-!
# Expressions in words

The text by which messages and output columns refer to an expression. It is the same for every
dialect; a nested query is shown by its kind alone.
-/

namespace SqlAlgebra

namespace Value

/-- The text of a constant: text stands between apostrophes, with those inside it doubled. -/
def describe : Value → String
  | null => "NULL"
  | bool b => if b then "TRUE" else "FALSE"
  | int n => toString n.toInt
  | float x => x.text
  | text s => String.ofList (Text.quoted '\x27' '\x27' s.toList)

end Value

/-- The word in front of a negated test. -/
def negation (negated : Bool) : String := if negated then "NOT " else ""

/-- How a nested query is shown. -/
def Query.summary (q : Query) : String := "<" ++ q.kind.label ++ " subquery>"

/-- Words separated by commas. -/
def commaList (texts : List String) : String := ", ".intercalate texts

/-- The words behind the expression of an order key. -/
def describeOrder (direction : SortDirection) (nulls : Option NullsOrder) : String :=
  (match direction with
    | .asc => ""
    | .desc => " DESC") ++
  (match nulls with
    | none => ""
    | some order => " " ++ order.keyword)

/-- The part of a window call between its brackets: partition, order and frame, as far as they are
given, with blanks between them. -/
def describeOver (partition order : List String) (frame : Option Frame) : String :=
  " ".intercalate <|
    (if partition.isEmpty then [] else ["PARTITION BY " ++ commaList partition]) ++
    (if order.isEmpty then [] else ["ORDER BY " ++ commaList order]) ++
    (match frame with
      | none => []
      | some frame => [frame.text])

mutual

/-- The text of an expression in messages. Placeholders are shown as `_.name`, parameters as
`:name`. -/
def Expr.describe : Expr → String
  | .column none name => name
  | .column (some table) name => table ++ "." ++ name
  | .placeholder name => "_." ++ name
  | .literal value => value.describe
  | .parameter _ name => ":" ++ name
  | .binary op left right =>
    "(" ++ left.describe ++ " " ++ op.symbol ++ " " ++ right.describe ++ ")"
  | .unary .not operand => "(NOT " ++ operand.describe ++ ")"
  | .unary .minus operand => "(- " ++ operand.describe ++ ")"
  | .unary .isNull operand => "(" ++ operand.describe ++ " IS NULL)"
  | .unary .isNotNull operand => "(" ++ operand.describe ++ " IS NOT NULL)"
  | .call name args distinct =>
    name ++ "(" ++ (if distinct then "DISTINCT " else "") ++ commaList (Expr.describeAll args) ++
      ")"
  | .between subject low high negated =>
    "(" ++ subject.describe ++ " " ++ negation negated ++ "BETWEEN " ++ low.describe ++ " AND " ++
      high.describe ++ ")"
  | .inList subject [.subquery query] negated =>
    "(" ++ subject.describe ++ " " ++ negation negated ++ "IN " ++ query.summary ++ ")"
  | .inList subject values negated =>
    "(" ++ subject.describe ++ " " ++ negation negated ++ "IN (" ++
      commaList (Expr.describeAll values) ++ "))"
  | .cast operand type => "CAST(" ++ operand.describe ++ " AS " ++ type.label ++ ")"
  | .subquery query => "(" ++ query.summary ++ ")"
  | .existence query negated => negation negated ++ "EXISTS (" ++ query.summary ++ ")"
  | .choice branches otherwise =>
    "CASE" ++ Branch.describeAll branches ++ Expr.describeElse otherwise ++ " END"
  | .window name args partition order frame =>
    name ++ "(" ++ commaList (Expr.describeAll args) ++ ") OVER (" ++
      describeOver (Expr.describeAll partition) (OrderKey.describeAll order) frame ++ ")"
  | .wildcard => "*"
termination_by structural e => e

def Expr.describeAll : List Expr → List String
  | [] => []
  | e :: es => e.describe :: Expr.describeAll es
termination_by structural es => es

def Expr.describeElse : Option Expr → String
  | none => ""
  | some e => " ELSE " ++ e.describe
termination_by structural e => e

def Branch.describeAll : List Branch → String
  | [] => ""
  | ⟨condition, result⟩ :: branches =>
    " WHEN " ++ condition.describe ++ " THEN " ++ result.describe ++ Branch.describeAll branches
termination_by structural branches => branches

def OrderKey.describeAll : List OrderKey → List String
  | [] => []
  | ⟨e, direction, nulls⟩ :: keys =>
    (e.describe ++ describeOrder direction nulls) :: OrderKey.describeAll keys
termination_by structural keys => keys

end

/-- The text of an order key in messages. -/
def OrderKey.describe (key : OrderKey) : String :=
  key.expr.describe ++ describeOrder key.direction key.nulls

/-- The name of the output column that an expression makes when it is given no other: the name of
a column, the lowercase name of a called function, and else the text of the expression. -/
def Expr.outputName : Expr → String
  | .column _ name => name
  | .placeholder name => name
  | .call name _ _ => Text.lowercase name
  | .window name _ _ _ _ => Text.lowercase name
  | e => e.describe

/-- The name of the output column that an item makes. -/
def SelectItem.outputName (item : SelectItem) : String :=
  match item.name with
  | some name => name
  | none => item.expr.outputName

end SqlAlgebra
