import SqlAlgebra.Query.Build
import SqlAlgebra.Token

/-!
# Expressions as tokens

An expression is written so that it needs no brackets around it: operators are always bracketed.
How nested queries are written is left to a function that is given.
-/

namespace SqlAlgebra

/-- The outcome of writing: tokens, or the reason why there are none. -/
abbrev Rendered := Except CompileError (List Token)

/-- A column, by itself or of a table. -/
def Token.column : Option String → String → List Token
  | none, name => [ident name]
  | some table, name =>
    if table = Expr.proposedTable then [.proposed name] else [ident table, text ".", ident name]

/-- A constant. Infinities and NaNs cannot be written. -/
def Value.render (d : Dialect) : Value → Rendered
  | null => .ok [.text "NULL"]
  | bool b => .ok [.text (d.boolean b)]
  | int n => .ok [.text (toString n.toInt)]
  | float x => if x.isFinite then .ok [.text x.text] else .error (.structural (.notFinite x))
  | text s => .ok [.literal s]

/-- An operator with its operands. -/
def OperatorSyntax.render (left right : List Token) : OperatorSyntax → List Token
  | between symbol => Token.parens (left ++ [.text (" " ++ symbol ++ " ")] ++ right)
  | call name => .text name :: Token.parens (left ++ [.text ", "] ++ right)
  | upperBetween symbol =>
    Token.parens (.text "UPPER" :: Token.parens left ++ [.text (" " ++ symbol ++ " UPPER")] ++
      Token.parens right)

/-- A unary operator with its operand. -/
def UnaryOperator.render (operand : List Token) : UnaryOperator → List Token
  | not => Token.parens (.text "NOT " :: operand)
  | minus => Token.parens (.text "- " :: operand)
  | isNull => Token.parens (operand ++ [.text " IS NULL"])
  | isNotNull => Token.parens (operand ++ [.text " IS NOT NULL"])

/-- An order key, given what its expression is written as. Where nulls cannot be placed, a null
test goes before the key: false sorts before true, so that descending order puts nulls first. -/
def NullsOrdering.renderKey (body : List Token) (direction : SortDirection)
    (nulls : Option NullsOrder) (ordering : NullsOrdering) : List Token :=
  let key := match direction with
    | .asc => body
    | .desc => body ++ [.text " DESC"]
  match nulls, ordering with
  | none, _ => key
  | some order, .native => key ++ [.text (" " ++ order.keyword)]
  | some .first, .emulatedWithIsNull =>
    UnaryOperator.isNull.render body ++ [.text " DESC, "] ++ key
  | some .last, .emulatedWithIsNull => UnaryOperator.isNull.render body ++ [.text ", "] ++ key

/-- The part of a window call between its brackets. -/
def Token.over (partition order : List (List Token)) (frame : Option Frame) : List Token :=
  [text " "].intercalate <|
    (if partition.isEmpty then [] else [text "PARTITION BY " :: commas partition]) ++
    (if order.isEmpty then [] else [text "ORDER BY " :: commas order]) ++
    (match frame with
      | none => []
      | some frame => [[text frame.text]])

mutual

/-- The tokens of an expression, `nested` writing the queries in it. -/
def Expr.render (d : Dialect) (nested : Query → Rendered) : Expr → Rendered
  | .column table name => .ok (Token.column table name)
  | .placeholder name => .error (.resolution (.placeholder name) name .leftOver)
  | .literal value => value.render d
  | .parameter _ name => .ok [.slot name]
  | .binary op left right =>
    match d.operator? op with
    | none => .error (.unrepresentable d.name (.operator op))
    | some entry => do
      let left ← left.render d nested
      let right ← right.render d nested
      return entry.render left right
  | .unary op operand => do
    return op.render (← operand.render d nested)
  | .call name args distinct => do
    let args ← Expr.renderAll d nested args
    let all := if distinct then .text "DISTINCT " :: Token.commas args else Token.commas args
    return .text name :: Token.parens all
  | .between subject low high negated => do
    let subject ← subject.render d nested
    let low ← low.render d nested
    let high ← high.render d nested
    return Token.parens (subject ++ [.text (" " ++ negation negated ++ "BETWEEN ")] ++ low ++
      [.text " AND "] ++ high)
  | .inList subject [] _ => .error (.structural (.emptyInList subject))
  | .inList subject [.subquery query] negated => do
    let subject ← subject.render d nested
    let rows ← nested query
    return Token.parens (subject ++ [.text (" " ++ negation negated ++ "IN ")] ++
      Token.parens rows)
  | .inList subject values negated => do
    let subject ← subject.render d nested
    let values ← Expr.renderAll d nested values
    return Token.parens (subject ++ [.text (" " ++ negation negated ++ "IN ")] ++
      Token.parens (Token.commas values))
  | .cast operand type =>
    match d.typeName? type with
    | none => .error (.unrepresentable d.name (.cast type))
    | some name => do
      let operand ← operand.render d nested
      return .text "CAST" :: Token.parens (operand ++ [.text (" AS " ++ name)])
  | .subquery query => do return Token.parens (← nested query)
  | .existence query negated => do
    return .text (negation negated ++ "EXISTS ") :: Token.parens (← nested query)
  | .choice [] _ => .error (.structural .choiceWithoutBranch)
  | .choice branches otherwise => do
    let branches ← Branch.renderAll d nested branches
    let otherwise ← Expr.renderElse d nested otherwise
    return Token.parens (.text "CASE" :: branches ++ otherwise ++ [.text " END"])
  | .window name args partition order frame =>
    if d.supports .window then do
      let args ← Expr.renderAll d nested args
      let partition ← Expr.renderAll d nested partition
      let order ← OrderKey.renderAll d nested order
      return .text name :: Token.parens (Token.commas args) ++
        .text " OVER " :: Token.parens (Token.over partition order frame)
    else .error (.capability d.name .window)
  | .wildcard => .ok [.text "*"]
termination_by structural e => e

def Expr.renderAll (d : Dialect) (nested : Query → Rendered) :
    List Expr → Except CompileError (List (List Token))
  | [] => .ok []
  | e :: es => do
    let e ← e.render d nested
    return e :: (← Expr.renderAll d nested es)
termination_by structural es => es

def Expr.renderElse (d : Dialect) (nested : Query → Rendered) : Option Expr → Rendered
  | none => .ok []
  | some e => do return .text " ELSE " :: (← e.render d nested)
termination_by structural e => e

def Branch.renderAll (d : Dialect) (nested : Query → Rendered) : List Branch → Rendered
  | [] => .ok []
  | ⟨condition, result⟩ :: branches => do
    let condition ← condition.render d nested
    let result ← result.render d nested
    let rest ← Branch.renderAll d nested branches
    return .text " WHEN " :: condition ++ .text " THEN " :: result ++ rest
termination_by structural branches => branches

def OrderKey.renderAll (d : Dialect) (nested : Query → Rendered) :
    List OrderKey → Except CompileError (List (List Token))
  | [] => .ok []
  | ⟨e, direction, nulls⟩ :: keys => do
    let body ← e.render d nested
    return d.nulls.renderKey body direction nulls :: (← OrderKey.renderAll d nested keys)
termination_by structural keys => keys

end

end SqlAlgebra
