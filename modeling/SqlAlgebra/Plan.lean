import SqlAlgebra.Token

/-!
# Plans

A plan is the text of a statement with the names of its parameters in the order of their places.
Places are numbered in a single pass over the finished statement, from left to right.
-/

namespace SqlAlgebra

/-- A statement ready to run: `params` names the values for its places, in their order. -/
structure Plan where
  sql : String
  params : List String
deriving DecidableEq

/-- A stretch of a statement: fixed text, or the place of a parameter. -/
inductive Segment where
  | text (s : String)
  | slot (name : String)
deriving DecidableEq

namespace Segment

/-- The name of a parameter place. -/
def slotName? : Segment → Option String
  | text _ => none
  | slot name => some name

/-- The texts of segments, their places being numbered from `next` on. -/
def write (placeholder : Nat → String) (next : Nat) : List Segment → List String
  | [] => []
  | text s :: rest => s :: write placeholder next rest
  | slot _ :: rest => placeholder next :: write placeholder (next + 1) rest

end Segment

/-- A piece as the dialect writes it. -/
def Piece.segment (d : Dialect) : Piece → Segment
  | text s => .text s
  | ident name => .text (d.quote name)
  | literal s => .text (d.stringLiteral s)
  | slot name => .slot name
  | leftParen => .text "("
  | rightParen => .text ")"

namespace Plan

/-- The plan for a list of segments. -/
def ofSegments (placeholder : Nat → String) (segments : List Segment) : Plan where
  sql := String.join (Segment.write placeholder 1 segments)
  params := segments.filterMap Segment.slotName?

/-- The plan for a list of tokens. -/
def ofTokens (d : Dialect) (ts : List Token) : Plan :=
  ofSegments d.placeholder ((Token.pieces false ts).map (Piece.segment d))

end Plan

end SqlAlgebra
