import SqlAlgebra.Dialect.Basic
import SqlAlgebra.Query.Build

/-!
# Tokens

Rendered statements as lists of pieces, before anything is quoted or numbered. Brackets are pieces
of their own, so that nesting can be read off a list.

A column of the row proposed for insertion has two spellings. Which of them holds is settled by the
switch that comes last before the column, so tokens are pieces, such columns, and switches.
-/

namespace SqlAlgebra

/-- A part of a statement. -/
inductive Piece where
  /-- Words and signs of SQL, written as they are. -/
  | text (s : String)
  /-- An identifier, to be quoted. -/
  | ident (name : String)
  /-- A constant text, to be written as a string literal. -/
  | literal (s : String)
  /-- The place of a parameter. -/
  | slot (name : String)
  | leftParen
  | rightParen
deriving DecidableEq

/-- A part of a statement, or of what decides its spelling. -/
inductive Token where
  | piece (p : Piece)
  /-- A column of the row proposed for insertion. -/
  | proposed (column : String)
  /-- From here on, proposed columns are written as calls of `VALUES`, or no longer so. -/
  | proposedAsValues (on : Bool)
deriving DecidableEq

namespace Token

def text (s : String) : Token := .piece (.text s)

def ident (name : String) : Token := .piece (.ident name)

def literal (s : String) : Token := .piece (.literal s)

def slot (name : String) : Token := .piece (.slot name)

def leftParen : Token := .piece .leftParen

def rightParen : Token := .piece .rightParen

/-- Tokens between brackets. -/
def parens (ts : List Token) : List Token := leftParen :: (ts ++ [rightParen])

/-- Lists of tokens with commas between them. -/
def commas (parts : List (List Token)) : List Token := [text ", "].intercalate parts

/-- Identifiers with commas between them. -/
def idents (names : List String) : List Token := commas (names.map fun name => [ident name])

/-- Identifiers between brackets, or nothing if there are none. -/
def columnList (names : List String) : List Token :=
  if names.isEmpty then [] else text " " :: parens (idents names)

/-- A column of the row proposed for insertion, spelled out. -/
def spellProposed (asValues : Bool) (column : String) : List Piece :=
  if asValues then [.text "VALUES", .leftParen, .ident column, .rightParen]
  else [.ident Expr.proposedTable, .text ".", .ident column]

/-- The pieces of a token list, proposed columns being spelled as the switches before them say. -/
def pieces : Bool → List Token → List Piece
  | _, [] => []
  | asValues, .piece p :: ts => p :: pieces asValues ts
  | asValues, .proposed column :: ts => spellProposed asValues column ++ pieces asValues ts
  | _, .proposedAsValues on :: ts => pieces on ts

end Token

end SqlAlgebra
