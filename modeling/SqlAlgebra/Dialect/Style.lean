import SqlAlgebra.Operator
import SqlAlgebra.Text.Quoted

/-!
# Spellings

The choices that dialects make in spelling identifiers, parameters, truth values, operators and
whole clauses.
-/

namespace SqlAlgebra

/-- How identifiers are quoted. -/
inductive QuoteStyle where
  | doubleQuote | backtick | bracket
deriving DecidableEq

namespace QuoteStyle

def left : QuoteStyle → Char
  | doubleQuote => '\x22'
  | backtick => '\x60'
  | bracket => '['

def right : QuoteStyle → Char
  | doubleQuote => '\x22'
  | backtick => '\x60'
  | bracket => ']'

/-- One part of an identifier, quoted. -/
def quotePart (style : QuoteStyle) (part : List Char) : List Char :=
  Text.quoted style.left style.right part

/-- An identifier, quoted. Dots separate a schema from what it holds, so each part between them is
quoted by itself. -/
def quote (style : QuoteStyle) (name : String) : String :=
  String.ofList <| ['.'].intercalate ((Text.split '.' name.toList).map style.quotePart)

end QuoteStyle

/-- How the parameter at a position, counted from one, is written. -/
inductive PlaceholderStyle where
  | dollar | question | numberedQuestion | colon | atP
deriving DecidableEq

namespace PlaceholderStyle

def write (style : PlaceholderStyle) (ordinal : Nat) : String :=
  match style with
  | dollar => "$" ++ toString ordinal
  | question => "?"
  | numberedQuestion => "?" ++ toString ordinal
  | colon => ":" ++ toString ordinal
  | atP => "@p" ++ toString ordinal

end PlaceholderStyle

/-- How truth values are written. -/
inductive BooleanStyle where
  | keyword | integer
deriving DecidableEq

namespace BooleanStyle

def write : BooleanStyle → Bool → String
  | keyword, true => "TRUE"
  | keyword, false => "FALSE"
  | integer, true => "1"
  | integer, false => "0"

end BooleanStyle

/-- How a binary operator is written: between its operands, as a call, or between its operands
after both are put in upper case. -/
inductive OperatorSyntax where
  | between (symbol : String)
  | call (name : String)
  | upperBetween (symbol : String)
deriving DecidableEq

/-- Which operators are written how. An operator without an entry cannot be written. -/
structure OperatorTable where
  spelling? : BinaryOperator → Option OperatorSyntax

namespace OperatorTable

/-- Tables of operators are equal if they spell every operator alike. -/
@[ext] theorem ext {s t : OperatorTable} (h : ∀ op, s.spelling? op = t.spelling? op) : s = t := by
  cases s
  cases t
  simp only [mk.injEq]
  exact funext h

/-- Tables are equal when they agree on every operator. -/
instance : DecidableEq OperatorTable := fun s t =>
  decidable_of_iff (∀ op ∈ BinaryOperator.all, s.spelling? op = t.spelling? op)
    ⟨fun h => ext fun op => h op op.mem_all, fun h op _ => by rw [h]⟩

def insert (t : OperatorTable) (op : BinaryOperator) (entry : OperatorSyntax) : OperatorTable :=
  ⟨fun x => if x = op then some entry else t.spelling? x⟩

def erase (t : OperatorTable) (op : BinaryOperator) : OperatorTable :=
  ⟨fun x => if x = op then none else t.spelling? x⟩

/-- Inserting an operator changes how this one is spelled and no other. -/
theorem spelling?_insert (t : OperatorTable) (op x : BinaryOperator) (entry : OperatorSyntax) :
    (t.insert op entry).spelling? x = if x = op then some entry else t.spelling? x := rfl

/-- Erasing an operator takes away the spelling of this one and of no other. -/
theorem spelling?_erase (t : OperatorTable) (op x : BinaryOperator) :
    (t.erase op).spelling? x = if x = op then none else t.spelling? x := rfl

end OperatorTable

/-- How an insertion says what to do with conflicting rows. -/
inductive UpsertSyntax where
  | onConflict | onDuplicateKey
deriving DecidableEq

/-- Whether an order key can say where nulls go, or a second key has to do it. -/
inductive NullsOrdering where
  | native | emulatedWithIsNull
deriving DecidableEq

/-- The calls that take and release an advisory lock. -/
inductive LockSyntax where
  | postgres | mySql
deriving DecidableEq

/-- The statement that starts a bulk load. -/
inductive CopySyntax where
  | copyFromStdin
deriving DecidableEq

end SqlAlgebra
