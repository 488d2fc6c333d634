import SqlAlgebra.Dialect.Profile

/-!
# Dialects

What the compiler asks of a dialect. A profile answers all of it; a minimal dialect answers only
the questions that have no default.
-/

namespace SqlAlgebra

/-- What tells a dialect from others of its name: a number of its own, or the hash of a profile. -/
inductive Fingerprint where
  | given (number : UInt64)
  | ofProfile (p : Profile)
deriving DecidableEq

/-- The fingerprint as a number, by a hash of profiles. -/
def Fingerprint.number (hash : Profile → UInt64) : Fingerprint → UInt64
  | given number => number
  | ofProfile p => hash p

/-- A dialect of SQL. Its name and its fingerprint identify it to a plan cache, so two dialects
that share both should write every statement alike. -/
structure Dialect where
  name : String
  fingerprint : Fingerprint
  quote : String → String
  /-- How the parameter at a position, counted from one, is written. -/
  placeholder : Nat → String
  supports : Capability → Bool
  boolean : Bool → String
  stringLiteral : String → String
  operator? : BinaryOperator → Option OperatorSyntax
  typeName? : SqlType → Option String
  supportsJoin : JoinKind → Bool
  supportsSetAll : SetOperator → Bool
  nulls : NullsOrdering
  offsetWithoutLimit : Option String
  upsert : Option UpsertSyntax
  advisoryLock : Option LockSyntax
  bulkCopy : Option CopySyntax

namespace Profile

/-- The dialect that a profile describes. -/
def dialect (p : Profile) : Dialect where
  name := p.name
  fingerprint := .ofProfile p
  quote := p.quote.quote
  placeholder := p.placeholder.write
  supports := p.capabilities.contains
  boolean := p.booleans.write
  stringLiteral := p.stringLiteral
  operator? := p.operators.spelling?
  typeName? := p.typeName?
  supportsJoin := p.supportsJoin
  supportsSetAll := p.supportsSetAll
  nulls := p.nulls
  offsetWithoutLimit := p.offsetWithoutLimit
  upsert := p.upsert
  advisoryLock := p.advisoryLock
  bulkCopy := p.bulkCopy

/-- The dialect that takes from a profile only what has no default: strings escape nothing but
apostrophes, every join and set operation is there, nulls are ordered natively, and there is no
spelling for upserts, locks and bulk loads. -/
def minimalDialect (p : Profile) : Dialect where
  name := p.name
  fingerprint := .ofProfile p
  quote := p.quote.quote
  placeholder := p.placeholder.write
  supports := p.capabilities.contains
  boolean := p.booleans.write
  stringLiteral s := String.ofList (Text.quoted '\x27' '\x27' s.toList)
  operator? := p.operators.spelling?
  typeName? := p.typeName?
  supportsJoin _ := true
  supportsSetAll _ := true
  nulls := .native
  offsetWithoutLimit := none
  upsert := none
  advisoryLock := none
  bulkCopy := none

end Profile

end SqlAlgebra
