import SqlAlgebra.Dialect.Capability
import SqlAlgebra.Dialect.Style
import SqlAlgebra.SqlType

/-!
# Profiles

A profile describes a dialect by data alone. There are four built-in ones, and others are made from
them by changing a setting at a time.
-/

namespace SqlAlgebra

/-- The settings that make up a dialect. -/
structure Profile where
  name : String
  quote : QuoteStyle
  placeholder : PlaceholderStyle
  booleans : BooleanStyle
  /-- A backslash in a string literal is written twice. -/
  backslashEscapes : Bool
  capabilities : CapabilitySet
  operators : OperatorTable
  /-- The names of types in casts. A type without an entry cannot be cast to. -/
  types : List (SqlType × String)
  /-- There is a FULL JOIN. -/
  fullJoin : Bool
  /-- There is INTERSECT ALL and EXCEPT ALL. -/
  setAll : Bool
  nulls : NullsOrdering
  /-- The clause that stands in for a LIMIT when there is only an OFFSET. -/
  offsetWithoutLimit : Option String
  upsert : Option UpsertSyntax
  advisoryLock : Option LockSyntax
  bulkCopy : Option CopySyntax
deriving DecidableEq

namespace Profile

/-- The operators of standard SQL. Matching without regard to case is done in upper case, and
there is no matching of regular expressions. -/
def standardOperators : OperatorTable where
  spelling?
    | .eq => some (.between "=")
    | .notEq => some (.between "<>")
    | .lt => some (.between "<")
    | .ltEq => some (.between "<=")
    | .gt => some (.between ">")
    | .gtEq => some (.between ">=")
    | .and => some (.between "AND")
    | .or => some (.between "OR")
    | .plus => some (.between "+")
    | .minus => some (.between "-")
    | .multiply => some (.between "*")
    | .divide => some (.between "/")
    | .modulo => some (.between "%")
    | .like => some (.between "LIKE")
    | .notLike => some (.between "NOT LIKE")
    | .iLike => some (.upperBetween "LIKE")
    | .notILike => some (.upperBetween "NOT LIKE")
    | .concat => some (.between "||")
    | .regexMatch => none

def postgres : Profile where
  name := "postgres"
  quote := .doubleQuote
  placeholder := .dollar
  booleans := .keyword
  backslashEscapes := false
  capabilities := .ofList Capability.all
  operators := ((standardOperators.insert .iLike (.between "ILIKE")).insert
    .notILike (.between "NOT ILIKE")).insert .regexMatch (.between "~")
  types := [(.boolean, "BOOLEAN"), (.integer, "INTEGER"), (.bigInt, "BIGINT"), (.real, "REAL"),
    (.double, "DOUBLE PRECISION"), (.text, "TEXT"), (.bytes, "BYTEA"), (.date, "DATE"),
    (.timestamp, "TIMESTAMP"), (.uuid, "UUID"), (.json, "JSONB")]
  fullJoin := true
  setAll := true
  nulls := .native
  offsetWithoutLimit := none
  upsert := some .onConflict
  advisoryLock := some .postgres
  bulkCopy := some .copyFromStdin

/-- Here two bars are a logical or, so that texts are joined by a call. -/
def mysql : Profile where
  name := "mysql"
  quote := .backtick
  placeholder := .question
  booleans := .integer
  backslashEscapes := true
  capabilities := .ofList [.cte, .upsert, .window, .lateral, .savepoint, .advisoryLock]
  operators := (standardOperators.insert .concat (.call "CONCAT")).insert
    .regexMatch (.between "REGEXP")
  types := [(.integer, "SIGNED"), (.bigInt, "SIGNED"), (.real, "FLOAT"), (.double, "DOUBLE"),
    (.text, "CHAR"), (.bytes, "BINARY"), (.date, "DATE"), (.timestamp, "DATETIME"),
    (.json, "JSON")]
  fullJoin := false
  setAll := true
  nulls := .emulatedWithIsNull
  offsetWithoutLimit := some "LIMIT 18446744073709551615"
  upsert := some .onDuplicateKey
  advisoryLock := some .mySql
  bulkCopy := none

def sqlite : Profile where
  name := "sqlite"
  quote := .doubleQuote
  placeholder := .question
  booleans := .integer
  backslashEscapes := false
  capabilities := .ofList [.cte, .returning, .upsert, .window, .savepoint]
  operators := standardOperators
  types := [(.boolean, "INTEGER"), (.integer, "INTEGER"), (.bigInt, "INTEGER"), (.real, "REAL"),
    (.double, "REAL"), (.text, "TEXT"), (.bytes, "BLOB"), (.date, "TEXT"), (.timestamp, "TEXT"),
    (.uuid, "TEXT"), (.json, "TEXT")]
  fullJoin := true
  setAll := false
  nulls := .native
  offsetWithoutLimit := some "LIMIT -1"
  upsert := some .onConflict
  advisoryLock := none
  bulkCopy := none

/-- Standard SQL without extensions. -/
def ansi : Profile where
  name := "ansi"
  quote := .doubleQuote
  placeholder := .question
  booleans := .keyword
  backslashEscapes := false
  capabilities := .ofList [.cte, .window, .savepoint]
  operators := standardOperators
  types := [(.boolean, "BOOLEAN"), (.integer, "INTEGER"), (.bigInt, "BIGINT"), (.real, "REAL"),
    (.double, "DOUBLE PRECISION"), (.text, "VARCHAR"), (.bytes, "VARBINARY"), (.date, "DATE"),
    (.timestamp, "TIMESTAMP")]
  fullJoin := true
  setAll := true
  nulls := .native
  offsetWithoutLimit := none
  upsert := none
  advisoryLock := none
  bulkCopy := none

/-- The built-in profile of a name, the case of ASCII letters not counting. -/
def builtin? (name : String) : Option Profile :=
  match String.ofList (name.toList.map Char.toLower) with
  | "postgres" | "postgresql" => some postgres
  | "mysql" | "mariadb" => some mysql
  | "sqlite" => some sqlite
  | "ansi" => some ansi
  | _ => none

/-- The same profile without a capability. -/
def withoutCapability (p : Profile) (c : Capability) : Profile :=
  { p with capabilities := p.capabilities.erase c }

/-- The same profile with one capability more. -/
def withCapability (p : Profile) (c : Capability) : Profile :=
  { p with capabilities := p.capabilities.insert c }

/-- The same profile with exactly the listed capabilities. -/
def withCapabilities (p : Profile) (members : List Capability) : Profile :=
  { p with capabilities := .ofList members }

/-- The same profile with an operator written as given. -/
def withOperator (p : Profile) (op : BinaryOperator) (entry : OperatorSyntax) : Profile :=
  { p with operators := p.operators.insert op entry }

/-- The same profile without an operator. -/
def withoutOperator (p : Profile) (op : BinaryOperator) : Profile :=
  { p with operators := p.operators.erase op }

/-- A string literal. A backslash, where it escapes, is doubled like an apostrophe. -/
def stringLiteral (p : Profile) (s : String) : String :=
  let doubled := Text.double '\x27' s.toList
  let escaped := if p.backslashEscapes then Text.double '\x5c' doubled else doubled
  String.ofList ('\x27' :: (escaped ++ ['\x27']))

/-- The name of a type in a cast. -/
def typeName? (p : Profile) : SqlType → Option String
  | .custom name => some name
  | type => p.types.lookup type

def supportsJoin (p : Profile) (kind : JoinKind) : Bool := kind != .full || p.fullJoin

/-- Whether a set operation can keep duplicates. A union always can. -/
def supportsSetAll (p : Profile) (op : SetOperator) : Bool := op == .union || p.setAll

end Profile

end SqlAlgebra
