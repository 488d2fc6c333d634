/-!
# Column types

The types a parameter or a cast can name. They carry no dialect knowledge: a dialect decides how a
type is spelled, or that it cannot be.
-/

namespace SqlAlgebra

/-- A logical column type. A `custom` type is passed to every dialect as it stands. -/
inductive SqlType where
  | boolean | integer | bigInt | real | double | text | bytes | date | timestamp | uuid | json
  | custom (name : String)
deriving DecidableEq

namespace SqlType

/-- The types other than the custom ones, in the order in which they are listed. -/
def standard : List SqlType :=
  [boolean, integer, bigInt, real, double, text, bytes, date, timestamp, uuid, json]

/-- The name of a type in messages. -/
def label : SqlType → String
  | boolean => "BOOLEAN"
  | integer => "INTEGER"
  | bigInt => "BIGINT"
  | real => "REAL"
  | double => "DOUBLE"
  | text => "TEXT"
  | bytes => "BYTES"
  | date => "DATE"
  | timestamp => "TIMESTAMP"
  | uuid => "UUID"
  | json => "JSON"
  | custom name => name

end SqlType

end SqlAlgebra
