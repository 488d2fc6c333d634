import SqlAlgebra.Json.Basic

/-!
# Reading data trees

The shapes from which stored values are read. Unknown members of an object are ignored. A value of
one of several kinds is the name of the kind alone, or an object whose only member has that name.
-/

namespace SqlAlgebra.Json

def bool? : Json → Option Bool
  | bool b => some b
  | _ => none

def text? : Json → Option String
  | text s => some s
  | _ => none

/-- A signed integer of 64 bits. -/
def int64? : Json → Option Int64
  | int n => if Int64.minValue.toInt ≤ n ∧ n ≤ Int64.maxValue.toInt then some (.ofInt n) else none
  | _ => none

/-- An unsigned integer of 64 bits. -/
def uint64? : Json → Option UInt64
  | int n => if 0 ≤ n ∧ n < UInt64.size then some (.ofNat n.toNat) else none
  | _ => none

/-- A floating-point number, or an integer rounded to one. -/
def binary64? : Json → Option Binary64
  | float x => some x
  | int n => some (.ofInt n)
  | _ => none

def list? {α : Type} (read : Json → Option α) : Json → Option (List α)
  | array items => items.mapM read
  | _ => none

/-- A value or null. -/
def option? {α : Type} (read : Json → Option α) : Json → Option (Option α)
  | null => some none
  | j => (read j).map some

/-- The members of an object under given names, as far as they are there. -/
def members? (names : List String) : Json → Option (List (Option Json))
  | object members => some (names.map fun name => List.lookup name members)
  | _ => none

/-- A field that must be there. -/
def required {α : Type} (read : Json → Option α) (field : Option Json) : Option α :=
  field.bind read

/-- A field for which nothing and null both mean that there is no value. -/
def optional {α : Type} (read : Json → Option α) : Option Json → Option (Option α)
  | none => some none
  | some j => j.option? read

/-- The name of a kind, and what belongs to it. -/
def variant? : Json → Option (String × Option Json)
  | text tag => some (tag, none)
  | object [(tag, payload)] => some (tag, some payload)
  | _ => none

end SqlAlgebra.Json
