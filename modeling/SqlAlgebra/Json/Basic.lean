import SqlAlgebra.Binary64.Rounding

/-!
# Data trees

The trees in which queries and settings are stored. They are those of JSON, except that numbers are
either integers or floating-point numbers.
-/

namespace SqlAlgebra

/-- A data tree. The members of an object are in the order in which they are written. -/
inductive Json where
  | null
  | bool (b : Bool)
  | int (n : Int)
  | float (x : Binary64)
  | text (s : String)
  | array (items : List Json)
  | object (members : List (String × Json))

namespace Json

mutual

/-- The largest number of arrays and objects inside one another. -/
def depth : Json → Nat
  | null | bool _ | int _ | float _ | text _ => 0
  | array items => depthItems items + 1
  | object members => depthMembers members + 1
termination_by structural j => j

def depthItems : List Json → Nat
  | [] => 0
  | j :: js => max j.depth (depthItems js)
termination_by structural js => js

def depthMembers : List (String × Json) → Nat
  | [] => 0
  | (_, j) :: members => max j.depth (depthMembers members)
termination_by structural members => members

end

/-- A list of texts. -/
def texts (ss : List String) : Json := array (ss.map text)

end Json

end SqlAlgebra
