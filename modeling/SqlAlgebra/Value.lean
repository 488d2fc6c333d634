import SqlAlgebra.Binary64.Text

/-!
# Scalar values

The constants that a literal expression carries. Floating-point constants are compared by their
bits, so a NaN equals itself and `0.0` differs from `-0.0`.
-/

namespace SqlAlgebra

/-- A constant of a query. Integers have 64 bits. -/
inductive Value where
  | null
  | bool (b : Bool)
  | int (n : Int64)
  | float (x : Binary64)
  | text (s : String)
deriving DecidableEq

namespace Value

/-- No part of the constant is an infinity or a NaN. -/
def isFinite : Value → Bool
  | float x => x.isFinite
  | _ => true

end Value

end SqlAlgebra
