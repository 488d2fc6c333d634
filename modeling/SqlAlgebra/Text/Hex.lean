/-!
# Hexadecimal digits

Numbers from hexadecimal digits of either case, and back to small ones.
-/

namespace SqlAlgebra.Text

/-- The value of a hexadecimal digit. -/
def hexDigit? (c : Char) : Option Nat :=
  if c.isDigit then some (c.toNat - '0'.toNat)
  else if 'a' ≤ c ∧ c ≤ 'f' then some (c.toNat - 'a'.toNat + 10)
  else if 'A' ≤ c ∧ c ≤ 'F' then some (c.toNat - 'A'.toNat + 10)
  else none

/-- The number that hexadecimal digits stand for. -/
def ofHex? (digits : List Char) : Option Nat :=
  (digits.mapM hexDigit?).map fun ns => ns.foldl (fun acc d => 16 * acc + d) 0

/-- The last `width` hexadecimal digits of a number. -/
def hex : Nat → Nat → List Char
  | 0, _ => []
  | width + 1, n => hex width (n / 16) ++ [Nat.digitChar (n % 16)]

end SqlAlgebra.Text
