import SqlAlgebra.Binary64.Basic

/-!
# Shortest decimals

The decimal with the fewest digits that reads back as a given number. The reals that read back as
a finite number form an interval around it, closed when its significand is even. For one, two, and
so on up to seventeen digits, the two neighbours of the number on that decimal grid are tested in
exact arithmetic, and the first grid with a neighbour in the interval gives the answer.
-/

namespace SqlAlgebra.Binary64

/-- A positive decimal, `digits * 10 ^ exponent`. -/
structure Decimal where
  digits : Nat
  exponent : Int
deriving DecidableEq

/-- The number of decimal digits, none for zero. -/
def decimalLength (n : Nat) : Nat := if n = 0 then 0 else (Nat.toDigits 10 n).length

/-- The decimal exponent of the leading digit of `num / den`, for positive `num` and `den`. -/
def leadingExponent (num den : Nat) : Int :=
  if den ≤ num then (decimalLength (num / den) : Int) - 1
  else -(decimalLength ((den - 1) / num) : Int)

/-- The part of the interval below the number, in quarters of the last place: half a place, or a
quarter where the numbers below lie twice as dense. -/
def lowerGap (x : Binary64) : Nat := if x.fraction = 0 ∧ 1 < x.biased then 1 else 2

/-- The neighbour of the number on the grid of `exponent` that reads back as it: the nearer one if
both do, the upper one on a tie. -/
def neighbour? (x : Binary64) (exponent : Int) : Option Decimal :=
  let quarter := x.exponent - 2
  let scale := Nat.pow 10 (-exponent).toNat <<< quarter.toNat
  let unit := Nat.pow 10 exponent.toNat <<< (-quarter).toNat
  let value := 4 * x.significand * scale
  let low := (4 * x.significand - x.lowerGap) * scale
  let high := (4 * x.significand + 2) * scale
  let below := value / unit
  let rest := value % unit
  let closed := x.significand % 2 = 0
  let lowerFits := low < below * unit ∨ (closed ∧ low = below * unit)
  let upperFits := (below + 1) * unit < high ∨ (closed ∧ (below + 1) * unit = high)
  if upperFits ∧ (¬ lowerFits ∨ unit ≤ 2 * rest) then some ⟨below + 1, exponent⟩
  else if lowerFits then some ⟨below, exponent⟩
  else none

/-- The exponent of the leading digit of a positive finite number. -/
def decimalExponent (x : Binary64) : Int :=
  leadingExponent (x.significand <<< x.exponent.toNat) (1 <<< (-x.exponent).toNat)

/-- The shortest decimal that reads back as the magnitude of a finite number other than zero. -/
def shortest (x : Binary64) : Decimal :=
  let leading := x.decimalExponent
  let found := (List.range 17).findSome? fun (n : Nat) => x.neighbour? (leading - n)
  found.getD ⟨x.significand, x.exponent⟩

end SqlAlgebra.Binary64
