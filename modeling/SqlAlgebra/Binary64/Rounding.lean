import SqlAlgebra.Binary64.Basic

/-!
# Rounding to binary

The number nearest to a fraction of naturals or to a decimal, a tie going to the even neighbour.
-/

namespace SqlAlgebra.Binary64

/-- The natural nearest to `num / den`; a tie goes to the even neighbour. -/
def roundDiv (num den : Nat) : Nat :=
  let quotient := num / den
  let twice := 2 * (num % den)
  if den < twice ∨ (twice = den ∧ quotient % 2 = 1) then quotient + 1 else quotient

/-- The binary exponent of the last place kept when `num / den` is rounded: 52 places below the
leading bit, and never below the last place of the subnormal numbers. -/
def lastPlace (num den : Nat) : Int :=
  let estimate : Int := (num.log2 : Int) - den.log2
  let leading := if den <<< estimate.toNat ≤ num <<< (-estimate).toNat then estimate
    else estimate - 1
  max (leading - 52) (-1074)

/-- The bits, sign apart, of the number nearest to `num / den`. A carry out of the significand
moves on to the exponent, and what is too large becomes the infinity. -/
def magnitude (num den : Nat) : Nat :=
  if num = 0 ∨ den = 0 then 0
  else
    let place := lastPlace num den
    let rounded := roundDiv (num <<< (-place).toNat) (den <<< place.toNat)
    let bits := ((place + 1074).toNat <<< 52) + rounded
    min bits (2047 <<< 52)

/-- The number nearest to a fraction. -/
def ofRatio (negative : Bool) (num den : Nat) : Binary64 := ofMagnitude negative (magnitude num den)

/-- The number nearest to an integer. -/
def ofInt (n : Int) : Binary64 := ofRatio (n < 0) n.natAbs 1

/-- The number nearest to `digits * 10 ^ exponent`. Exponents so far out that the result is an
infinity or a zero are cut off before any power is taken. -/
def ofDecimal (negative : Bool) (digits : Nat) (exponent : Int) : Binary64 :=
  if 0 ≤ exponent then
    ofRatio negative (digits * Nat.pow 10 (min exponent.toNat 400)) 1
  else
    ofRatio negative digits (Nat.pow 10 (min (-exponent).toNat (400 + digits.log2)))

end SqlAlgebra.Binary64
