import SqlAlgebra.Binary64.Rounding

/-!
# Products and quotients

Products and quotients of finite numbers, rounded once.
-/

namespace SqlAlgebra.Binary64

/-- A number times a power of two, as a fraction. -/
def scaledRatio (negative : Bool) (num den : Nat) (exponent : Int) : Binary64 :=
  ofRatio negative (num <<< exponent.toNat) (den <<< (-exponent).toNat)

/-- The number nearest to the product of two finite numbers. -/
def mul (x y : Binary64) : Binary64 :=
  scaledRatio (x.isNegative != y.isNegative) (x.significand * y.significand) 1
    (x.exponent + y.exponent)

/-- The number nearest to the quotient of two finite numbers, of which the second is not zero. -/
def div (x y : Binary64) : Binary64 :=
  scaledRatio (x.isNegative != y.isNegative) x.significand y.significand
    (x.exponent - y.exponent)

/-- The number nearest to a power of ten. -/
def powerOfTen (n : Nat) : Binary64 := ofDecimal false 1 n

/-- A finite number is zero, of either sign. -/
def isZero (x : Binary64) : Bool := x.significand == 0

/-- The opposite number. -/
def negate (x : Binary64) : Binary64 := ⟨x.bits ^^^ 0x8000000000000000⟩

end SqlAlgebra.Binary64
