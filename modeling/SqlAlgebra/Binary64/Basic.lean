/-!
# Binary floating-point numbers

Double-precision numbers as the 64 bits of their interchange format. Two numbers are equal when
their bits are, and every question about them is answered in exact integer arithmetic.
-/

namespace SqlAlgebra

/-- A double-precision number, given by its bits: sign, eleven bits of exponent, 52 of fraction. -/
structure Binary64 where
  bits : UInt64
deriving DecidableEq

namespace Binary64

/-- The sign bit is set. -/
def isNegative (x : Binary64) : Bool := 1 <<< 63 ≤ x.bits.toNat

/-- The exponent field. -/
def biased (x : Binary64) : Nat := (x.bits.toNat >>> 52) % (1 <<< 11)

/-- The fraction field. -/
def fraction (x : Binary64) : Nat := x.bits.toNat % (1 <<< 52)

/-- The number is neither an infinity nor a NaN. -/
def isFinite (x : Binary64) : Bool := x.biased != 2047

/-- The number is a NaN. -/
def isNaN (x : Binary64) : Bool := x.biased == 2047 && x.fraction != 0

/-- A finite number has the magnitude `significand * 2 ^ exponent`. -/
def significand (x : Binary64) : Nat :=
  if x.biased = 0 then x.fraction else (1 <<< 52) + x.fraction

/-- The exponent that goes with `significand`. -/
def exponent (x : Binary64) : Int := (max x.biased 1 : Nat) - 1075

/-- The number with the given sign whose other bits are `magnitude`. -/
def ofMagnitude (negative : Bool) (magnitude : Nat) : Binary64 :=
  ⟨.ofNat (magnitude + if negative then 1 <<< 63 else 0)⟩

end Binary64

end SqlAlgebra
