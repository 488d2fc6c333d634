import SqlAlgebra.Binary64.Basic
import SqlAlgebra.Text.Hex

/-!
# Bits as text

A floating-point number as the hexadecimal digits of its bits.
-/

namespace SqlAlgebra.Binary64

/-- All sixteen digits, in lower case. -/
def hex (x : Binary64) : String := String.ofList (Text.hex 16 x.bits.toNat)

/-- The number of up to sixteen digits of either case. -/
def ofHex? (s : String) : Option Binary64 :=
  if s.isEmpty then none
  else
    match Text.ofHex? s.toList with
    | some n => if n < UInt64.size then some ⟨.ofNat n⟩ else none
    | none => none

end SqlAlgebra.Binary64
