import SqlAlgebra.Binary64.Shortest

/-!
# The text of a number

Numbers are written with the fewest digits that read back. From `0.0001` on and below `10 ^ 16`
they are written positionally with at least one digit behind the point; all others have one digit
before the point and an exponent.
-/

namespace SqlAlgebra.Binary64

/-- The digits without the zeros at their end; all zeros leave one digit. -/
def trimZeros (digits : List Char) : List Char :=
  match (digits.reverse.dropWhile (· == '0')).reverse with
  | [] => ['0']
  | trimmed => trimmed

/-- Positional notation of digits whose first has the place value `10 ^ leading`. -/
def positional (digits : List Char) (leading : Int) : List Char :=
  if leading < 0 then
    '0' :: '.' :: (List.replicate (-leading - 1).toNat '0' ++ digits)
  else
    let whole := leading.toNat + 1
    let before := digits.take whole ++ List.replicate (whole - digits.length) '0'
    match digits.drop whole with
    | [] => before ++ ['.', '0']
    | after => before ++ '.' :: after

/-- One digit, the others behind a point, and the exponent. -/
def scientific (digits : List Char) (leading : Int) : List Char :=
  let mantissa := match digits with
    | [] => []
    | [d] => [d]
    | d :: rest => d :: '.' :: rest
  mantissa ++ 'e' :: (toString leading).toList

/-- The text of a magnitude other than zero. -/
def magnitudeText (x : Binary64) : List Char :=
  let decimal := x.shortest
  let all := Nat.toDigits 10 decimal.digits
  let leading := decimal.exponent + all.length - 1
  let digits := trimZeros all
  if -4 ≤ leading ∧ leading < 16 then positional digits leading else scientific digits leading

/-- The text of a number. -/
def text (x : Binary64) : String :=
  if x.isNaN then "NaN"
  else
    let unsigned :=
      if ¬ x.isFinite then "inf".toList
      else if x.significand = 0 then "0.0".toList
      else x.magnitudeText
    String.ofList (if x.isNegative then '-' :: unsigned else unsigned)

end SqlAlgebra.Binary64
