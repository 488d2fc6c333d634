import SqlAlgebra.Json.Basic
import SqlAlgebra.Toml.Strings

/-!
# Numbers

Digits may be grouped by single underscores. Integers have 64 bits and a sign, and the largest
floating-point numbers are finite.
-/

namespace SqlAlgebra.Toml

/-- The digits that go on a number, without the underscores between them. -/
def moreDigits (isDigit : Char → Bool) : List Char → List Char × List Char
  | [] => ([], [])
  | '_' :: c :: cs =>
    if isDigit c then
      let (digits, rest) := moreDigits isDigit cs
      (c :: digits, rest)
    else ([], '_' :: c :: cs)
  | c :: cs =>
    if isDigit c then
      let (digits, rest) := moreDigits isDigit cs
      (c :: digits, rest)
    else ([], c :: cs)

/-- One digit or more. -/
def digits (isDigit : Char → Bool) : Reader (List Char)
  | [] => none
  | c :: cs =>
    if isDigit c then
      let (more, rest) := moreDigits isDigit cs
      some (c :: more, rest)
    else none

/-- The number that digits stand for. -/
def ofDigits (base : Nat) (ds : List Char) : Nat :=
  ds.foldl (fun acc d => base * acc + (Text.hexDigit? d).getD 0) 0

/-- A sign, if there is one, and whether it is a minus. -/
def sign : List Char → Bool × List Char
  | '-' :: cs => (true, cs)
  | '+' :: cs => (false, cs)
  | cs => (false, cs)

/-- Decimal digits, of which only the number zero starts with a zero. -/
def whole : Reader (List Char)
  | '0' :: cs => some (['0'], cs)
  | cs => digits Char.isDigit cs

/-- An integer that fits into 64 bits. -/
def integerOf (n : Int) : Option Json :=
  if Int64.minValue.toInt ≤ n ∧ n ≤ Int64.maxValue.toInt then some (.int n) else none

/-- The digits after a point, if there is one. -/
def fractionPart : Reader (List Char)
  | '.' :: cs => digits Char.isDigit cs
  | cs => some ([], cs)

/-- The exponent after its letter. -/
def exponent (cs : List Char) : Option (Int × List Char) := do
  let (negative, cs) := sign cs
  let (ds, cs) ← digits Char.isDigit cs
  let n : Int := ofDigits 10 ds
  return (if negative then -n else n, cs)

/-- The exponent, if there is one. -/
def exponentPart : Reader Int
  | 'e' :: cs => exponent cs
  | 'E' :: cs => exponent cs
  | cs => some (0, cs)

/-- What follows the whole part of a number says that it is not an integer. -/
def goesOn : List Char → Bool
  | '.' :: _ => true
  | 'e' :: _ => true
  | 'E' :: _ => true
  | _ => false

/-- A floating-point number, which may be too small or too far below zero, but not too large. -/
def floatOf (negative : Bool) (ds : List Char) (exponent : Int) : Option Json :=
  let x := Binary64.ofDecimal negative (ofDigits 10 ds) exponent
  if x.isFinite || negative then some (.float x) else none

/-- A decimal number, or one of the words for what is not finite. -/
def decimal (cs : List Char) : Option (Json × List Char) :=
  let (negative, cs) := sign cs
  match cs with
  | 'i' :: 'n' :: 'f' :: cs => some (.float (.ofMagnitude negative (2047 <<< 52)), cs)
  | 'n' :: 'a' :: 'n' :: cs => some (.float (.ofMagnitude negative (4095 <<< 51)), cs)
  | _ => do
    let (ds, rest) ← whole cs
    if goesOn rest then
      let (fraction, rest) ← fractionPart rest
      let (exponent, rest) ← exponentPart rest
      return (← floatOf negative (ds ++ fraction) (exponent - fraction.length), rest)
    else
      let n : Int := ofDigits 10 ds
      return (← integerOf (if negative then -n else n), rest)

/-- A number. Other bases than ten have no sign. -/
def number : Reader Json
  | '0' :: 'x' :: cs => do
    let (ds, rest) ← digits (fun c => (Text.hexDigit? c).isSome) cs
    return (← integerOf (ofDigits 16 ds), rest)
  | '0' :: 'o' :: cs => do
    let (ds, rest) ← digits (fun c => '0' ≤ c && c ≤ '7') cs
    return (← integerOf (ofDigits 8 ds), rest)
  | '0' :: 'b' :: cs => do
    let (ds, rest) ← digits (fun c => c == '0' || c == '1') cs
    return (← integerOf (ofDigits 2 ds), rest)
  | cs => decimal cs

end SqlAlgebra.Toml
