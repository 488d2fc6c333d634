import SqlAlgebra.Binary64.Arithmetic
import SqlAlgebra.Json.Basic
import SqlAlgebra.Text.Hex

/-!
# Trees from text

The text form of trees. A number is an integer if it is written as one and fits into 64 bits, with
or without a sign. Any other number is a floating-point one: as many of its digits as fit into 64
bits are taken for an integer, this is rounded, and the result is scaled by a rounded power of ten.
Numbers with few digits and small exponents are read exactly in this way, and others nearly so.
-/

namespace SqlAlgebra.Json

def isSpace (c : Char) : Bool := c == ' ' || c == '\t' || c == '\n' || c == '\r'

def skipSpace (cs : List Char) : List Char := cs.dropWhile isSpace

/-- The character of a code point that two surrogates make. -/
def surrogates? (high low : Nat) : Option Char :=
  if 0xD800 ≤ high ∧ high < 0xDC00 ∧ 0xDC00 ≤ low ∧ low < 0xE000 then
    some (.ofNat (0x10000 + (high - 0xD800) * 0x400 + (low - 0xDC00)))
  else none

/-- The character after a backslash and the letter `u`. -/
def unicode : List Char → Option (Char × List Char)
  | a :: b :: c :: d :: cs => do
    let n ← Text.ofHex? [a, b, c, d]
    if n.isValidChar then return (.ofNat n, cs)
    else
      match cs with
      | '\x5c' :: 'u' :: e :: f :: g :: h :: cs => do
        let c ← surrogates? n (← Text.ofHex? [e, f, g, h])
        return (c, cs)
      | _ => none
  | _ => none

/-- The character after a backslash. -/
def escape : List Char → Option (Char × List Char)
  | '\x22' :: cs => some ('\x22', cs)
  | '\x5c' :: cs => some ('\x5c', cs)
  | '/' :: cs => some ('/', cs)
  | 'b' :: cs => some ('\x08', cs)
  | 'f' :: cs => some ('\x0c', cs)
  | 'n' :: cs => some ('\n', cs)
  | 'r' :: cs => some ('\r', cs)
  | 't' :: cs => some ('\t', cs)
  | 'u' :: cs => unicode cs
  | _ => none

/-- The characters up to the closing quote. -/
def characters : Nat → List Char → Option (List Char × List Char)
  | 0, _ => none
  | _ + 1, [] => none
  | _ + 1, '\x22' :: cs => some ([], cs)
  | fuel + 1, '\x5c' :: cs => do
    let (c, rest) ← escape cs
    let (more, rest) ← characters fuel rest
    return (c :: more, rest)
  | fuel + 1, c :: cs =>
    if c.toNat < 0x20 then none
    else do
      let (more, rest) ← characters fuel cs
      return (c :: more, rest)

/-- Decimal digits and what follows them. -/
def digits (cs : List Char) : List Char × List Char :=
  (cs.takeWhile Char.isDigit, cs.dropWhile Char.isDigit)

/-- Append digits to a number as long as it fits into 64 bits, and count those that are left. -/
def appendDigits (n : Nat) : List Char → Nat × Nat
  | [] => (n, 0)
  | d :: ds =>
    let next := 10 * n + (d.toNat - '0'.toNat)
    if next < UInt64.size then appendDigits next ds else (n, ds.length + 1)

/-- The digits after a point. -/
def fraction : List Char → Option (Option (List Char) × List Char)
  | '.' :: cs =>
    match digits cs with
    | ([], _) => none
    | (ds, rest) => some (some ds, rest)
  | cs => some (none, cs)

/-- A sign and digits. -/
def signedDigits (cs : List Char) : Option (Option Int × List Char) :=
  let (negative, cs) : Bool × List Char :=
    match cs with
    | '-' :: cs => (true, cs)
    | '+' :: cs => (false, cs)
    | cs => (false, cs)
  match digits cs with
  | ([], _) => none
  | (ds, rest) =>
    let n : Int := ds.foldl (fun acc d => 10 * acc + (d.toNat - '0'.toNat)) (0 : Nat)
    some (some (if negative then -n else n), rest)

/-- The exponent after its letter. -/
def exponent : List Char → Option (Option Int × List Char)
  | 'e' :: cs => signedDigits cs
  | 'E' :: cs => signedDigits cs
  | cs => some (none, cs)

/-- A number scaled by a power of ten, unless it becomes too large. Powers below the smallest one
that has an inverse are taken in steps, of which a few leave nothing. -/
def scale : Nat → Binary64 → Int → Option Binary64
  | 0, x, _ => some x
  | steps + 1, x, exponent =>
    if x.isZero then some x
    else if exponent < -308 then scale steps (x.div (.powerOfTen 308)) (exponent + 308)
    else if exponent < 0 then some (x.div (.powerOfTen exponent.natAbs))
    else if exponent ≤ 308 then
      let scaled := x.mul (.powerOfTen exponent.natAbs)
      if scaled.isFinite then some scaled else none
    else none

/-- The floating-point number with the given digits before and after the point. -/
def floatOf (negative : Bool) (whole places : List Char) (power : Int) : Option Json := do
  let (n, dropped) := appendDigits 0 whole
  let (n, unread) := appendDigits n places
  let x ← scale 4 (.ofRatio false n 1) (power + dropped - (places.length - unread : Nat))
  return float (if negative then x.negate else x)

/-- An integer as written. What does not fit, and zero with a sign, is a floating-point number. -/
def integerOf (negative : Bool) (whole : List Char) : Option Json :=
  match appendDigits 0 whole with
  | (n, 0) =>
    if negative then
      if 0 < n ∧ Int64.minValue.toInt ≤ -n then some (int (-n))
      else some (float (.ofRatio true n 1))
    else some (int n)
  | _ => floatOf negative whole [] 0

/-- A number without its sign. It must not be too large. -/
def unsigned (negative : Bool) (cs : List Char) : Option (Json × List Char) := do
  let (whole, rest) ←
    match digits cs with
    | ([], _) => none
    | ('0' :: _ :: _, _) => none
    | found => some found
  let (places, rest) ← fraction rest
  let (power, rest) ← exponent rest
  let tree ←
    match places, power with
    | none, none => integerOf negative whole
    | _, _ => floatOf negative whole (places.getD []) (power.getD 0)
  return (tree, rest)

/-- Skip a character that must come next. -/
def expect (c : Char) : List Char → Option (List Char)
  | x :: cs => if x = c then some cs else none
  | [] => none

mutual

/-- A tree at the front of a text. -/
def value : Nat → List Char → Option (Json × List Char)
  | 0, _ => none
  | fuel + 1, cs =>
    match skipSpace cs with
    | 'n' :: 'u' :: 'l' :: 'l' :: cs => some (null, cs)
    | 't' :: 'r' :: 'u' :: 'e' :: cs => some (bool true, cs)
    | 'f' :: 'a' :: 'l' :: 's' :: 'e' :: cs => some (bool false, cs)
    | '\x22' :: cs => do
      let (s, rest) ← characters (cs.length + 1) cs
      return (text (.ofList s), rest)
    | '[' :: cs => do
      let (items, rest) ←
        match skipSpace cs with
        | ']' :: rest => some ([], rest)
        | cs => items fuel cs
      return (array items, rest)
    | '{' :: cs => do
      let (members, rest) ←
        match skipSpace cs with
        | '}' :: rest => some ([], rest)
        | cs => members fuel cs
      return (object members, rest)
    | '-' :: cs => unsigned true cs
    | cs => unsigned false cs

/-- The items of an array, of which there is at least one. -/
def items : Nat → List Char → Option (List Json × List Char)
  | 0, _ => none
  | fuel + 1, cs => do
    let (item, rest) ← value fuel cs
    match skipSpace rest with
    | ',' :: rest => do
      let (more, rest) ← items fuel rest
      return (item :: more, rest)
    | ']' :: rest => return ([item], rest)
    | _ => none

/-- The members of an object, of which there is at least one. -/
def members : Nat → List Char → Option (List (String × Json) × List Char)
  | 0, _ => none
  | fuel + 1, cs => do
    let cs ← expect '\x22' (skipSpace cs)
    let (name, rest) ← characters (cs.length + 1) cs
    let (item, rest) ← value fuel (← expect ':' (skipSpace rest))
    match skipSpace rest with
    | ',' :: rest => do
      let (more, rest) ← members fuel rest
      return ((.ofList name, item) :: more, rest)
    | '}' :: rest => return ([(.ofList name, item)], rest)
    | _ => none

end

/-- The tree that a text stands for. -/
def ofText? (s : String) : Option Json := do
  let cs := s.toList
  let (tree, rest) ← value (2 * cs.length + 2) cs
  if (skipSpace rest).isEmpty then some tree else none

end SqlAlgebra.Json
