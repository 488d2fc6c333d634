import SqlAlgebra.Text.Hex
import SqlAlgebra.Toml.Layout

/-!
# Strings

Strings between double quotes have escapes, strings between apostrophes have none. Both kinds
can go over several lines, between three quotes each. Up to two quotes may then stand at the
end of the text itself.
-/

namespace SqlAlgebra.Toml

/-- Put a character in front of the text that was read. -/
def onto (c : Char) : Option (List Char × List Char) → Option (List Char × List Char)
  | some (text, rest) => some (c :: text, rest)
  | none => none

/-- The character whose code point is given by hexadecimal digits. Surrogates are no characters. -/
def codePoint? (digits : List Char) : Option Char := do
  let n ← Text.ofHex? digits
  if n.isValidChar then some (.ofNat n) else none

/-- The character meant by one letter after a backslash. -/
def escape? : Char → Option Char
  | 'b' => some '\x08'
  | 't' => some '\t'
  | 'n' => some '\n'
  | 'f' => some '\x0c'
  | 'r' => some '\r'
  | '\x22' => some '\x22'
  | '\x5c' => some '\x5c'
  | _ => none

/-- What the characters after a backslash mean. -/
def escaped : Reader Char
  | 'u' :: a :: b :: c :: d :: cs => (codePoint? [a, b, c, d]).map (·, cs)
  | 'U' :: a :: b :: c :: d :: e :: f :: g :: h :: cs =>
    (codePoint? [a, b, c, d, e, f, g, h]).map (·, cs)
  | c :: cs => (escape? c).map (·, cs)
  | [] => none

/-- The text up to a double quote on the same line. -/
def basicText : Nat → Reader (List Char)
  | 0, _ => none
  | _ + 1, [] => none
  | _ + 1, '\x22' :: cs => some ([], cs)
  | fuel + 1, '\x5c' :: cs => do
    let (c, rest) ← escaped cs
    onto c (basicText fuel rest)
  | fuel + 1, c :: cs => if isPlain c then onto c (basicText fuel cs) else none

/-- The text up to an apostrophe on the same line. -/
def literalText (cs : List Char) : Option (List Char × List Char) :=
  let inside (c : Char) : Bool := isPlain c && c != '\x27'
  match cs.dropWhile inside with
  | '\x27' :: rest => some (cs.takeWhile inside, rest)
  | _ => none

/-- The text up to three quotes, which themselves may be preceded by two at most. -/
def closing (quote : Char) (cs : List Char) : Option (List Char × List Char) :=
  match (cs.takeWhile (· == quote)).length with
  | 0 | 1 | 2 => none
  | 3 => some ([], cs.drop 3)
  | 4 => some ([quote], cs.drop 4)
  | _ => some ([quote, quote], cs.drop 5)

/-- The text up to three double quotes. A backslash at the end of a line takes away the line end
and all blanks and line ends after it. -/
def basicLines : Nat → Reader (List Char)
  | 0, _ => none
  | _ + 1, [] => none
  | fuel + 1, c :: cs =>
    if c = '\x22' then
      match closing '\x22' (c :: cs) with
      | some result => some result
      | none => onto c (basicLines fuel cs)
    else if c = '\x5c' then
      match newline? (skipBlanks cs) with
      | some rest => basicLines fuel (skipLines rest)
      | none => do
        let (c, rest) ← escaped cs
        onto c (basicLines fuel rest)
    else
      match newline? (c :: cs) with
      | some rest => onto '\n' (basicLines fuel rest)
      | none => if isPlain c then onto c (basicLines fuel cs) else none

/-- The text up to three apostrophes. -/
def literalLines : Nat → Reader (List Char)
  | 0, _ => none
  | _ + 1, [] => none
  | fuel + 1, c :: cs =>
    if c = '\x27' then
      match closing '\x27' (c :: cs) with
      | some result => some result
      | none => onto c (literalLines fuel cs)
    else
      match newline? (c :: cs) with
      | some rest => onto '\n' (literalLines fuel rest)
      | none => if isPlain c then onto c (literalLines fuel cs) else none

/-- Skip the line end right after the opening quotes, which is not part of the text. -/
def skipNewline (cs : List Char) : List Char := (newline? cs).getD cs

/-- A string that stays on its line. -/
def lineString : Reader (List Char)
  | '\x22' :: cs => basicText (cs.length + 1) cs
  | '\x27' :: cs => literalText cs
  | _ => none

/-- A string of any kind. -/
def string : Reader (List Char)
  | '\x22' :: '\x22' :: '\x22' :: cs => basicLines (cs.length + 1) (skipNewline cs)
  | '\x27' :: '\x27' :: '\x27' :: cs => literalLines (cs.length + 1) (skipNewline cs)
  | cs => lineString cs

end SqlAlgebra.Toml
