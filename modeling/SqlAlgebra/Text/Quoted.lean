/-!
# Quoted text

Text between an opening and a closing character, the closing character inside it written twice.
Identifiers and string literals of all dialects are quoted in this way.
-/

namespace SqlAlgebra.Text

/-- Every occurrence of `c` is written twice. -/
def double (c : Char) (s : List Char) : List Char :=
  s.flatMap fun x => if x = c then [c, c] else [x]

/-- The text between `left` and `right`, with the occurrences of `right` in it doubled. -/
def quoted (left right : Char) (s : List Char) : List Char :=
  left :: (double right s ++ [right])

/-- The parts of a text between the separators; a text without a separator is its only part. -/
def split (separator : Char) : List Char → List (List Char)
  | [] => [[]]
  | c :: cs =>
    if c = separator then [] :: split separator cs
    else match split separator cs with
      | [] => [[c]]
      | part :: parts => (c :: part) :: parts

end SqlAlgebra.Text
