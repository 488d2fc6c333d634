import SqlAlgebra.Text.CaseTable

/-!
# Lowercase

The full lowercase mapping of Unicode, without regard to language. Two characters are not mapped
one to one: the dotted capital I becomes two characters, and the capital sigma takes its final form
at the end of a word.
-/

namespace SqlAlgebra.Text

/-- Looking along the characters, the first one that case rules do not look through is cased. -/
def casedNext : List Char → Bool
  | [] => false
  | c :: cs => if inRanges caseIgnorableRanges c then casedNext cs else inRanges casedRanges c

/-- The lowercase form of a character for which the rest of the word does not matter. -/
def lowerChar (c : Char) : Char :=
  if c.toNat < 0x80 then c.toLower
  else match lowercaseRuns.findSome? (·.map? c.toNat) with
    | some code => Char.ofNat code
    | none => c

/-- The lowercase form of a text, of which `before` is the part already passed, last character
first. -/
def lowerFrom (before : List Char) : List Char → List Char
  | [] => []
  | c :: rest =>
    let lower :=
      if c = 'Σ' then if casedNext before && !casedNext rest then ['ς'] else ['σ']
      else if c = 'İ' then ['i', '\u0307']
      else [lowerChar c]
    lower ++ lowerFrom (c :: before) rest

/-- The lowercase form of a text. -/
def lowercase (s : String) : String := String.ofList (lowerFrom [] s.toList)

end SqlAlgebra.Text
