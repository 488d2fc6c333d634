import SqlAlgebra.Toml.Section

/-!
# Writing a document

Every entry has a line of its own, and sections are separated by empty lines. A list of two or
more is written with an item on each line.
-/

namespace SqlAlgebra.Toml

/-- A character of a string between double quotes. Control characters are escaped. -/
def escapeChar (c : Char) : List Char :=
  match c with
  | '\x08' => ['\x5c', 'b']
  | '\t' => ['\x5c', 't']
  | '\n' => ['\x5c', 'n']
  | '\x0c' => ['\x5c', 'f']
  | '\r' => ['\x5c', 'r']
  | '\x22' => ['\x5c', '\x22']
  | '\x5c' => ['\x5c', '\x5c']
  | c =>
    if c.toNat < 0x20 || c.toNat == 0x7f then
      '\x5c' :: 'u' :: '0' :: '0' ::
        [Nat.digitChar (c.toNat / 16), (Nat.digitChar (c.toNat % 16)).toUpper]
    else [c]

/-- A string between double quotes. -/
def quotedWord (s : String) : String :=
  String.ofList ('\x22' :: (s.toList.flatMap escapeChar ++ ['\x22']))

def Entry.text : Entry → String
  | flag b => if b then "true" else "false"
  | count n => toString n
  | word s => quotedWord s
  | words [] => "[]"
  | words [s] => "[" ++ quotedWord s ++ "]"
  | words ss => "[\n" ++ String.join (ss.map fun s => "    " ++ quotedWord s ++ ",\n") ++ "]"

/-- Keys with dots between them. -/
def dottedKey (path : List String) : String := String.intercalate "." path

/-- The line of a heading, if it has one. -/
def Heading.text : Heading → String
  | top => ""
  | table path => "[" ++ dottedKey path ++ "]\n"
  | element path => "[[" ++ dottedKey path ++ "]]\n"

/-- The line of an entry. -/
def entryLine (path : List String) (entry : Entry) : String :=
  dottedKey path ++ " = " ++ entry.text ++ "\n"

/-- The lines of a section. -/
def Section.text (part : Section Entry) : String :=
  part.heading.text ++ String.join (part.entries.map fun (path, entry) => entryLine path entry)

/-- The text of a document. -/
def write (parts : List (Section Entry)) : String :=
  String.intercalate "\n" (parts.map Section.text)

/-- The text of a tree, if it is that of a document. -/
def writeTree (j : Json) : Option String := (parts? j).map fun parts => write (layout parts)

end SqlAlgebra.Toml
