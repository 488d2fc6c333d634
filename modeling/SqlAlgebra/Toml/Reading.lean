import SqlAlgebra.Toml.Moments
import SqlAlgebra.Toml.Numbers
import SqlAlgebra.Toml.Tables

/-!
# Reading a document

A document is read line by line into sections, which are then put together.
-/

namespace SqlAlgebra.Toml

def isBareKey (c : Char) : Bool := c.isAlphanum || c == '_' || c == '-'

/-- A key without dots, bare or as a string. -/
def key (cs : List Char) : Option (String × List Char) :=
  match cs.takeWhile isBareKey with
  | [] => (lineString cs).map fun (text, rest) => (.ofList text, rest)
  | text => some (.ofList text, cs.dropWhile isBareKey)

/-- Keys with dots between them, and blanks around them. -/
def dottedKeys : Nat → Reader (List String)
  | 0, _ => none
  | fuel + 1, cs => do
    let (name, rest) ← key (skipBlanks cs)
    match skipBlanks rest with
    | '.' :: rest => do
      let (names, rest) ← dottedKeys fuel rest
      return (name :: names, rest)
    | rest => return ([name], rest)

/-- How many keys may make up a path, and how many arrays and tables may be inside one another. -/
def maxDepth : Nat := 79

/-- A path of keys that is not too long. -/
def keyPath (cs : List Char) : Option (List String × List Char) := do
  let (names, rest) ← dottedKeys (cs.length + 1) cs
  if names.length ≤ maxDepth then some (names, rest) else none

/-- A value on its own: a truth value, a string, a moment or a number. -/
def scalar : Reader Json
  | 't' :: 'r' :: 'u' :: 'e' :: cs => some (.bool true, cs)
  | 'f' :: 'a' :: 'l' :: 's' :: 'e' :: cs => some (.bool false, cs)
  | '\x22' :: cs => (string ('\x22' :: cs)).map fun (text, rest) => (.text (.ofList text), rest)
  | '\x27' :: cs => (string ('\x27' :: cs)).map fun (text, rest) => (.text (.ofList text), rest)
  | cs => moment cs <|> number cs

mutual

/-- A value, in which at most `room` arrays and tables are inside one another. -/
def value : Nat → Nat → Reader Json
  | 0, _, _ => none
  | fuel + 1, room + 1, '[' :: cs => do
    let (items, rest) ← arrayItems fuel room (skipLayout false cs)
    return (.array items, rest)
  | fuel + 1, room + 1, '{' :: cs => do
    let (entries, rest) ←
      match skipBlanks cs with
      | '}' :: rest => some ([], rest)
      | cs => tableEntries fuel room cs
    return (← inlineTable entries, rest)
  | _ + 1, _, cs => scalar cs

/-- The items of an array up to its end. There may be a comma after the last one. -/
def arrayItems : Nat → Nat → Reader (List Json)
  | 0, _, _ => none
  | _ + 1, _, ']' :: cs => some ([], cs)
  | fuel + 1, room, cs => do
    let (item, rest) ← value fuel room cs
    match skipLayout false rest with
    | ',' :: rest => do
      let (items, rest) ← arrayItems fuel room (skipLayout false rest)
      return (item :: items, rest)
    | ']' :: rest => return ([item], rest)
    | _ => none

/-- The entries of a table between braces, of which there is at least one. -/
def tableEntries : Nat → Nat → Reader (List (List String × Json))
  | 0, _, _ => none
  | fuel + 1, room, cs => do
    let (path, rest) ← keyPath cs
    let (item, rest) ← value fuel room (skipBlanks (← expect '=' rest))
    match skipBlanks rest with
    | ',' :: rest => do
      let (entries, rest) ← tableEntries fuel room rest
      return ((path, item) :: entries, rest)
    | '}' :: rest => return ([(path, item)], rest)
    | _ => none

end

/-- What one line says: that a section starts, or what a key stands for. -/
inductive Statement where
  | heading (heading : Heading)
  | entry (path : List String) (value : Json)

/-- The statement at the front of a text. -/
def statement : Reader Statement
  | '[' :: '[' :: cs => do
    let (path, rest) ← keyPath cs
    return (.heading (.element path), ← expect ']' (← expect ']' rest))
  | '[' :: cs => do
    let (path, rest) ← keyPath cs
    return (.heading (.table path), ← expect ']' rest)
  | cs => do
    let (path, rest) ← keyPath cs
    let (item, rest) ← value (2 * cs.length + 2) maxDepth (skipBlanks (← expect '=' rest))
    return (.entry path item, rest)

/-- The statements of a text. -/
def statements : Nat → List Char → Option (List Statement)
  | 0, _ => none
  | fuel + 1, cs =>
    match lineEnd? cs with
    | some [] => some []
    | some rest => statements fuel rest
    | none => do
      let (said, rest) ← statement (skipBlanks cs)
      return said :: (← statements fuel (← lineEnd? rest))

/-- The sections that statements make, the first of them under the given heading. -/
def sections (heading : Heading) : List Statement → List (Section Json)
  | [] => [⟨heading, []⟩]
  | .heading next :: said => ⟨heading, []⟩ :: sections next said
  | .entry path item :: said =>
    match sections heading said with
    | [] => [⟨heading, [(path, item)]⟩]
    | part :: parts => { part with entries := (path, item) :: part.entries } :: parts

/-- Skip the mark that may stand at the start of a text. -/
def skipMark : List Char → List Char
  | '\uFEFF' :: cs => cs
  | cs => cs

/-- The tree of a document. -/
def read (text : String) : Option Json := do
  let cs := skipMark text.toList
  assemble (sections .top (← statements (cs.length + 1) cs))

end SqlAlgebra.Toml
