import SqlAlgebra.Json.Reading

/-!
# Sections of a document

A document of settings is a list of sections. Each has a heading that says to which table its
entries belong, and the entries of the first one may stand without a heading.
-/

namespace SqlAlgebra.Toml

/-- The table to which entries belong: the outermost one, the one at a path, or a new element of
the list of tables at a path. -/
inductive Heading where
  | top
  | table (path : List String)
  | element (path : List String)
deriving DecidableEq

/-- Entries under a heading. The last part of an entry's path is its key. -/
structure Section (α : Type) where
  heading : Heading
  entries : List (List String × α)

/-- The values that settings are made of. -/
inductive Entry where
  | flag (b : Bool)
  | count (n : Nat)
  | word (s : String)
  | words (ss : List String)
deriving DecidableEq

namespace Entry

def toJson : Entry → Json
  | flag b => .bool b
  | count n => .int n
  | word s => .text s
  | words ss => .texts ss

/-- The entry that a tree makes. An integer in a document has a sign, so that it must fit into 63
bits. -/
def ofJson? : Json → Option Entry
  | .bool b => some (.flag b)
  | .int n => if 0 ≤ n ∧ n ≤ Int64.maxValue.toInt then some (.count n.toNat) else none
  | .text s => some (.word s)
  | .array items => (items.mapM Json.text?).map .words
  | _ => none

/-- Entries as a tree. -/
def tree (entries : List (String × Entry)) : Json :=
  .object (entries.map fun (key, entry) => (key, entry.toJson))

/-- The entries of a table that has no tables in it. -/
def table? : Json → Option (List (String × Entry))
  | .object members => members.mapM fun (key, j) => (ofJson? j).map (key, ·)
  | _ => none

end Entry

/-- What a key of the outermost table stands for: an entry, a table, or a list of tables that is not
empty. -/
inductive Part where
  | entry (e : Entry)
  | table (entries : List (String × Entry))
  | tables (first : List (String × Entry)) (rest : List (List (String × Entry)))

namespace Part

def toJson : Part → Json
  | entry e => e.toJson
  | table entries => Entry.tree entries
  | tables first rest => .array ((first :: rest).map Entry.tree)

/-- The part that a tree makes. -/
def ofJson? : Json → Option Part
  | .object members => (Entry.table? (.object members)).map table
  | .array (.object members :: items) => do
    return tables (← Entry.table? (.object members)) (← items.mapM Entry.table?)
  | j => (Entry.ofJson? j).map entry

/-- The section of entries whose paths are single keys. -/
def headed (heading : Heading) (entries : List (String × Entry)) : Section Entry :=
  ⟨heading, entries.map fun (key, e) => ([key], e)⟩

/-- The sections that a part has for itself. -/
def sections (key : String) : Part → List (Section Entry)
  | entry _ => []
  | table entries => [headed (.table [key]) entries]
  | tables first rest => (first :: rest).map (headed (.element [key]))

end Part

/-- The parts of a document. -/
def parts? : Json → Option (List (String × Part))
  | .object members => members.mapM fun (key, j) => (Part.ofJson? j).map (key, ·)
  | _ => none

/-- The entries of the outermost table. -/
def topEntries (parts : List (String × Part)) : List (String × Entry) :=
  parts.filterMap fun (key, part) =>
    match part with
    | .entry e => some (key, e)
    | _ => none

/-- The sections of a document. The entries of the outermost table come before all tables. -/
def layout (parts : List (String × Part)) : List (Section Entry) :=
  let top := topEntries parts
  (if top.isEmpty then [] else [Part.headed .top top]) ++
    parts.flatMap fun (key, part) => part.sections key

end SqlAlgebra.Toml
