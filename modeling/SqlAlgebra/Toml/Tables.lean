import SqlAlgebra.Toml.Section

/-!
# Tables

A document is put together section by section. A table can be given a heading once, and a key can
be given a value once. The tables on the way to a heading or to a key with dots come into being by
themselves; those made by headings and those made by dotted keys are kept apart.
-/

namespace SqlAlgebra.Toml

/-- How a table came to be: on the way to another heading, on the way to a key with dots, or by a
heading of its own. -/
inductive Origin where
  | passed | dotted | headed
deriving DecidableEq

/-- What a key stands for while the document is put together. A list of tables has its latest
element first. -/
inductive Node where
  | value (j : Json)
  | table (origin : Origin) (members : List (String × Node))
  | tables (latest : List (String × Node)) (earlier : List (List (String × Node)))

/-- The keys of a table with what they stand for. -/
abbrev Members := List (String × Node)

namespace Members

/-- Let a key stand for something else, or for something at all. -/
def put (key : String) (node : Node) : Members → Members
  | [] => [(key, node)]
  | (k, old) :: members =>
    if k = key then (k, node) :: members else (k, old) :: put key node members

/-- Give a key of a table a value. The last table on the way to a key with dots must have been
made by such keys, and none on the way may have a heading. -/
def define (value : Json) : Bool → List String → Members → Option Members
  | _, [], _ => none
  | allowed, [key], members =>
    if allowed && (List.lookup key members).isNone then some (members.put key (.value value))
    else none
  | _, key :: path, members =>
    match List.lookup key members with
    | none => do return members.put key (.table .dotted (← define value true path []))
    | some (.table .headed _) => none
    | some (.table origin inner) => do
      return members.put key (.table origin (← define value (origin = .dotted) path inner))
    | some (.tables latest earlier) => do
      return members.put key (.tables (← define value false path latest) earlier)
    | some (.value _) => none

/-- Define every entry in turn. -/
def defineAll (members : Members) (entries : List (List String × Json)) : Option Members :=
  entries.foldlM (fun members (path, value) => define value true path members) members

/-- Change what stands at a path of headings. Of a list of tables the path goes on in the latest
element. -/
def change (f : Option Node → Option Node) : List String → Members → Option Members
  | [], _ => none
  | [key], members => do return members.put key (← f (List.lookup key members))
  | key :: path, members =>
    match List.lookup key members with
    | none => do return members.put key (.table .passed (← change f path []))
    | some (.table origin inner) => do
      return members.put key (.table origin (← change f path inner))
    | some (.tables latest earlier) => do
      return members.put key (.tables (← change f path latest) earlier)
    | some (.value _) => none

/-- A table under its heading. It may hold tables whose headings came before. -/
def headed (entries : List (List String × Json)) : Option Node → Option Node
  | none => (defineAll [] entries).map (.table .headed)
  | some (.table .passed inner) => (defineAll inner entries).map (.table .headed)
  | some _ => none

/-- A new element of a list of tables. -/
def extended (entries : List (List String × Json)) : Option Node → Option Node
  | none => (defineAll [] entries).map (.tables · [])
  | some (.tables latest earlier) => (defineAll [] entries).map (.tables · (latest :: earlier))
  | some _ => none

/-- Add a section to the document. -/
def add (members : Members) (part : Section Json) : Option Members :=
  match part.heading with
  | .top => members.defineAll part.entries
  | .table path => members.change (headed part.entries) path
  | .element path => members.change (extended part.entries) path

end Members

mutual

def Node.toJson : Node → Json
  | .value j => j
  | .table _ members => .object (Members.toJsonMembers members)
  | .tables latest earlier =>
    .array ((.object (Members.toJsonMembers latest) :: Members.toJsonElements earlier).reverse)
termination_by structural node => node

def Members.toJsonMembers : List (String × Node) → List (String × Json)
  | [] => []
  | (key, node) :: members => (key, node.toJson) :: Members.toJsonMembers members
termination_by structural members => members

def Members.toJsonElements : List (List (String × Node)) → List Json
  | [] => []
  | members :: elements =>
    .object (Members.toJsonMembers members) :: Members.toJsonElements elements
termination_by structural elements => elements

end

/-- The tree of a document, unless its sections contradict one another. -/
def assemble (parts : List (Section Json)) : Option Json := do
  let members ← parts.foldlM Members.add []
  return .object (Members.toJsonMembers members)

/-- The tree of a table between braces, which has entries only. -/
def inlineTable (entries : List (List String × Json)) : Option Json :=
  assemble [⟨.top, entries⟩]

end SqlAlgebra.Toml
