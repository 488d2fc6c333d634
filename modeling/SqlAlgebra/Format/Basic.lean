import SqlAlgebra.Binary64.Basic

/-!
# Data formats

What a format must offer for values to be stored in it. A value is written as a flag, a number or a
text, as a list or a pair, as a record with named fields, or as one of several kinds: a kind by its
name alone, with one value, or with named fields. A reader stands at a place in a document and asks
for one of these. What it gets are the places of the parts.
-/

namespace SqlAlgebra

/-- A format in which values are written as `ω` and read at places `δ`. -/
structure Format (ω δ : Type) where
  bool : Bool → ω
  text : String → ω
  int64 : Int64 → ω
  uint64 : UInt64 → ω
  binary64 : Binary64 → ω
  /-- An optional value that is missing. -/
  absent : ω
  /-- An optional value that is there. -/
  present : ω → ω
  list : List ω → ω
  pair : ω → ω → ω
  record : List (String × ω) → ω
  /-- A kind by its name alone. -/
  constant : String → ω
  /-- A kind with one value. -/
  wrapped : String → ω → ω
  /-- A kind with named fields. -/
  tagged : String → List (String × ω) → ω
  /-- The place at which a document is read. -/
  start : ω → δ
  /-- How many kinds there can be inside one another. -/
  levels : δ → Nat
  bool? : δ → Option Bool
  text? : δ → Option String
  int64? : δ → Option Int64
  uint64? : δ → Option UInt64
  binary64? : δ → Option Binary64
  /-- The optional value, which may be missing. -/
  option? : δ → Option (Option δ)
  list? : δ → Option (List δ)
  pair? : δ → Option (δ × δ)
  /-- The fields with the given names, as far as they are there. -/
  record? : List String → δ → Option (List (Option δ))
  /-- The name of a kind, and the place of what belongs to it. -/
  variant? : δ → Option (String × Option δ)
  /-- Nothing belongs to the kind. -/
  isEmpty : Option δ → Bool
  /-- The fields of a kind with the given names, as far as they are there. -/
  fields? : List String → δ → Option (List (Option δ))

namespace Format

variable {ω δ α β : Type} (f : Format ω δ)

/-- A value that may be missing. -/
def ofOption (write : α → ω) : Option α → ω
  | none => f.absent
  | some a => f.present (write a)

/-- A list of texts. -/
def texts (ss : List String) : ω := f.list (ss.map f.text)

/-- The name of a value in a table. -/
def ofNamed [DecidableEq α] (table : List (String × α)) (a : α) : ω :=
  match table.find? (·.2 == a) with
  | some (name, _) => f.constant name
  | none => f.absent

def listOf? (read : δ → Option α) (x : δ) : Option (List α) := (f.list? x).bind (·.mapM read)

def optionOf? (read : δ → Option α) (x : δ) : Option (Option α) :=
  match f.option? x with
  | some (some y) => (read y).map some
  | some none => some none
  | none => none

def pairOf? (first : δ → Option α) (second : δ → Option β) (x : δ) : Option (α × β) :=
  match f.pair? x with
  | some (y, z) => do return (← first y, ← second z)
  | none => none

/-- A field that must be there. -/
def required (read : δ → Option α) (field : Option δ) : Option α := field.bind read

/-- A field that need not be there if its value may be missing. -/
def optional (read : δ → Option α) : Option δ → Option (Option α)
  | none => some none
  | some x => f.optionOf? read x

/-- The name of a kind to which nothing belongs. -/
def constant? (x : δ) : Option String :=
  match f.variant? x with
  | some (name, contents) => if f.isEmpty contents then some name else none
  | none => none

/-- One of finitely many values, by its name. -/
def named? (table : List (String × α)) (x : δ) : Option α :=
  (f.constant? x).bind fun name => List.lookup name table

end Format

end SqlAlgebra
