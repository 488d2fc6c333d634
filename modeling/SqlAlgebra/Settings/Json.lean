import SqlAlgebra.Json.Reading
import SqlAlgebra.Settings.Basic
import SqlAlgebra.Toml.Section

/-!
# Settings as data trees

Settings are stored as entries of named tables. Every part of them may be missing, except the name
and the base of a dialect.
-/

namespace SqlAlgebra

/-- Where the formats in which settings are stored differ. -/
structure Storage where
  /-- What may belong to a kind to which nothing belongs. -/
  isNothing : Json → Bool
  /-- A record that is an array may go on after its last field. -/
  surplus : Bool

namespace Storage

/-- Nothing is null. -/
def json : Storage where
  isNothing
    | .null => true
    | _ => false
  surplus := false

/-- There is no null, and nothing is an empty array or table. -/
def toml : Storage where
  isNothing
    | .array [] => true
    | .object [] => true
    | _ => false
  surplus := true

variable (storage : Storage)

/-- One of finitely many values, by its name. -/
def named? {α : Type} (table : List (String × α)) (j : Json) : Option α :=
  match j.variant? with
  | some (name, none) => List.lookup name table
  | some (name, some payload) => if storage.isNothing payload then List.lookup name table else none
  | none => none

/-- The fields of a record of which the last ones may be missing. -/
def fields? (names : List String) : Json → Option (List (Option Json))
  | .array items =>
    if items.length ≤ names.length || storage.surplus then
      some (names.mapIdx fun i _ => items[i]?)
    else none
  | j => j.members? names

end Storage

/-- A field that has a value even if it is missing. -/
def Json.defaulting {α : Type} (value : α) (read : Json → Option α) : Option Json → Option α
  | none => some value
  | some j => read j

/-- The names of the ways to write parameters. -/
def PlaceholderStyle.names : List (String × PlaceholderStyle) :=
  [("dollar", .dollar), ("question", .question), ("numbered_question", .numberedQuestion),
    ("colon", .colon), ("at_p", .atP)]

def PlaceholderStyle.label : PlaceholderStyle → String
  | .dollar => "dollar"
  | .question => "question"
  | .numberedQuestion => "numbered_question"
  | .colon => "colon"
  | .atP => "at_p"

/-- The names of the ways to quote identifiers. -/
def QuoteStyle.names : List (String × QuoteStyle) :=
  [("double_quote", .doubleQuote), ("backtick", .backtick), ("bracket", .bracket)]

def QuoteStyle.label : QuoteStyle → String
  | .doubleQuote => "double_quote"
  | .backtick => "backtick"
  | .bracket => "bracket"

/-- The names of the capabilities. -/
def Capability.names : List (String × Capability) := Capability.all.map fun c => (c.label, c)

namespace CacheSettings

/-- The entries that store the cache's settings. -/
def entries (c : CacheSettings) : List (String × Toml.Entry) :=
  [("enabled", .flag c.enabled), ("capacity", .count c.capacity.toNat)]

def ofJson? (storage : Storage) (j : Json) : Option CacheSettings :=
  match storage.fields? ["enabled", "capacity"] j with
  | some [enabled, capacity] => do
    let enabled ← Json.defaulting true Json.bool? enabled
    let capacity ← Json.defaulting 256 Json.uint64? capacity
    return { enabled, capacity }
  | _ => none

end CacheSettings

namespace DialectSettings

/-- The entries that store a dialect's settings. What is not chosen has none. -/
def entries (d : DialectSettings) : List (String × Toml.Entry) :=
  [("name", .word d.name), ("base", .word d.base)] ++
    (d.placeholder.toList.map fun style => ("placeholder", .word style.label)) ++
    (d.quote.toList.map fun style => ("quote", .word style.label)) ++
    (d.capabilities.toList.map fun members =>
      ("capabilities", .words (members.map Capability.label))) ++
    (if d.disabled.isEmpty then []
      else [("disabled_capabilities", .words (d.disabled.map Capability.label))])

def ofJson? (storage : Storage) (j : Json) : Option DialectSettings :=
  let fields := storage.fields?
    ["name", "base", "placeholder", "quote", "capabilities", "disabled_capabilities"] j
  let members := Json.list? (storage.named? Capability.names)
  match fields with
  | some [name, base, placeholder, quote, capabilities, disabled] => do
    let name ← Json.required Json.text? name
    let base ← Json.required Json.text? base
    let placeholder ← Json.optional (storage.named? PlaceholderStyle.names) placeholder
    let quote ← Json.optional (storage.named? QuoteStyle.names) quote
    let capabilities ← Json.optional members capabilities
    let disabled ← Json.defaulting [] members disabled
    return { name, base, placeholder, quote, capabilities, disabled }
  | _ => none

end DialectSettings

namespace Settings

def toJson (s : Settings) : Json :=
  .object [("cache", Toml.Entry.tree s.cache.entries),
    ("dialects", .array (s.dialects.map fun d => Toml.Entry.tree d.entries))]

def ofJson? (storage : Storage) (j : Json) : Option Settings :=
  match storage.fields? ["cache", "dialects"] j with
  | some [cache, dialects] => do
    let cache ← Json.defaulting {} (CacheSettings.ofJson? storage) cache
    let dialects ← Json.defaulting [] (Json.list? (DialectSettings.ofJson? storage)) dialects
    return { cache, dialects }
  | _ => none

end Settings

end SqlAlgebra
