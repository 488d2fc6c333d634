import SqlAlgebra.Dialect.Profile
import SqlAlgebra.FileTree.Path

/-!
# Settings

The settings of the library: how plans are cached, and which dialects there are besides the
built-in ones. A configured dialect is a built-in one with some of its choices replaced.
-/

namespace SqlAlgebra

/-- How plans are cached. -/
structure CacheSettings where
  enabled : Bool := true
  capacity : UInt64 := 256
deriving DecidableEq

/-- A dialect made from a built-in one. -/
structure DialectSettings where
  name : String
  /-- The name of the built-in dialect. -/
  base : String
  placeholder : Option PlaceholderStyle := none
  quote : Option QuoteStyle := none
  /-- The capabilities it has in place of those of its base. -/
  capabilities : Option (List Capability) := none
  /-- The capabilities taken away in the end. -/
  disabled : List Capability := []
deriving DecidableEq

structure Settings where
  cache : CacheSettings := {}
  dialects : List DialectSettings := []
deriving DecidableEq

/-- Why settings cannot be used. -/
inductive SettingsError where
  | unreadable
  | zeroCapacity
  | unknownBase (name base : String)
  | unknownDialect (name : String)
  | unwritable
  | fileUnreadable (path : String)
  | fileInvalid (path : String)
  | fileUnwritable (path : String)
  | folder (fault : FileFault)
deriving DecidableEq

def SettingsError.message : SettingsError → String
  | unreadable => "Failed to parse settings"
  | zeroCapacity => "cache.capacity must be at least 1"
  | unknownBase name base =>
    "dialect `" ++ name ++ "` has unknown base `" ++ base ++
      "` (expected postgres, mysql, sqlite or ansi)"
  | unknownDialect name => "Unknown dialect: " ++ name
  | unwritable => "Failed to serialize settings"
  | fileUnreadable path => "Failed to read settings file: " ++ path
  | fileInvalid path => "Invalid settings file: " ++ path
  | fileUnwritable path => "Failed to write settings file: " ++ path
  | folder fault => fault.message

/-- The profile of a configured dialect. What is disabled is missing even if it is also listed. -/
def DialectSettings.profile (d : DialectSettings) : Except SettingsError Profile :=
  match Profile.builtin? d.base with
  | none => .error (.unknownBase d.name d.base)
  | some base =>
    let named := { base with
      name := d.name
      placeholder := d.placeholder.getD base.placeholder
      quote := d.quote.getD base.quote }
    let replaced :=
      match d.capabilities with
      | none => named
      | some members => named.withCapabilities members
    .ok (d.disabled.foldl Profile.withoutCapability replaced)

namespace Settings

/-- Settings can be used if there is room for a plan and every base is known. -/
def check (s : Settings) : Except SettingsError Settings :=
  if s.cache.capacity = 0 then .error .zeroCapacity
  else (s.dialects.mapM DialectSettings.profile).map fun _ => s

/-- The profile of a name: that of the first configured dialect of that name, or else the built-in
one. -/
def profile (s : Settings) (name : String) : Except SettingsError Profile :=
  match s.dialects.find? (·.name == name) with
  | some d => d.profile
  | none =>
    match Profile.builtin? name with
    | some p => .ok p
    | none => .error (.unknownDialect name)

end Settings

end SqlAlgebra
