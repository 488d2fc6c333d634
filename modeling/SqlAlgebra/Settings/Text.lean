import SqlAlgebra.Settings.Json
import SqlAlgebra.Toml.Reading
import SqlAlgebra.Toml.Writing

/-!
# Settings as text

Settings are kept in text files. How a tree is read from a text and written to one is left open.
-/

namespace SqlAlgebra

/-- A medium in which trees are kept as texts. -/
structure Medium where
  read : String → Option Json
  /-- The text of a tree, if it can be written. -/
  write : Json → Option String

/-- Texts with sections, which are read leniently and written in one way only. -/
def Medium.toml : Medium := ⟨Toml.read, Toml.writeTree⟩

namespace Settings

variable (medium : Medium)

/-- The settings in a text, if they can be used. -/
def ofText (text : String) : Except SettingsError Settings :=
  match medium.read text >>= ofJson? .toml with
  | none => .error .unreadable
  | some s => s.check

/-- The text of settings. -/
def text (s : Settings) : Except SettingsError String :=
  match medium.write s.toJson with
  | some content => .ok content
  | none => .error .unwritable

end Settings

end SqlAlgebra
