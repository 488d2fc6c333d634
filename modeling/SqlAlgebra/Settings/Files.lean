import SqlAlgebra.FileTree.Basic
import SqlAlgebra.Settings.Text

/-!
# Settings files

How settings are loaded from files and saved to them.
-/

namespace SqlAlgebra

/-- A folder in a tree of files, in which paths start. -/
structure Folder where
  name : String
  tree : FileTree

namespace Folder

/-- The empty folder of a name. -/
def empty (name : String) : Folder := ⟨name, .ofHome name⟩

def path (f : Folder) (text : String) : TreePath := .ofText f.name text

/-- A path together with the folder, unless it starts at the top. -/
def display (f : Folder) (text : String) : String :=
  if TreePath.isAbsolute text then text else f.name ++ "/" ++ text

/-- Make a folder with all those above it. -/
def makePath (f : Folder) (text : String) : Option FileFault × Folder :=
  let (fault, tree) := f.tree.makePath (f.path text)
  (fault, { f with tree })

/-- Write a file, and make the folders above it. -/
def writeFile (f : Folder) (text content : String) : Option FileFault × Folder :=
  let p := f.path text
  match f.tree.makeAbove p with
  | (some fault, tree) => (some fault, { f with tree })
  | (none, tree) =>
    match tree.writeFile p content with
    | .error fault => (some fault, { f with tree })
    | .ok tree => (none, { f with tree })

end Folder

namespace Settings

variable (medium : Medium)

/-- Where settings are kept unless a path is given. -/
def defaultPath : String := "sqlforge/config.toml"

/-- Load settings. Where there is nothing, the settings are the default ones. -/
def load (f : Folder) (text : String) : Except SettingsError Settings :=
  match f.tree.find (f.path text) with
  | .error _ => .ok {}
  | .ok .folder => .error (.fileUnreadable (f.display text))
  | .ok (.file content) =>
    match ofText medium content with
    | .ok s => .ok s
    | .error _ => .error (.fileInvalid (f.display text))

/-- Save settings, and give the text that was written. The folders above the file are made first
and stay even if the settings cannot be written. -/
def save (s : Settings) (f : Folder) (text : String) : Except SettingsError String × Folder :=
  let p := f.path text
  match f.tree.makeAbove p with
  | (some fault, tree) => (.error (.folder fault), { f with tree })
  | (none, tree) =>
    match s.text medium with
    | .error e => (.error e, { f with tree })
    | .ok content =>
      match tree.writeFile p content with
      | .error _ => (.error (.fileUnwritable (f.display text)), { f with tree })
      | .ok written => (.ok content, { f with tree := written })

end Settings

end SqlAlgebra
