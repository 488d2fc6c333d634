import SqlAlgebra.Text.Quoted

/-!
# Paths

A path leads from the top of a tree of folders through its parts. The part `.` stays in a folder
and the part `..` leaves it, so that two paths may lead to the same place, but which path stands
above another is read off the parts alone.
-/

namespace SqlAlgebra

/-- Why a path cannot be used in some way. -/
inductive FileFault where
  | missing
  | occupied
  | notFolder
  | isFolder
  | nameTooLong
  | zeroCharacter
deriving DecidableEq

def FileFault.message : FileFault → String
  | missing => "No such file or directory (os error 2)"
  | occupied => "File exists (os error 17)"
  | notFolder => "Not a directory (os error 20)"
  | isFolder => "Is a directory (os error 21)"
  | nameTooLong => "File name too long (os error 36)"
  | zeroCharacter => "file name contained an unexpected NUL byte"

/-- A path from the top of a tree. -/
structure TreePath where
  parts : List String
  /-- A separator follows the last part, which then must be a folder. -/
  ended : Bool := false
deriving DecidableEq

namespace TreePath

/-- The text starts at the top of the tree. -/
def isAbsolute (text : String) : Bool := text.toList.head? == some '/'

/-- The path that a text stands for, in a folder of the given name at the top. Separators may be
repeated. -/
def ofText (home text : String) : TreePath :=
  let cs := text.toList
  let parts := ((Text.split '/' cs).map String.ofList).filter (· != "")
  ⟨if isAbsolute text then parts else home :: parts, cs.isEmpty || cs.getLast? == some '/'⟩

/-- The number of bytes in a path, with a separator before each part. -/
def size (p : TreePath) : Nat :=
  p.parts.foldl (fun size part => size + part.utf8ByteSize + 1) (if p.ended then 1 else 0)

/-- A path has no zero characters and fewer than 4096 bytes. -/
def check (p : TreePath) : Except FileFault Unit :=
  if p.parts.any fun part => part.toList.contains '\x00' then .error .zeroCharacter
  else if 4096 ≤ p.size then .error .nameTooLong
  else .ok ()

/-- The parts without those at the end that stay where they are. -/
def trimDots (parts : List String) : List String := (parts.reverse.dropWhile (· == ".")).reverse

/-- The paths above a path, the nearest first. -/
def above (p : TreePath) : List TreePath :=
  let body := trimDots p.parts
  let starts := (List.range body.length).reverse.map body.take
  (starts.filter fun parts => parts.getLast? != some ".").map fun parts => ⟨parts, false⟩

end TreePath

end SqlAlgebra
