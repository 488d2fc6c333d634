import SqlAlgebra.FileTree.Path

/-!
# Trees of files

Folders with text files and further folders in them. A path is followed part by part, and every
part but the last must be a folder that is there.
-/

namespace SqlAlgebra

/-- What can be at a place of a tree. -/
inductive FileItem where
  | file (text : String)
  | folder
deriving DecidableEq

/-- A tree of files, by what is at each place below the top. Places are lists of names. -/
structure FileTree where
  items : List (List String × FileItem)

/-- Where a path leads: to a folder that is there in any case, or to a name in one. -/
inductive Place where
  | folder
  | entry (names : List String)

namespace FileTree

/-- The tree with one empty folder. -/
def ofHome (home : String) : FileTree := ⟨[([home], .folder)]⟩

/-- What is at a place. The top is a folder. -/
def get? (t : FileTree) (names : List String) : Option FileItem :=
  if names.isEmpty then some .folder else List.lookup names t.items

/-- Put something at a place, instead of what was there. -/
def put (t : FileTree) (names : List String) (item : FileItem) : FileTree :=
  ⟨(names, item) :: t.items⟩

/-- A name that is too long for any folder has more than 255 bytes. -/
def isTooLong (name : String) : Bool := 255 < name.utf8ByteSize

/-- The folder that is reached from a folder by following parts. -/
def enter (t : FileTree) (here : List String) : List String → Except FileFault (List String)
  | [] => .ok here
  | part :: parts =>
    if part = "." then t.enter here parts
    else if part = ".." then t.enter here.dropLast parts
    else if isTooLong part then .error .nameTooLong
    else
      match t.get? (here ++ [part]) with
      | none => .error .missing
      | some (.file _) => .error .notFolder
      | some .folder => t.enter (here ++ [part]) parts

/-- Where a path leads. Only its last part may be missing. -/
def locate (t : FileTree) (p : TreePath) : Except FileFault Place := do
  p.check
  match p.parts.getLast? with
  | none => return .folder
  | some last =>
    let here ← t.enter [] p.parts.dropLast
    if last = "." ∨ last = ".." then return .folder
    else if isTooLong last then .error .nameTooLong
    else return .entry (here ++ [last])

/-- What is at a path. -/
def find (t : FileTree) (p : TreePath) : Except FileFault FileItem := do
  match ← t.locate p with
  | .folder => return .folder
  | .entry names =>
    match t.get? names with
    | none => .error .missing
    | some .folder => return .folder
    | some (.file text) => if p.ended then .error .notFolder else return .file text

def isFolder (t : FileTree) (p : TreePath) : Bool :=
  match t.find p with
  | .ok .folder => true
  | _ => false

/-- Make one folder, where nothing may be yet. -/
def makeFolder (t : FileTree) (p : TreePath) : Except FileFault FileTree := do
  match ← t.locate p with
  | .folder => .error .occupied
  | .entry names =>
    if (t.get? names).isSome then .error .occupied else return t.put names .folder

/-- A fault in making a folder does not count if the folder is there. -/
def excuse (t : FileTree) (p : TreePath) (fault : FileFault) : Option FileFault :=
  if t.isFolder p then none else some fault

/-- Make the first of several folders. If that fails because something above it is missing, make
the next ones and try again. What has been made stays, even if there is a fault in the end. -/
def makeFolders (t : FileTree) : List TreePath → Option FileFault × FileTree
  | [] => (some .missing, t)
  | p :: above =>
    match t.makeFolder p with
    | .ok made => (none, made)
    | .error .missing =>
      match t.makeFolders above with
      | (some fault, made) => (some fault, made)
      | (none, made) =>
        match made.makeFolder p with
        | .ok complete => (none, complete)
        | .error fault => (made.excuse p fault, made)
    | .error fault => (t.excuse p fault, t)

/-- Make a folder with all those above it. -/
def makePath (t : FileTree) (p : TreePath) : Option FileFault × FileTree :=
  t.makeFolders (p :: p.above)

/-- Make all folders above a path. -/
def makeAbove (t : FileTree) (p : TreePath) : Option FileFault × FileTree :=
  if p.above.isEmpty then (none, t) else t.makeFolders p.above

/-- Write a text file into a folder that is there. -/
def writeFile (t : FileTree) (p : TreePath) (text : String) : Except FileFault FileTree := do
  match ← t.locate p with
  | .folder => .error .isFolder
  | .entry names =>
    if p.ended then .error .isFolder
    else
      match t.get? names with
      | some .folder => .error .isFolder
      | _ => return t.put names (.file text)

end FileTree

end SqlAlgebra
