import BracketPaint.CommandLine.Files
/-!
# Trees of files

A file system without a disk, so that the command can be run as a pure function. A place in a tree
is the list of the names on the way to it from the topmost directory, which is its own parent.
-/

namespace BracketPaint.CommandLine

/-- A file system without a disk. -/
structure FileTree where
  /-- The place of the directory that the command runs in. -/
  directory : List String
  /-- The files by their places. -/
  files : List (List String × ByteArray)
  /-- The places of the directories that were made. -/
  directories : List (List String) := []

namespace FileTree

/-- There is a directory: one that was made, or one on the way to a file. -/
def isDirectory (t : FileTree) (place : List String) : Bool :=
  place.isEmpty || (t.directory :: t.directories).any place.isPrefixOf ||
    t.files.any fun (other, _) => place.isPrefixOf other && place != other

/-- The contents of a file. -/
def contents? (t : FileTree) (place : List String) : Option ByteArray := t.files.lookup place

/-- The greatest number of bytes of a name. -/
def nameLimit : Nat := 255

/-- The greatest number of bytes of a path. -/
def pathLimit : Nat := 4095

/-- The directory of a name in a directory. -/
def enter (t : FileTree) (place : List String) (name : String) :
    Except FileError (List String) :=
  if nameLimit < name.utf8ByteSize then .error .nameTooLong
  else if t.isDirectory (place ++ [name]) then .ok (place ++ [name])
  else if (t.contents? (place ++ [name])).isSome then .error .notDirectory
  else .error .notFound

/-- The directory that names lead to, with the last name if it is left to be looked up there. -/
def walk (t : FileTree) (place : List String) :
    List String → Except FileError (List String × Option String)
  | [] => .ok (place, none)
  | name :: names =>
    if name = "." then t.walk place names
    else if name = ".." then t.walk place.dropLast names
    else if names.isEmpty then .ok (place, some name)
    else do t.walk (← t.enter place name) names

/-- The directory that a path leads to, with the last name if it is left to be looked up there. -/
def find (t : FileTree) (path : String) : Except FileError (List String × Option String) :=
  if path.isEmpty then .error .notFound
  else if pathLimit < path.utf8ByteSize then .error .nameTooLong
  else t.walk (if path.startsWith "/" then [] else t.directory) (namesOf path)

/-- The bytes of a file. -/
def read (t : FileTree) (path : String) : Except FileError ByteArray := do
  match ← t.find path with
  | (_, none) => throw .isDirectory
  | (place, some name) =>
    if nameLimit < name.utf8ByteSize then throw .nameTooLong
    if t.isDirectory (place ++ [name]) then throw .isDirectory
    match t.contents? (place ++ [name]) with
    | none => throw .notFound
    | some bytes => if path.endsWith "/" then throw .notDirectory else return bytes

/-- Makes a directory, unless there is one. -/
def makeDirectory (t : FileTree) (path : String) : Except FileError FileTree := do
  match ← t.find path with
  | (_, none) => return t
  | (place, some name) =>
    if nameLimit < name.utf8ByteSize then throw .nameTooLong
    if t.isDirectory (place ++ [name]) then return t
    if (t.contents? (place ++ [name])).isSome then throw .alreadyExists
    return { t with directories := (place ++ [name]) :: t.directories }

/-- Puts text into a file. A slash at the end asks for a directory, whatever is there. -/
def put (t : FileTree) (path contents : String) : Except FileError FileTree := do
  match ← t.find path with
  | (_, none) => throw .isDirectory
  | (place, some name) =>
    if path.endsWith "/" then throw .isDirectory
    if nameLimit < name.utf8ByteSize then throw .nameTooLong
    if t.isDirectory (place ++ [name]) then throw .isDirectory
    let others := t.files.filter (·.1 ≠ place ++ [name])
    return { t with files := (place ++ [name], contents.toUTF8) :: others }

/-- Changes the tree of a state, unless that fails. -/
def change (step : FileTree → Except FileError FileTree) :
    StateM FileTree (Except FileError Unit) := do
  match step (← get) with
  | .ok t => set t; return .ok ()
  | .error e => return .error e

/-- The files of a tree, as the command reads and writes them. -/
def access : Files (StateM FileTree) where
  read path := do return (← get).read path
  makeDirectory path := change (·.makeDirectory path)
  put path contents := change (·.put path contents)

end FileTree
end BracketPaint.CommandLine
