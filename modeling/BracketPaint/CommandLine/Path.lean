/-!
# Paths

A path is a sequence of names with slashes between them. It starts from the topmost directory if it
starts with a slash, and else from the directory the command runs in. A single dot stands for the
directory that was reached so far, two dots for the one around it, and slashes in a row count as one.
-/

namespace BracketPaint.CommandLine

/-- What stands between the slashes of a path. -/
def piecesOf (path : String) : List String := (path.toList.splitOn '/').map String.ofList

/-- The names of a path, dots among them. -/
def namesOf (path : String) : List String := (piecesOf path).filter (· ≠ "")

/-- The piece does not lead to another directory. -/
def staysInPlace (piece : String) : Bool := piece == "" || piece == "."

/-- The last name of a path, if it is that of a file. -/
def fileName? (path : String) : Option String :=
  ((namesOf path).filter (· ≠ ".")).getLast?.filter (· ≠ "..")

/-- What follows the last dot of a file's name; a dot at its start does not count. -/
def extension? (path : String) : Option String := do
  let name := (← fileName? path).toList
  let tail := name.reverse.takeWhile (· ≠ '.')
  if tail.length + 1 < name.length then some (String.ofList tail.reverse) else none

/-- The beginnings of a path that end in a name, the longest first. The pieces of the path are given
in reverse. -/
def beginnings : List String → List String
  | [] => []
  | piece :: outer =>
    if staysInPlace piece then beginnings outer
    else "/".intercalate (piece :: outer).reverse :: beginnings outer

/-- The directories that a path leads through, the innermost first. Dots and slashes at the end of a
path do not make a directory of what stands before them. -/
def directoriesOf (path : String) : List String := (beginnings (piecesOf path).reverse).tail

end BracketPaint.CommandLine
