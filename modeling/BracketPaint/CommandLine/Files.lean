import BracketPaint.CommandLine.Path
/-!
# Files

What the command needs of a file system: to read a file and to write one. `Files m` says how this is
done in a monad `m`; the command is written against it. To write a file, the directories on the way
to it are made first.
-/

namespace BracketPaint.CommandLine

/-- What can go wrong with a file. -/
inductive FileError where
  /-- There is no such file, or no such directory on the way to it. -/
  | notFound
  /-- A file stands on the way where a directory should. -/
  | notDirectory
  /-- A directory stands where a file should. -/
  | isDirectory
  /-- A file stands where a directory should be made. -/
  | alreadyExists
  /-- The path, or a name on the way, has too many bytes. -/
  | nameTooLong
  /-- The system does not allow it. -/
  | permissionDenied
  /-- The file does not hold text. -/
  | notText
  /-- Something else, in the words of the system. -/
  | other (message : String)
  deriving Repr, DecidableEq

/-- The wording of an error. -/
def FileError.message : FileError → String
  | notFound => "No such file or directory (os error 2)"
  | notDirectory => "Not a directory (os error 20)"
  | isDirectory => "Is a directory (os error 21)"
  | alreadyExists => "File exists (os error 17)"
  | nameTooLong => "File name too long (os error 36)"
  | permissionDenied => "Permission denied (os error 13)"
  | notText => "stream did not contain valid UTF-8"
  | other message => message

/-- How files are read and written. -/
structure Files (m : Type → Type) where
  /-- The bytes of a file. -/
  read : (path : String) → m (Except FileError ByteArray)
  /-- Makes a directory, unless there is one. -/
  makeDirectory : (path : String) → m (Except FileError Unit)
  /-- Puts text into a file, which is made if there is none. -/
  put : (path contents : String) → m (Except FileError Unit)

namespace Files

variable {m : Type → Type} [Monad m] (files : Files m)

/-- The text of a file. -/
def readText (path : String) : m (Except FileError String) := do
  match ← files.read path with
  | .error e => return .error e
  | .ok bytes =>
    match String.fromUTF8? bytes with
    | some text => return .ok text
    | none => return .error .notText

/-- Makes the first of some directories, each of which lies in the next one. The others are made
only where it turns out that they are missing, so that the error names the first obstacle. -/
def makeDirectories : List String → m (Except FileError Unit)
  | [] => return .ok ()
  | directory :: outer => do
    match ← files.makeDirectory directory with
    | .error .notFound =>
      match ← makeDirectories outer with
      | .ok () => files.makeDirectory directory
      | answer => return answer
    | answer => return answer

/-- Writes a file, and makes the directories on the way to it. -/
def write (path contents : String) : m (Except FileError Unit) := do
  match ← files.makeDirectories (directoriesOf path) with
  | .ok () => files.put path contents
  | answer => return answer

end Files
end BracketPaint.CommandLine
