import BracketPaint.CommandLine.Command
/-!
# The program

The command on the files of the disk. The user's settings are kept in the directory that
`XDG_CONFIG_HOME` names, if that is a full path, and else in `.config` under the home directory.
-/

namespace BracketPaint.CommandLine

/-- The number of a system error, which may be reported as its negative in 32 bits. -/
def errorNumber (code : UInt32) : UInt32 := if code < 0x80000000 then code else 0 - code

/-- The error that the system reports. -/
def FileError.ofSystem : IO.Error → FileError
  | .noFileOrDirectory .. | .noSuchThing .. => .notFound
  | .alreadyExists .. => .alreadyExists
  | e@(.inappropriateType _ code _) | e@(.invalidArgument _ code _)
  | e@(.permissionDenied _ code _) =>
    match errorNumber code with
    | 13 => .permissionDenied
    | 20 => .notDirectory
    | 21 => .isDirectory
    | 36 => .nameTooLong
    | _ => .other (toString e)
  | e => .other (toString e)

/-- Runs an action and keeps the error that the system reports. -/
def attempt {α : Type} (action : IO α) : IO (Except FileError α) := do
  match ← action.toBaseIO with
  | .ok a => return .ok a
  | .error e => return .error (.ofSystem e)

/-- The files of the disk. -/
def disk : Files IO where
  read path := attempt (IO.FS.readBinFile path)
  makeDirectory path := do
    match ← attempt (IO.FS.createDir path) with
    | .error .alreadyExists => attempt (IO.FS.createDirAll path)
    | answer => return answer
  put path contents := attempt (IO.FS.writeFile path contents)

/-- The directory for the user's settings files, if there is one. -/
def configHome? : IO (Option String) := do
  match ← IO.getEnv "XDG_CONFIG_HOME" with
  | some directory => if directory.startsWith "/" then return some directory else underHome
  | none => underHome
where
  underHome : IO (Option String) := do
    return (← IO.getEnv "HOME").map fun home => s!"{home}/.config"

end BracketPaint.CommandLine

open BracketPaint.CommandLine in
/-- Runs the command with the arguments it was called with. -/
def main (arguments : List String) : IO UInt32 := do
  let outcome ← run disk (← configHome?) arguments
  IO.print outcome.stdout
  IO.eprint outcome.stderr
  return outcome.exit.toUInt32
