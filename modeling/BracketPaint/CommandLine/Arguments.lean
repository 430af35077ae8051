import BracketPaint.Position
/-!
# Arguments of the command

The arguments name a file, and options in their long form (`--radius 5`, `--radius=5`) or their
short one (`-r 5`, `-r5`, `-r=5`); short options that take no value may share a dash. Two dashes
alone end the options. A value that stands apart from its option must not look like an option.

Arguments are looked at from left to right, and the first that is wrong decides; so does the first
that asks for the version or for help.
-/

namespace BracketPaint.CommandLine

/-- What the command is to do. -/
structure Arguments where
  /-- The file to highlight. -/
  file : Option String := none
  /-- The cursors, in the order in which they were given. -/
  cursors : List CursorSpec := []
  /-- The settings file. -/
  config : Option String := none
  /-- The syntax of the file. -/
  syntaxName : Option String := none
  /-- How far to look on each side of a cursor. -/
  radius : Option Nat := none
  /-- Whether to print the plan as JSON. -/
  json : Bool := false
  /-- Whether to write the default settings and do nothing else. -/
  initConfig : Bool := false
  /-- How often more talk was asked for. -/
  verbosity : Nat := 0
  deriving Repr, DecidableEq

/-- What is wrong with the arguments. -/
inductive UsageError where
  /-- There is no such option, or one file too many. -/
  | unexpected (argument : String)
  /-- An option was given twice that may be given once. -/
  | repeated (option : String)
  /-- An option has no value. -/
  | missingValue (option : String)
  /-- An option has a value but takes none. -/
  | superfluousValue (option : String)
  /-- The value of an option is not one that it can have. -/
  | invalidValue (option value : String)
  /-- There is no file to highlight. -/
  | missingFile
  deriving Repr, DecidableEq

/-- The wording of an error. -/
def UsageError.message : UsageError → String
  | unexpected argument => s!"unexpected argument '{argument}' found"
  | repeated option => s!"the argument '{option}' cannot be used multiple times"
  | missingValue option => s!"a value is required for '{option}' but none was supplied"
  | superfluousValue option => s!"unexpected value for '{option}' found"
  | invalidValue option value => s!"invalid value '{value}' for '{option}'"
  | missingFile => "the following required arguments were not provided: <FILE>"

/-- What the arguments ask for. -/
inductive Request where
  /-- The work of the command. -/
  | work (arguments : Arguments)
  /-- The version of the command. -/
  | version
  /-- Help with the arguments. -/
  | help
  deriving Repr, DecidableEq

/-- The options of the command. -/
inductive Choice where
  | cursor
  | config
  | syntaxName
  | radius
  | json
  | initConfig
  | verbose
  | help
  | version
  deriving Repr, DecidableEq

namespace Choice

/-- The option takes a value. -/
def takesValue : Choice → Bool
  | cursor | config | syntaxName | radius => true
  | _ => false

/-- The long name of an option. -/
def name : Choice → String
  | cursor => "cursor"
  | config => "config"
  | syntaxName => "syntax"
  | radius => "radius"
  | json => "json"
  | initConfig => "init-config"
  | verbose => "verbose"
  | help => "help"
  | version => "version"

/-- The option of a long name. -/
def ofName? (text : List Char) : Option Choice :=
  [cursor, config, syntaxName, radius, json, initConfig, verbose, help, version].find?
    (·.name.toList = text)

/-- The option of a letter. -/
def ofLetter? : Char → Option Choice
  | 'c' => some cursor
  | 's' => some syntaxName
  | 'r' => some radius
  | 'v' => some verbose
  | 'h' => some help
  | 'V' => some version
  | _ => none

end Choice

/-! ### One option -/

/-- An answer that ends the reading of arguments. -/
inductive Stop where
  /-- An argument is wrong. -/
  | wrong (e : UsageError)
  /-- An argument asks for something else than work. -/
  | instead (r : Request)
  deriving Repr, DecidableEq

/-- Sets what may be set once. -/
def setOnce {α : Type} (option : String) (old : Option α) (new : α) : Except Stop (Option α) :=
  if old.isSome then .error (.wrong (.repeated option)) else .ok (some new)

/-- Turns on what may be turned on once. -/
def turnOn (option : String) (old : Bool) : Except Stop Bool :=
  if old then .error (.wrong (.repeated option)) else .ok true

/-- A path; the empty text is none. -/
def path (option value : String) : Except Stop String :=
  if value.isEmpty then .error (.wrong (.invalidValue option value)) else .ok value

namespace Arguments

/-- Takes an option with its value into account. -/
def withValue (a : Arguments) (choice : Choice) (value : String) : Except Stop Arguments := do
  match choice with
  | .cursor =>
    match CursorSpec.parse value with
    | .ok cursor => return { a with cursors := a.cursors ++ [cursor] }
    | .error _ => throw (.wrong (.invalidValue choice.name value))
  | .config =>
    return { a with config := ← setOnce choice.name a.config (← path choice.name value) }
  | .syntaxName => return { a with syntaxName := ← setOnce choice.name a.syntaxName value }
  | .radius =>
    match Text.numeral? Text.wordLimit value.toList with
    | some n => return { a with radius := ← setOnce choice.name a.radius n }
    | none => throw (.wrong (.invalidValue choice.name value))
  | _ => throw (.wrong (.superfluousValue choice.name))

/-- Takes an option without value into account. -/
def withFlag (a : Arguments) (choice : Choice) : Except Stop Arguments := do
  match choice with
  | .json => return { a with json := ← turnOn choice.name a.json }
  | .initConfig => return { a with initConfig := ← turnOn choice.name a.initConfig }
  | .verbose => return { a with verbosity := a.verbosity + 1 }
  | .version => throw (.instead .version)
  | .help => throw (.instead .help)
  | _ => throw (.wrong (.missingValue choice.name))

/-- Takes the file into account, of which there may be one. -/
def withFile (a : Arguments) (file : String) : Except Stop Arguments := do
  if a.file.isSome then throw (.wrong (.unexpected file))
  else return { a with file := some (← path "FILE" file) }

/-! ### One argument -/

/-- An option that still waits for its value, if there is one. -/
abbrev Pending := Option Choice

/-- Takes short options that share a dash into account. -/
def withLetters (a : Arguments) : List Char → Except Stop (Arguments × Pending)
  | [] => .ok (a, none)
  | letter :: rest => do
    match Choice.ofLetter? letter with
    | none => throw (.wrong (.unexpected (String.ofList ['-', letter])))
    | some choice =>
      if choice.takesValue then
        match rest with
        | [] => return (a, some choice)
        | '=' :: value => return (← a.withValue choice (String.ofList value), none)
        | value => return (← a.withValue choice (String.ofList value), none)
      else (← a.withFlag choice).withLetters rest

/-- Takes a long option into account, given without its dashes. -/
def withLong (a : Arguments) (text : List Char) : Except Stop (Arguments × Pending) := do
  match Choice.ofName? (text.takeWhile (· ≠ '=')) with
  | none => throw (.wrong (.unexpected (String.ofList ('-' :: '-' :: text))))
  | some choice =>
    match text.dropWhile (· ≠ '=') with
    | [] =>
      if choice.takesValue then return (a, some choice) else return (← a.withFlag choice, none)
    | _ :: value => return (← a.withValue choice (String.ofList value), none)

/-- Takes an argument into account that is not the value of the one before. -/
def withArgument (a : Arguments) (argument : String) : Except Stop (Arguments × Pending) := do
  match argument.toList with
  | '-' :: '-' :: text => a.withLong text
  | '-' :: letter :: letters => a.withLetters (letter :: letters)
  | _ => return (← a.withFile argument, none)

/-- The argument looks like an option. -/
def looksLikeOption (argument : String) : Bool :=
  match argument.toList with
  | '-' :: _ :: _ => true
  | _ => false

/-- Takes all arguments into account. -/
def withAll (a : Arguments) (pending : Pending) : List String → Except Stop Arguments
  | [] =>
    match pending with
    | some choice => .error (.wrong (.missingValue choice.name))
    | none => .ok a
  | argument :: arguments =>
    match pending with
    | some choice =>
      if looksLikeOption argument then .error (.wrong (.missingValue choice.name))
      else do (← a.withValue choice argument).withAll none arguments
    | none =>
      if argument = "--" then arguments.foldlM withFile a
      else do
        let (a, pending) ← a.withArgument argument
        a.withAll pending arguments

end Arguments

/-- What the arguments ask for. A file must be given, unless settings are to be written. -/
def Request.ofArguments (arguments : List String) : Except UsageError Request :=
  match ({} : Arguments).withAll none arguments with
  | .ok a => if a.file.isNone ∧ ¬ a.initConfig then .error .missingFile else .ok (.work a)
  | .error (.instead r) => .ok r
  | .error (.wrong e) => .error e

end BracketPaint.CommandLine
