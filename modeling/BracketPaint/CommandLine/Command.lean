import BracketPaint.CommandLine.Arguments
import BracketPaint.CommandLine.Files
import BracketPaint.Highlight
import BracketPaint.Settings.Reader
import BracketPaint.Settings.Writer
import BracketPaint.Text.Json
import BracketPaint.Text.Printable
/-!
# The command

The command highlights the brackets around cursors in a file and prints the plan: one line for each
painted region, or the plan as JSON. It can also write the default settings into a file.

The settings come from the file that the arguments name, or from the user's own, which may be
missing or unreadable. The syntax comes from the arguments or from the extension of the file's name.
-/

namespace BracketPaint.CommandLine

/-! ### Errors -/

/-- What keeps settings from being loaded. -/
inductive LoadError where
  /-- The file cannot be read. -/
  | file (e : FileError)
  /-- The file holds no settings document. -/
  | unreadable
  deriving Repr, DecidableEq

/-- What keeps the command from doing its work. -/
inductive CommandError where
  /-- No cursor was given. -/
  | noCursor
  /-- There is no place for the user's settings. -/
  | noConfigDirectory
  /-- The settings cannot be loaded. -/
  | cannotLoad (path : String) (cause : LoadError)
  /-- The settings cannot be written. -/
  | cannotWrite (path : String) (cause : FileError)
  /-- The file to highlight cannot be read. -/
  | cannotRead (path : String) (cause : FileError)
  /-- The settings do not amount to a configuration. -/
  | settings (e : SettingsError)
  /-- A cursor or a region does not exist in the file. -/
  | buffer (e : BufferError)
  /-- The file cannot be highlighted. -/
  | highlight (e : HighlightError)
  deriving Repr, DecidableEq

/-- What a file error causes, from the outside in. -/
def FileError.causes (e : FileError) : List String := [s!"IO error: {e.message}", e.message]

/-- What a load error causes, from the outside in. -/
def LoadError.causes : LoadError → List String
  | file e => e.causes
  | unreadable => ["Parse error: not a settings document", "not a settings document"]

namespace CommandError

/-- The wording of an error, without its causes. -/
def message : CommandError → String
  | noCursor => "At least one --cursor is required"
  | noConfigDirectory => "Config directory not found"
  | cannotLoad path _ => s!"Failed to load settings from {path}"
  | cannotWrite path _ => s!"Failed to write {path}"
  | cannotRead path _ => s!"Failed to read {path}"
  | settings e => e.message
  | buffer e => e.message
  | highlight e => e.message

/-- The causes of an error, from the outside in. -/
def causes : CommandError → List String
  | cannotLoad _ cause => cause.causes
  | cannotWrite _ cause => cause.causes
  | cannotRead _ cause => cause.causes
  | _ => []

/-- The fault behind an error, if there is one. -/
def fault? : CommandError → Option Fault
  | settings e => e.fault?
  | highlight e => e.fault?
  | _ => none

/-- The lines of causes; they are numbered if there are several. -/
def causeLines : List String → String
  | [] => ""
  | [cause] => s!"\nCaused by:\n    {cause}\n"
  | causes =>
    "\nCaused by:\n" ++ String.join
      (causes.zipIdx.map fun (cause, number) => s!"    {number}: {cause}\n")

/-- The report of an error and its causes. -/
def report (e : CommandError) : String := s!"Error: {e.message}\n{causeLines e.causes}"

end CommandError

/-! ### What is printed -/

/-- One line for a painted region: where it starts and stops, its offsets, its shade, its text. -/
def strokeLine (b : Buffer) (stroke : Stroke) : Except BufferError String := do
  let start ← b.positionOf stroke.1.start
  let stop ← b.positionOf stroke.1.stop
  let text ← b.slice stroke.1.start stroke.1.stop
  let quoted := String.ofList (Text.quote text.toList)
  return "\t".intercalate
    [s!"{start.display}-{stop.display}", stroke.1.display, stroke.2.scopeName, quoted] ++ "\n"

/-- One line for each painted region, by place. -/
def planLines (b : Buffer) (p : Plan) : Except BufferError String := do
  return String.join (← p.spans.mapM (strokeLine b))

/-- A region as JSON. -/
def regionJson (r : Region) : Text.Json :=
  .object [("begin", .number r.start), ("end", .number r.stop)]

/-- A shade as JSON. -/
def shadeJson (s : Shade) : Text.Json :=
  .object [("foreground", .string s.foreground.display),
    ("background", .string s.background.display)]

/-- A plan as JSON. -/
def planJson (p : Plan) : Text.Json :=
  .object [("entries", .array (p.entries.map fun e => .object
    [("scope", .string e.scope), ("color", shadeJson e.shade),
      ("regions", .array (e.regions.map regionJson))]))]

/-! ### The work -/

/-- The syntax of files with an extension. -/
def syntaxOfExtension? (ext : String) : Option String :=
  [("lisp", "lisp"), ("lsp", "lisp"), ("cl", "lisp"), ("el", "elisp"), ("scm", "scheme"),
    ("ss", "scheme"), ("rkt", "racket"), ("clj", "clojure"), ("cljs", "clojure"),
    ("cljc", "clojure"), ("edn", "clojure"), ("rs", "rust"), ("c", "c"), ("h", "c"), ("cc", "cpp"),
    ("cpp", "cpp"), ("hpp", "cpp"), ("java", "java"), ("js", "javascript"), ("mjs", "javascript"),
    ("go", "go")].lookup ext

/-- The syntax of a file: the one that was asked for, or that of its extension. -/
def syntaxFor (asked : Option String) (path : String) : Option String :=
  asked.or ((extension? path).bind syntaxOfExtension?)

/-- The user's settings file, in the directory for such files. -/
def defaultPath (configHome : String) : String := s!"{configHome}/nestlight/config.toml"

/-- The offset of a cursor. -/
def cursorOffset (b : Buffer) : CursorSpec → Except BufferError Nat
  | .offset n => .ok n
  | .position p => b.offsetOf p

/-- The plan for a text, and what is printed of it. -/
def printPlan (text : String) (config : Configuration) (syntaxName : Option String)
    (cursors : List CursorSpec) (json : Bool) : Except CommandError String := do
  let rules := (syntaxName.map LexicalRules.forSyntax).getD .lisp
  let plain := Buffer.ofString text
  let b := (plain.annotate rules).getD plain
  let offsets ← (cursors.mapM (cursorOffset b)).mapError .buffer
  let plan ← (b.highlight config offsets).mapError .highlight
  if json then return (planJson plan).pretty ++ "\n"
  else (planLines b plan).mapError .buffer

section

variable {m : Type → Type} [Monad m] (files : Files m) (configHome : Option String)

/-- The settings of a file. -/
def loadFrom (path : String) : m (Except LoadError Settings) := do
  match ← files.readText path with
  | .error e => return .error (.file e)
  | .ok text =>
    match Settings.read? text with
    | some settings => return .ok settings
    | none => return .error .unreadable

/-- The settings of the file that was asked for, or else those of the user, or else the default. -/
def loadSettings (asked : Option String) : ExceptT CommandError m Settings := do
  match asked, configHome with
  | some path, _ =>
    match ← ExceptT.lift (loadFrom files path) with
    | .ok settings => return settings
    | .error e => throw (.cannotLoad path e)
  | none, some directory =>
    match ← ExceptT.lift (loadFrom files (defaultPath directory)) with
    | .ok settings => return settings
    | .error _ => return {}
  | none, none => return {}

/-- Writes the default settings into the file that was asked for, or into the user's own. -/
def writeDefaults (asked : Option String) : ExceptT CommandError m String := do
  match asked.or (configHome.map defaultPath) with
  | none => throw .noConfigDirectory
  | some path =>
    match ← ExceptT.lift (files.write path ({} : Settings).write) with
    | .ok () => return s!"Wrote default settings to {path}\n"
    | .error e => throw (.cannotWrite path e)

/-- Highlights the file that the arguments name. -/
def highlightFile (a : Arguments) (path : String) : ExceptT CommandError m String := do
  if a.cursors.isEmpty then throw .noCursor
  let syntaxName := syntaxFor a.syntaxName path
  let settings ← loadSettings files configHome a.config
  let config ← (settings.resolve syntaxName).mapError CommandError.settings
  let config := { config with scanRadius := a.radius.getD config.scanRadius }
  match ← ExceptT.lift (files.readText path) with
  | .error e => throw (.cannotRead path e)
  | .ok text => printPlan text config syntaxName a.cursors a.json

/-- Does what the arguments ask for. -/
def perform (a : Arguments) : ExceptT CommandError m String :=
  match a.initConfig, a.file with
  | false, some path => highlightFile files configHome a path
  | _, _ => writeDefaults files configHome a.config

/-- What the command leaves behind when it ends. -/
structure Outcome where
  /-- The exit code. -/
  exit : Nat
  /-- What was printed. -/
  stdout : String := ""
  /-- What was printed about errors. -/
  stderr : String := ""
  deriving Repr, DecidableEq

/-- The name and the version of the command. -/
def versionText : String := "nestlight 0.1.0\n"

/-- How the command is used. -/
def helpText : String :=
  "Usage: nestlight [OPTIONS] [FILE]\n\nOptions: --cursor <CURSOR>, --config <PATH>, " ++
  "--syntax <NAME>, --radius <N>, --json, --init-config, --verbose, --help, --version\n"

/-- The outcome of the work. A fault ends the command at once. -/
def Outcome.ofResult : Except CommandError String → Outcome
  | .ok printed => { exit := 0, stdout := printed }
  | .error e =>
    match e.fault? with
    | some f => { exit := 101, stderr := f.message ++ "\n" }
    | none => { exit := 1, stderr := e.report }

/-- Runs the command. -/
def run (arguments : List String) : m Outcome := do
  match Request.ofArguments arguments with
  | .error e => return { exit := 2, stderr := s!"error: {e.message}\n" }
  | .ok .version => return { exit := 0, stdout := versionText }
  | .ok .help => return { exit := 0, stdout := helpText }
  | .ok (.work a) => return .ofResult (← (perform files configHome a).run)

end

end BracketPaint.CommandLine
