import BracketPaint.Settings.Basic
import BracketPaint.Toml.Writer
/-!
# Writing settings

Settings are written as a settings document. The keys that all settings have and the sections of the
theme and of the kinds are always written; all others only where they are set. Overrides, and lists
that extend other lists, are written where they are not empty. Colours keep their spelling.
-/

namespace BracketPaint

namespace Settings

open Toml (Value Entries)

/-- An entry of a key that may be unset. -/
def entryOf {α : Type} (key : String) (write : α → Value) : Option α → Entries
  | none => []
  | some a => [(key, write a)]

/-- An entry of a list that may be left out where it is empty. -/
def entryOfList {α : Type} (key : String) (write : List α → Value) (as : List α) : Entries :=
  if as.isEmpty then [] else [(key, write as)]

/-- A list of texts. -/
def ofStrings (texts : List String) : Value := .array (texts.map .string)

/-- A list of pairs of brackets. -/
def ofPairs (pairs : List BracketPair) : Value :=
  .array (pairs.map fun pair => ofStrings [pair.left, pair.right])

/-- A number. -/
def ofNat (n : Nat) : Value := .integer n

/-- A written colour. -/
def ofColor : ColorSpec → Value
  | .integer n => .integer n
  | .text written => .string written

/-- A table of colours. -/
def ofColorPair (p : ColorPairSpec) : Value :=
  .table (entryOf "foreground" ofColor p.foreground ++ entryOf "background" ofColor p.background)

/-- The section of a kind. -/
def ofKind (s : KindSettings) : Value :=
  .table <|
    entryOf "enabled" .boolean s.enabled ++
    entryOf "mode" (fun mode => .string mode.name) s.mode ++
    entryOf "color" ofColorPair s.color ++
    entryOf "colors" (fun colors => .array (colors.map ofColorPair)) s.colors ++
    entryOf "depth_limit" ofNat s.depthLimit ++
    entryOf "side" (fun side => .string side.name) s.side

/-- The section of the base colours. -/
def ofTheme (t : ThemeSettings) : Value :=
  .table <|
    entryOf "text" ofColor t.text ++
    entryOf "background" ofColor t.background ++
    entryOf "current_line" ofColor t.currentLine

/-- The sections of all kinds. -/
def ofKinds (kinds : PerKind KindSettings) : Entries :=
  [("primary", ofKind kinds.primary), ("secondary", ofKind kinds.secondary),
    ("offside", ofKind kinds.offside), ("adjacent", ofKind kinds.adjacent),
    ("inconsistent", ofKind kinds.inconsistent)]

/-- The syntaxes of an override. -/
def ofSyntaxNames : SyntaxNames → Value
  | .one name => .string name
  | .many names => ofStrings names

/-- An override. -/
def ofOverride (o : Override) : Value :=
  .table <|
    [("syntax", ofSyntaxNames o.syntaxes)] ++
    entryOf "brackets" ofPairs o.brackets ++
    entryOfList "additional_brackets" ofPairs o.additionalBrackets ++
    entryOf "scope_blacklist" ofStrings o.scopeBlacklist ++
    entryOfList "additional_scope_blacklist" ofStrings o.additionalScopeBlacklist ++
    entryOf "enabled" .boolean o.enabled ++
    entryOf "scan_radius" ofNat o.scanRadius ++
    ofKinds o.kinds

/-- The entries of the whole document. -/
def toEntries (s : Settings) : Entries :=
  [("enabled", .boolean s.enabled), ("brackets", ofPairs s.brackets),
    ("scope_blacklist", ofStrings s.scopeBlacklist), ("scan_radius", ofNat s.scanRadius),
    ("theme", ofTheme s.theme)] ++
  ofKinds s.kinds ++
  entryOfList "overrides" (fun overrides => .array (overrides.map ofOverride)) s.overrides

/-- The settings document. -/
def write (s : Settings) : String := Toml.write s.toEntries

end Settings
end BracketPaint
