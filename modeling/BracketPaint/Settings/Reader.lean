import BracketPaint.Settings.Basic
import BracketPaint.Toml.Document
/-!
# Reading settings

Settings are read from a settings document. A key that is left out takes its default; a key that no
section knows, or a value of the wrong sort, makes the whole document unreadable. Two things are
less strict: a table of colours may have other keys, and a pair of brackets may have more items,
which are not looked at.

A section may also be written as an array, which gives its keys in their order, from the first on.
A choice among words may be written as a table whose only key is the word and whose value is empty.
A date stands for a table with a key that no section knows.
-/

namespace BracketPaint

namespace Settings

open Toml (Value)

/-! ### Sections -/

/-- The keys of a section with their values, and what a key has that is left out: nothing. A strict
section has no other keys than the given ones. -/
def fields? (keys : List String) (strict : Bool) : Value → Option (String → Option Value)
  | .table entries =>
    if strict ∧ ∃ entry ∈ entries, entry.1 ∉ keys then none
    else some fun key => entries.lookup key
  | .array items => some fun key => (keys.zip items).lookup key
  | .dateTime _ => if strict then none else some fun _ => none
  | _ => none

/-- A value that may be left out. -/
def optional {α : Type} (read : Value → Option α) : Option Value → Option (Option α)
  | none => some none
  | some v => (read v).map some

/-- A value with a default. -/
def withDefault {α : Type} (fallback : α) (read : Value → Option α) : Option Value → Option α
  | none => some fallback
  | some v => read v

/-! ### Values -/

/-- A truth value. -/
def bool? : Value → Option Bool
  | .boolean b => some b
  | _ => none

/-- A text. -/
def string? : Value → Option String
  | .string text => some text
  | _ => none

/-- A number below a limit that is not negative. -/
def nat? (limit : Nat) : Value → Option Nat
  | .integer n => if 0 ≤ n ∧ n < limit then some n.toNat else none
  | _ => none

/-- A list of values. -/
def list? {α : Type} (read : Value → Option α) : Value → Option (List α)
  | .array items => items.mapM read
  | _ => none

/-- The value says nothing. -/
def isVoid : Value → Bool
  | .table [] | .array [] => true
  | _ => false

/-- One of several words. -/
def choice? {α : Type} (choices : List (String × α)) : Value → Option α
  | .string word => choices.lookup word
  | .table [(word, v)] => if isVoid v then choices.lookup word else none
  | _ => none

/-- A mode, by its name. -/
def mode? : Value → Option PaintMode :=
  choice? [("none", .none), ("brackets", .brackets), ("expression", .expression)]

/-- A side, by its name. -/
def side? : Value → Option AdjacentSide :=
  choice? [("none", .none), ("left", .left), ("right", .right), ("both", .both)]

/-- A pair of brackets: the first two items of a list. -/
def bracketPair? : Value → Option BracketPair
  | .array (.string left :: .string right :: _) => some ⟨left, right⟩
  | _ => none

/-- A written colour. -/
def color? : Value → Option ColorSpec
  | .integer n => some (.integer n)
  | .string text => some (.text text)
  | _ => none

/-- The syntaxes of an override. -/
def syntaxNames? : Value → Option SyntaxNames
  | .string name => some (.one name)
  | v => (list? string? v).map .many

/-! ### Records -/

/-- A table of colours. -/
def colorPair? (v : Value) : Option ColorPairSpec := do
  let field ← fields? ["foreground", "background"] false v
  return {
    foreground := ← optional color? (field "foreground")
    background := ← optional color? (field "background") }

/-- The section of a kind. -/
def kind? (v : Value) : Option KindSettings := do
  let field ← fields? ["enabled", "mode", "color", "colors", "depth_limit", "side"] true v
  return {
    enabled := ← optional bool? (field "enabled")
    mode := ← optional mode? (field "mode")
    color := ← optional colorPair? (field "color")
    colors := ← optional (list? colorPair?) (field "colors")
    depthLimit := ← optional (nat? Text.levelLimit) (field "depth_limit")
    side := ← optional side? (field "side") }

/-- The section of the base colours. -/
def theme? (v : Value) : Option ThemeSettings := do
  let field ← fields? ["text", "background", "current_line"] true v
  return {
    text := ← optional color? (field "text")
    background := ← optional color? (field "background")
    currentLine := ← optional color? (field "current_line") }

/-- The names of the sections of kinds. -/
def kindKeys : List String := ["primary", "secondary", "offside", "adjacent", "inconsistent"]

/-- The sections of all kinds. -/
def kinds? (field : String → Option Value) : Option (PerKind KindSettings) := do
  return {
    primary := ← withDefault {} kind? (field "primary")
    secondary := ← withDefault {} kind? (field "secondary")
    offside := ← withDefault {} kind? (field "offside")
    adjacent := ← withDefault {} kind? (field "adjacent")
    inconsistent := ← withDefault {} kind? (field "inconsistent") }

/-- An override; its syntaxes may not be left out. -/
def override? (v : Value) : Option Override := do
  let keys := ["syntax", "brackets", "additional_brackets", "scope_blacklist",
    "additional_scope_blacklist", "enabled", "scan_radius"]
  let field ← fields? (keys ++ kindKeys) true v
  return {
    syntaxes := ← syntaxNames? (← field "syntax")
    brackets := ← optional (list? bracketPair?) (field "brackets")
    additionalBrackets := ← withDefault [] (list? bracketPair?) (field "additional_brackets")
    scopeBlacklist := ← optional (list? string?) (field "scope_blacklist")
    additionalScopeBlacklist :=
      ← withDefault [] (list? string?) (field "additional_scope_blacklist")
    enabled := ← optional bool? (field "enabled")
    scanRadius := ← optional (nat? Text.wordLimit) (field "scan_radius")
    kinds := ← kinds? field }

/-- Settings, from the value of a whole document. -/
def ofValue? (v : Value) : Option Settings := do
  let base : Settings := {}
  let keys := ["enabled", "brackets", "scope_blacklist", "scan_radius", "theme"]
  let field ← fields? (keys ++ kindKeys ++ ["overrides"]) true v
  return {
    enabled := ← withDefault base.enabled bool? (field "enabled")
    brackets := ← withDefault base.brackets (list? bracketPair?) (field "brackets")
    scopeBlacklist := ← withDefault base.scopeBlacklist (list? string?) (field "scope_blacklist")
    scanRadius := ← withDefault base.scanRadius (nat? Text.wordLimit) (field "scan_radius")
    theme := ← withDefault {} theme? (field "theme")
    kinds := ← kinds? field
    overrides := ← withDefault [] (list? override?) (field "overrides") }

/-- Reads a settings document. -/
def read? (text : String) : Option Settings := do
  ofValue? (.table (← Toml.read? text))

end Settings
end BracketPaint
