import BracketPaint.Settings.Basic
/-!
# From settings to a configuration

Settings are resolved for one syntax, or for none, in two steps. First the overrides that cover the
syntax are laid over the settings in their order, and no override is left (`Settings.forSyntax`).
Then the result is checked and completed by the default configuration (`Settings.toConfiguration`).

Of the keys of a kind, each takes the last value that is set, but that `color` and `colors` are
taken together. Lists of brackets and of the blacklist may be replaced and then extended.

The checks come in a fixed order, and the first that fails gives the error: brackets; keys that a
kind does not have; colours, kind by kind and then those of the theme; limits.
-/

namespace BracketPaint

/-- What can be wrong with settings. -/
inductive SettingsError where
  /-- A colour is not written as one. -/
  | color (e : ColorError)
  /-- A base colour is transparent. -/
  | transparentBase (name : String)
  /-- A kind has one colour and a list of colours. -/
  | conflict (kind : Kind)
  /-- A kind has a key that has no meaning for it. -/
  | unexpectedKey (kind : Kind) (key : String)
  /-- A kind has a list of no colours. -/
  | emptyColors (kind : Kind)
  /-- A kind has the limit zero. -/
  | invalidDepthLimit (kind : Kind)
  /-- A bracket is the empty text. -/
  | emptyBracket
  deriving Repr, DecidableEq

/-- The wording of an error. -/
def SettingsError.message : SettingsError → String
  | color e => e.message
  | transparentBase name => s!"Base color '{name}' must not be transparent"
  | conflict kind => s!"[{kind.name}] sets both 'color' and 'colors'"
  | unexpectedKey kind key => s!"[{kind.name}] does not accept '{key}'"
  | emptyColors kind => s!"[{kind.name}] colors must not be empty"
  | invalidDepthLimit kind => s!"[{kind.name}] depth_limit must be positive"
  | emptyBracket => "Bracket strings must not be empty"

/-- The fault behind an error, if there is one. -/
def SettingsError.fault? : SettingsError → Option Fault
  | color e => e.fault?
  | _ => none

/-! ### Overrides -/

namespace KindSettings

/-- The settings with others laid over them. -/
def overlay (below above : KindSettings) : KindSettings :=
  let source := if above.color.isSome ∨ above.colors.isSome then above else below
  { enabled := above.enabled.or below.enabled
    mode := above.mode.or below.mode
    color := source.color
    colors := source.colors
    depthLimit := above.depthLimit.or below.depthLimit
    side := above.side.or below.side }

end KindSettings

namespace Settings

/-- The settings with an override laid over them. -/
def overlay (s : Settings) (o : Override) : Settings :=
  { s with
    enabled := o.enabled.getD s.enabled
    scanRadius := o.scanRadius.getD s.scanRadius
    brackets := o.brackets.getD s.brackets ++ o.additionalBrackets
    scopeBlacklist := o.scopeBlacklist.getD s.scopeBlacklist ++ o.additionalScopeBlacklist
    kinds := .zipWith .overlay s.kinds o.kinds }

/-- The overrides that cover a syntax; none does if there is no syntax. -/
def applicable (s : Settings) (syntaxName : Option String) : List Override :=
  s.overrides.filter fun o => syntaxName.any o.syntaxes.covers

/-- The settings for a syntax, without overrides. -/
def forSyntax (s : Settings) (syntaxName : Option String) : Settings :=
  { (s.applicable syntaxName).foldl overlay s with overrides := [] }

end Settings

/-! ### Colours -/

/-- A colour that may be left out. -/
def parseColor : Option ColorSpec → Except SettingsError Color
  | none => .ok .transparent
  | some spec => spec.parse.mapError .color

/-- The colours of a pair; one that is left out is transparent. -/
def ColorPairSpec.parse (p : ColorPairSpec) : Except SettingsError ColorPair := do
  return ⟨← parseColor p.foreground, ← parseColor p.background⟩

/-- A colour that must be opaque, under the name that is given in an error. -/
def ColorSpec.parseBase (name : String) (spec : ColorSpec) : Except SettingsError Rgb := do
  match ← spec.parse.mapError .color with
  | .solid c => return c
  | .transparent => throw (.transparentBase name)

/-- A base colour that may be left out. -/
def baseColor (name : String) (fallback : Rgb) : Option ColorSpec → Except SettingsError Rgb
  | none => .ok fallback
  | some spec => spec.parseBase name

namespace KindSettings

/-- The colours of a kind without levels. -/
def singleColor (s : KindSettings) (kind : Kind) (fallback : ColorPair) :
    Except SettingsError ColorPair :=
  if s.colors.isSome then .error (.unexpectedKey kind "colors")
  else match s.color with
    | some color => color.parse
    | none => .ok fallback

/-- The colours of a kind with levels. -/
def colorList (s : KindSettings) (kind : Kind) (fallback : List ColorPair) :
    Except SettingsError (List ColorPair) :=
  match s.color, s.colors with
  | some _, some _ => .error (.conflict kind)
  | some color, none => color.parse.map ([·])
  | none, some [] => .error (.emptyColors kind)
  | none, some colors => colors.mapM ColorPairSpec.parse
  | none, none => .ok fallback

/-! ### Other keys -/

/-- Refuses the keys that a kind does not have. -/
def reject (s : KindSettings) (kind : Kind) (depthLimit side : Bool) :
    Except SettingsError Unit :=
  if depthLimit ∧ s.depthLimit.isSome then .error (.unexpectedKey kind "depth_limit")
  else if side ∧ s.side.isSome then .error (.unexpectedKey kind "side")
  else .ok ()

/-- The last level of a kind that is painted. -/
def limit (s : KindSettings) (kind : Kind) (fallback : Option Nat) :
    Except SettingsError (Option Nat) :=
  match s.depthLimit with
  | some 0 => .error (.invalidDepthLimit kind)
  | some level => .ok (some level)
  | none => .ok fallback

/-- How much of a kind is painted. -/
def modeOr (s : KindSettings) (fallback : PaintMode) : PaintMode :=
  if s.enabled = some false then .none else s.mode.getD fallback

end KindSettings

/-! ### Resolution -/

namespace Settings

/-- No bracket is the empty text. -/
def checkBrackets (s : Settings) : Except SettingsError Unit :=
  if s.brackets.any fun pair => pair.left.isEmpty || pair.right.isEmpty then .error .emptyBracket
  else .ok ()

/-- No kind has a key that it does not know. -/
def checkKeys (s : Settings) : Except SettingsError Unit := do
  s.kinds.primary.reject .primary true true
  s.kinds.secondary.reject .secondary false true
  s.kinds.offside.reject .offside false true
  s.kinds.adjacent.reject .adjacent true false
  s.kinds.inconsistent.reject .inconsistent true true

/-- The colours that the settings amount to. -/
def palette (s : Settings) : Except SettingsError Palette := do
  let base := Palette.default
  return {
    primary := ← s.kinds.primary.singleColor .primary base.primary
    secondary := ← s.kinds.secondary.colorList .secondary base.secondary
    offside := ← s.kinds.offside.colorList .offside base.offside
    adjacent := ← s.kinds.adjacent.singleColor .adjacent base.adjacent
    inconsistent := ← s.kinds.inconsistent.singleColor .inconsistent base.inconsistent
    text := ← baseColor "text" base.text s.theme.text
    background := ← baseColor "background" base.background s.theme.background
    currentLine := ← baseColor "current_line" base.currentLine s.theme.currentLine }

/-- The configuration that settings without overrides amount to. -/
def toConfiguration (s : Settings) : Except SettingsError Configuration := do
  let base := Configuration.default
  s.checkBrackets
  s.checkKeys
  let colors ← s.palette
  let secondaryLimit ← s.kinds.secondary.limit .secondary base.secondaryLimit
  let offsideLimit ← s.kinds.offside.limit .offside base.offsideLimit
  return {
    enabled := s.enabled
    brackets := s.brackets
    scopeBlacklist := s.scopeBlacklist
    scanRadius := s.scanRadius
    modes := .zipWith KindSettings.modeOr s.kinds base.modes
    secondaryLimit
    offsideLimit
    adjacentSide := s.kinds.adjacent.side.getD base.adjacentSide
    colors }

/-- The configuration for a syntax, or for none. -/
def resolve (s : Settings) (syntaxName : Option String) : Except SettingsError Configuration :=
  (s.forSyntax syntaxName).toConfiguration

end Settings
end BracketPaint
