import BracketPaint.Color.Spec
import BracketPaint.Configuration
/-!
# Settings

**Settings** are what a user writes down to change the configuration. Nearly everything may be left
out. Settings may hold **overrides**, which apply to some syntaxes only.

Settings say what was written, not what it means: colours keep their spelling, and a key may be set
for a kind that does not have it. What they amount to, and what is wrong with them, is told in
`BracketPaint.Settings.Resolution`.
-/

namespace BracketPaint

/-- The colours of a kind, as they are written. -/
structure ColorPairSpec where
  /-- The colour of the characters. -/
  foreground : Option ColorSpec := none
  /-- The colour behind them. -/
  background : Option ColorSpec := none
  deriving Repr, DecidableEq

/-- The settings of a kind of scopes. -/
structure KindSettings where
  /-- Whether scopes of the kind are painted. -/
  enabled : Option Bool := none
  /-- How much of them is painted. -/
  mode : Option PaintMode := none
  /-- Their colours, if all levels have the same. -/
  color : Option ColorPairSpec := none
  /-- Their colours, level by level. -/
  colors : Option (List ColorPairSpec) := none
  /-- The last level that is painted. -/
  depthLimit : Option Nat := none
  /-- The side at which a cursor has to stand. -/
  side : Option AdjacentSide := none
  deriving Repr, DecidableEq

/-- The settings of the base colours. -/
structure ThemeSettings where
  /-- The colour of plain text. -/
  text : Option ColorSpec := none
  /-- The colour behind everything. -/
  background : Option ColorSpec := none
  /-- The colour behind the lines that hold cursors. -/
  currentLine : Option ColorSpec := none
  deriving Repr, DecidableEq

/-- The syntaxes that an override applies to. -/
inductive SyntaxNames where
  /-- A single one. -/
  | one (name : String)
  /-- Several, in a list. -/
  | many (names : List String)
  deriving Repr, DecidableEq

namespace SyntaxNames

/-- The names in a list. -/
def toList : SyntaxNames → List String
  | one name => [name]
  | many names => names

/-- The syntax is one of these, ASCII letters being equal in either case. -/
def covers (names : SyntaxNames) (syntaxName : String) : Bool :=
  names.toList.any fun name =>
    name.toList.map Char.toLower == syntaxName.toList.map Char.toLower

end SyntaxNames

/-- Settings that apply to some syntaxes only. -/
structure Override where
  /-- The syntaxes. -/
  syntaxes : SyntaxNames
  /-- Takes the place of the list of brackets. -/
  brackets : Option (List BracketPair) := none
  /-- Is added to the list of brackets. -/
  additionalBrackets : List BracketPair := []
  /-- Takes the place of the blacklist. -/
  scopeBlacklist : Option (List String) := none
  /-- Is added to the blacklist. -/
  additionalScopeBlacklist : List String := []
  /-- Whether anything is painted at all. -/
  enabled : Option Bool := none
  /-- How far to look on each side of a cursor. -/
  scanRadius : Option Nat := none
  /-- The settings of each kind. -/
  kinds : PerKind KindSettings := .replicate {}
  deriving Repr, DecidableEq

/-- All settings of a user. -/
structure Settings where
  /-- Whether anything is painted at all. -/
  enabled : Bool := Configuration.default.enabled
  /-- The brackets to look for. -/
  brackets : List BracketPair := Configuration.default.brackets
  /-- Where not to look for them. -/
  scopeBlacklist : List String := Configuration.default.scopeBlacklist
  /-- How far to look on each side of a cursor. -/
  scanRadius : Nat := Configuration.default.scanRadius
  /-- The base colours. -/
  theme : ThemeSettings := {}
  /-- The settings of each kind. -/
  kinds : PerKind KindSettings := .replicate {}
  /-- What applies to some syntaxes only. -/
  overrides : List Override := []
  deriving Repr, DecidableEq

end BracketPaint
