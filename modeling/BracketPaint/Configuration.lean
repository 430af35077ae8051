import BracketPaint.Color.Basic
import BracketPaint.Scope.Role
/-!
# Configurations

A **configuration** is what a highlighting pass goes by: which brackets to look for and where, how
far around a cursor, how scopes of each kind are painted, and in which colours. It is complete;
where it comes from is told in `BracketPaint.Settings.Resolution`.

The base colours are opaque by their type, so that there is always something at the bottom of what
is painted.
-/

namespace BracketPaint

/-- How much of a scope is painted. -/
inductive PaintMode where
  /-- Nothing. -/
  | none
  /-- The two brackets. -/
  | brackets
  /-- Everything from the left bracket to the right one. -/
  | expression
  deriving Repr, DecidableEq

/-- The name of a mode. -/
def PaintMode.name : PaintMode → String
  | none => "none"
  | brackets => "brackets"
  | expression => "expression"

/-- At which bracket a cursor makes a scope adjacent. -/
inductive AdjacentSide where
  | none
  | left
  | right
  | both
  deriving Repr, DecidableEq

namespace AdjacentSide

/-- The name of a side. -/
def name : AdjacentSide → String
  | none => "none"
  | left => "left"
  | right => "right"
  | both => "both"

/-- A cursor at the left bracket counts. -/
abbrev CountsLeft (side : AdjacentSide) : Prop := side = left ∨ side = both

/-- A cursor at the right bracket counts. -/
abbrev CountsRight (side : AdjacentSide) : Prop := side = right ∨ side = both

end AdjacentSide

/-- The colours of all roles, and the base colours. -/
structure Palette where
  /-- The colours of primary scopes. -/
  primary : ColorPair
  /-- The colours of secondary scopes; levels go through them in turn. -/
  secondary : List ColorPair
  /-- The colours of offside scopes; levels go through them in turn. -/
  offside : List ColorPair
  /-- The colours of adjacent scopes. -/
  adjacent : ColorPair
  /-- The colours of inconsistent scopes. -/
  inconsistent : ColorPair
  /-- The colour of text that has none of its own. -/
  text : Rgb
  /-- The colour behind everything. -/
  background : Rgb
  /-- The colour behind the lines that hold cursors. -/
  currentLine : Rgb
  deriving Repr, DecidableEq

/-- What a highlighting pass goes by. -/
structure Configuration where
  /-- Whether anything is painted at all. -/
  enabled : Bool
  /-- The brackets to look for; of two that stand at one offset, the first counts. -/
  brackets : List BracketPair
  /-- Brackets are not looked for where the name of the offset contains one of these. -/
  scopeBlacklist : List String
  /-- How far to look on each side of a cursor. -/
  scanRadius : Nat
  /-- How much is painted of the scopes of each kind. -/
  modes : PerKind PaintMode
  /-- The last level of secondary scopes that is painted, if there is one. -/
  secondaryLimit : Option Nat
  /-- The last level of offside scopes that is painted, if there is one. -/
  offsideLimit : Option Nat
  /-- At which bracket a cursor makes a scope adjacent. -/
  adjacentSide : AdjacentSide
  /-- The colours to paint with. -/
  colors : Palette
  deriving Repr, DecidableEq

/-- The colours that are used where none are set. -/
def Palette.default : Palette where
  primary := ⟨.ofNat 0xFFD700, .ofNat 0x3A3520⟩
  secondary := [⟨.transparent, .ofNat 0x2B2838⟩, ⟨.transparent, .ofNat 0x232B36⟩]
  offside :=
    [⟨.ofNat 0xDA70D6, .transparent⟩, ⟨.ofNat 0x32CD32, .transparent⟩,
      ⟨.ofNat 0x1E90FF, .transparent⟩]
  adjacent := ⟨.ofNat 0xFF7F50, .transparent⟩
  inconsistent := ⟨.ofNat 0xFF5555, .ofNat 0x4A1E1E⟩
  text := .ofNat 0xD4D4D4
  background := .ofNat 0x1E1E1E
  currentLine := .ofNat 0x2A2A2A

/-- The configuration that is used where nothing is set. -/
def Configuration.default : Configuration where
  enabled := true
  brackets := [⟨"(", ")"⟩, ⟨"[", "]"⟩, ⟨"\x7b", "\x7d"⟩]
  scopeBlacklist := ["comment", "string"]
  scanRadius := 100
  modes := ⟨.expression, .expression, .brackets, .brackets, .brackets⟩
  secondaryLimit := none
  offsideLimit := some 2
  adjacentSide := .both
  colors := .default

end BracketPaint
