import BracketPaint.Configuration
import BracketPaint.Span.Basic
/-!
# From scopes to spans

Scopes are taken in the order of their left brackets. A scope is painted if its level is within the
limits, if a cursor stands on the side that is asked for, and if its kind is painted at all; then
it gives one span for each part that the mode of its kind names.

The scopes that were painted as whole expressions and have not been left yet form a stack, and the
spans of a scope lie on the layers of that stack. A scope counts as left once the next one starts
behind the offset where it stops.
-/

namespace BracketPaint

/-- The limits and the sides that the configuration sets let the scope be painted. -/
def Scope.isSuitable (config : Configuration) (cursors : List Nat) (s : Scope) : Role → Bool
  | .offside level => config.offsideLimit.all (level ≤ ·)
  | .secondary level => config.secondaryLimit.all (level ≤ ·)
  | .adjacent =>
    cursors.any fun cursor =>
      (config.adjacentSide.CountsLeft ∧ s.AtLeft cursor) ∨
        (config.adjacentSide.CountsRight ∧ s.AtRight cursor)
  | _ => true

/-- The parts of a scope that a mode paints, its whole expression being given. -/
def Scope.extents (s : Scope) (expression : Region) : PaintMode → List Region
  | .none => []
  | .brackets => s.bracketRegions
  | .expression => [expression]

/-- A scope that was painted as a whole, with the role it plays. -/
structure PaintedScope where
  /-- The region of the whole scope. -/
  region : Region
  /-- The role of the scope. -/
  role : Role
  deriving Repr, DecidableEq

/-- The layers of a stack of scopes, the innermost scope being its head. -/
def layersOf (stack : List PaintedScope) : List Layer :=
  stack.reverse.map fun painted => .scope painted.role

/-- The scopes of a stack that are not left when a region starts. -/
def notLeft (expression : Region) (stack : List PaintedScope) : List PaintedScope :=
  stack.dropWhile (·.region.stop < expression.start)

/-- The spans of scopes that come after those of the stack. -/
def colorFrom (config : Configuration) (supported : List BracketPair) (cursors : List Nat)
    (stack : List PaintedScope) : List Scope → Except Fault (List Span)
  | [] => .ok []
  | s :: scopes => do
    let role ← Role.ofScope supported cursors s
    let mode := config.modes.get role.kind
    if s.isSuitable config cursors role ∧ mode ≠ .none then
      let expression ← s.expressionRegion
      let below := notLeft expression stack
      let spans := (s.extents expression mode).map fun extent => ⟨extent, role, layersOf below⟩
      let stack := if mode = .expression then ⟨expression, role⟩ :: below else below
      return spans ++ (← colorFrom config supported cursors stack scopes)
    else colorFrom config supported cursors stack scopes

/-- The spans of scopes that are given in the order of their left brackets. -/
def colorScopes (config : Configuration) (supported : List BracketPair) (cursors : List Nat)
    (scopes : List Scope) : Except Fault (List Span) :=
  colorFrom config supported cursors [] scopes

end BracketPaint
