import BracketPaint.Scope.Role
/-!
# Spans

A **span** is a region that is to be painted in the colours of a role. Below it lie layers,
outermost first, whose backgrounds show where the role has none of its own.

At the bottom of every span lies an opaque layer, its **base**: that of the current line, if the
span lies wholly in the lines that hold cursors, or else the background of the text.
-/

namespace BracketPaint

/-- A background that a span may lie on. -/
inductive Layer where
  /-- The background of the text. -/
  | background
  /-- The background of a line that holds a cursor. -/
  | currentLine
  /-- The background of a scope. -/
  | scope (role : Role)
  deriving Repr, DecidableEq

/-- A region that is painted in the colours of a role. -/
structure Span where
  /-- What is painted. -/
  extent : Region
  /-- The role whose colours are taken. -/
  foreground : Role
  /-- The layers below, outermost first. -/
  background : List Layer
  deriving Repr, DecidableEq

/-! ### The base of a span -/

namespace Span

/-- The layer at the bottom of a span. -/
def base (lines : List Region) (span : Span) : Layer :=
  if ∃ line ∈ lines, line.Contains span.extent then .currentLine else .background

/-- The span with its base put below its layers. -/
def withBase (lines : List Region) (span : Span) : Span :=
  { span with background := span.base lines :: span.background }

end Span

/-- Puts its base below each span. -/
def prependBackground (lines : List Region) (spans : List Span) : List Span :=
  spans.map (Span.withBase lines)

end BracketPaint
