import BracketPaint.Nesting
/-!
# Scopes

A **scope** is a pair of brackets with equal nesting indices, together with that index. Whether its
two texts are a pair that belongs together is another matter, which is asked later.
-/

namespace BracketPaint

/-- Two brackets that were put together. -/
structure Scope where
  /-- The index that both brackets have. -/
  index : NestingIndex
  /-- The bracket that opens. -/
  left : Bracket
  /-- The bracket that closes. -/
  right : Bracket
  deriving Repr, DecidableEq

namespace Scope

/-- The regions of the two brackets. -/
def bracketRegions (s : Scope) : List Region := [s.left.region, s.right.region]

/-- The region from the left bracket to the right one, both included. -/
def expressionRegion (s : Scope) : Except Fault Region :=
  Region.ofBounds s.left.position s.right.region.stop

/-- The cursor stands right before the left bracket or inside it. -/
abbrev AtLeft (s : Scope) (cursor : Nat) : Prop := cursor ∈ s.left.region

/-- The cursor stands inside the right bracket or right behind it. -/
abbrev AtRight (s : Scope) (cursor : Nat) : Prop :=
  s.right.region.start < cursor ∧ cursor ≤ s.right.region.stop

/-- The two brackets are one of the given pairs. -/
abbrev IsConsistent (s : Scope) (supported : List BracketPair) : Prop :=
  ⟨s.left.text, s.right.text⟩ ∈ supported

/-- The scope encloses a cursor immediately. -/
abbrev IsPrimary (s : Scope) : Prop := s.index = .primary

/-- The scope encloses a cursor, but not immediately. -/
abbrev IsSecondary (s : Scope) : Prop := s.index.inner = 0 ∧ s.index.outer ≠ .level 0

/-- The scope lies beside the mainline. -/
abbrev IsOffside (s : Scope) : Prop := 0 < s.index.inner

/-- A cursor stands at one of the two brackets. -/
abbrev IsAdjacent (s : Scope) (cursors : List Nat) : Prop :=
  ∃ cursor ∈ cursors, s.AtLeft cursor ∨ s.AtRight cursor

end Scope
end BracketPaint
