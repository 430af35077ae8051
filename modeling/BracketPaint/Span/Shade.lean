import BracketPaint.Configuration
import BracketPaint.Span.Basic
/-!
# The colours of a span

A **shade** is a pair of opaque colours, what a span is painted with in the end. The foreground is
that of the span's role, or the colour of plain text if that one is transparent. The background is
that of the role, or else that of the innermost layer below that has an opaque one.

Secondary and offside roles go through a list of colours in turn, level by level from the first.
-/

namespace BracketPaint

/-- A pair of opaque colours. -/
structure Shade where
  /-- The colour of the characters. -/
  foreground : Rgb
  /-- The colour behind them. -/
  background : Rgb
  deriving Repr, DecidableEq

namespace Shade

/-- Shades are ordered by their foregrounds, then by their backgrounds. -/
instance : LE Shade where
  le a b := a.foreground.toNat < b.foreground.toNat ∨
    a.foreground.toNat = b.foreground.toNat ∧ a.background.toNat ≤ b.background.toNat

theorem le_def {a b : Shade} : a ≤ b ↔ a.foreground.toNat < b.foreground.toNat ∨
    a.foreground.toNat = b.foreground.toNat ∧ a.background.toNat ≤ b.background.toNat := Iff.rfl

instance {a b : Shade} : Decidable (a ≤ b) :=
  inferInstanceAs (Decidable (a.foreground.toNat < b.foreground.toNat ∨
    a.foreground.toNat = b.foreground.toNat ∧ a.background.toNat ≤ b.background.toNat))

/-- The name under which an editor knows a shade. -/
def scopeName (s : Shade) : String :=
  String.ofList ("nestlight.".toList ++ s.foreground.digits ++ '.' :: s.background.digits)

end Shade

/-- The colours of a level, counted from one, in a list that is gone through in turn. -/
def cycle (colors : List ColorPair) (level : Nat) : Except Fault ColorPair :=
  match colors[(level - 1) % colors.length]? with
  | some pair => .ok pair
  | none => .error .emptyColors

namespace Palette

/-- The colours of a role. -/
def ofRole (colors : Palette) : Role → Except Fault ColorPair
  | .primary => .ok colors.primary
  | .secondary level => cycle colors.secondary level
  | .offside level => cycle colors.offside level
  | .adjacent => .ok colors.adjacent
  | .inconsistent => .ok colors.inconsistent

/-- The background of a layer. -/
def ofLayer (colors : Palette) : Layer → Except Fault Color
  | .background => .ok (.solid colors.background)
  | .currentLine => .ok (.solid colors.currentLine)
  | .scope role => (colors.ofRole role).map (·.background)

/-- The first opaque background in a list of layers, the innermost layer being its head. -/
def firstSolid (colors : Palette) : List Layer → Except Fault Rgb
  | [] => .error .noOpaqueLayer
  | layer :: layers => do
    match ← colors.ofLayer layer with
    | .solid c => return c
    | .transparent => colors.firstSolid layers

end Palette

/-- The shade that a span is painted with. -/
def Span.shade (colors : Palette) (span : Span) : Except Fault Shade := do
  let pair ← colors.ofRole span.foreground
  let background ← match pair.background with
    | .solid c => .ok c
    | .transparent => colors.firstSolid span.background.reverse
  return ⟨pair.foreground.solid?.getD colors.text, background⟩

end BracketPaint
