import BracketPaint.Plan
import BracketPaint.Scope.Pairing
import BracketPaint.Settings.Resolution
import BracketPaint.Span.Coloring
import BracketPaint.Span.Disjoint
import BracketPaint.Vicinity
/-!
# Highlighting passes

A pass goes from a buffer and its cursors to a plan. In each region that it examines it finds the
brackets, gives them nesting indices, puts them together to scopes, turns the scopes into spans,
cuts the spans apart, and shades them; the strokes of all regions make up the plan.
-/

namespace BracketPaint

/-- What keeps a pass from giving a plan. -/
inductive HighlightError where
  /-- A promise between two steps was broken. -/
  | fault (f : Fault)
  /-- The indices of the cursors do not fit together. -/
  | nesting (e : NestingError)
  /-- A cursor lies behind the end of the buffer. -/
  | cursorOutOfBounds (cursor size : Nat)
  /-- A position does not exist in the buffer. -/
  | buffer (e : BufferError)
  /-- The settings do not amount to a configuration. -/
  | settings (e : SettingsError)
  deriving Repr, DecidableEq

namespace HighlightError

/-- The wording of an error. -/
def message : HighlightError → String
  | fault f => f.message
  | nesting e => e.message
  | cursorOutOfBounds cursor size =>
    s!"Cursor {cursor} is past the end of the buffer ({size} chars)"
  | buffer e => s!"Buffer error: {e.message}"
  | settings e => s!"Config error: {e.message}"

/-- The fault behind an error, if there is one. -/
def fault? : HighlightError → Option Fault
  | fault f => some f
  | settings e => e.fault?
  | _ => none

end HighlightError

/-- The configuration of settings for a syntax, as a pass asks for it. -/
def Settings.forPass (s : Settings) (syntaxName : Option String) :
    Except HighlightError Configuration :=
  (s.resolve syntaxName).mapError .settings

namespace Buffer

/-- The scopes that the brackets of a region form around the given cursors. -/
def scopesIn (b : Buffer) (config : Configuration) (e : ExaminedRegion) :
    Except NestingError (List Scope) := do
  let brackets := b.brackets config.brackets (scopeAllowed config.scopeBlacklist) e.region
  let indices ← mergeIndices (e.cursors.map (nestingIndices brackets))
  return pairBrackets brackets indices

/-- The spans to paint for scopes, cut apart and with their bases below them. -/
def spansOf (config : Configuration) (lines : List Region) (cursors : List Nat)
    (scopes : List Scope) : Except Fault (List Span) := do
  let spans ← colorScopes config config.brackets cursors scopes
  return prependBackground lines (← splitDisjoint spans lines)

/-- The stroke of a span. -/
def strokeOf (config : Configuration) (span : Span) : Except Fault Stroke := do
  return (span.extent, ← span.shade config.colors)

/-- The strokes of one examined region. -/
def strokesIn (b : Buffer) (config : Configuration) (lines : List Region) (e : ExaminedRegion) :
    Except HighlightError (List Stroke) := do
  let scopes ← (b.scopesIn config e).mapError .nesting
  let spans ← (spansOf config lines e.cursors scopes).mapError .fault
  (spans.mapM (strokeOf config)).mapError .fault

/-- The plan for cursors that are offsets into the buffer. -/
def highlight (b : Buffer) (config : Configuration) (cursors : List Nat) :
    Except HighlightError Plan :=
  if config.enabled then
    match cursors.find? (b.size < ·) with
    | some cursor => .error (.cursorOutOfBounds cursor b.size)
    | none => do
      let cursors := normalizeCursors cursors
      let examined := examinedRegions config.scanRadius b.size cursors
      let lines := currentLines b cursors
      let strokes ← examined.mapM (b.strokesIn config lines)
      return Plan.ofStrokes strokes.flatten
  else .ok {}

/-- The plan for cursors that are positions in the buffer. -/
def highlightPositions (b : Buffer) (config : Configuration) (positions : List Position) :
    Except HighlightError Plan := do
  let cursors ← (positions.mapM b.offsetOf).mapError .buffer
  b.highlight config cursors

end Buffer
end BracketPaint
