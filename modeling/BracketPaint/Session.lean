import BracketPaint.Highlight
import BracketPaint.Settings.Reader
/-!
# Sessions

A **session** is what an editor keeps between two passes: a buffer, a configuration, and the plan of
the last pass, which a new plan replaces as a whole. An editor that knows the comments and strings
of its text pushes them as annotations; from the first one on they take the place of the buffer's
own, in passes whose cursors are offsets.
-/

namespace BracketPaint

/-- A buffer with annotations that an editor may have put in the place of its own. -/
structure Source where
  /-- The text with its own annotations. -/
  buffer : Buffer := {}
  /-- The annotations of the editor. -/
  pushed : Option AnnotationMap := none
  deriving Repr, DecidableEq

namespace Source

/-- The buffer with the annotations of the editor, where there are some. -/
def annotated (s : Source) : Buffer :=
  { s.buffer with annotations := s.pushed.getD s.buffer.annotations }

/-- Adds an annotation to those of the editor. -/
def push (s : Source) (a : Annotation) : Source :=
  { s with pushed := some ((s.pushed.getD ∅).push a) }

/-- The annotations of the editor, in order. -/
def pushedSpans (s : Source) : List Annotation := (s.pushed.getD ∅).spans.toList

end Source

/-- The cursors of a pass. -/
inductive Cursors where
  /-- Offsets into the text. -/
  | offsets (cursors : List Nat)
  /-- Positions in the text. -/
  | positions (positions : List Position)
  deriving Repr, DecidableEq

/-- The plan of a pass over a source. -/
def Source.highlight (s : Source) (config : Configuration) :
    Cursors → Except HighlightError Plan
  | .offsets cursors => s.annotated.highlight config cursors
  | .positions positions => s.buffer.highlightPositions config positions

/-- What an editor keeps between two passes. -/
structure Session where
  /-- The text that is highlighted. -/
  source : Source := {}
  /-- What passes go by. -/
  config : Configuration := .default
  /-- What the last pass painted. -/
  plan : Plan := {}
  deriving Repr, DecidableEq

namespace Session

/-- Runs a pass and keeps its plan. -/
def highlight (s : Session) (cursors : Cursors) : Except HighlightError Session := do
  return { s with plan := ← s.source.highlight s.config cursors }

/-- Goes by other settings from now on. -/
def configure (s : Session) (settings : Settings) (syntaxName : Option String) :
    Except HighlightError Session := do
  return { s with config := ← settings.forPass syntaxName }

end Session
end BracketPaint
