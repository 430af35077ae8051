/-!
# Faults

A **fault** is a broken promise between two parts of the library: a region whose bounds are
reversed, an empty list of colours where one must be picked. No input of a user should lead to one,
so a fault is kept apart from the errors that users can cause. Every function that relies on such a
promise says so in its type, by answering in `Except Fault`, and the proofs that a whole pass is
free of faults have something to be about.
-/

namespace BracketPaint

/-- A promise that a caller broke. -/
inductive Fault where
  /-- A region was to end before it starts. -/
  | reversedRegion (start stop : Nat)
  /-- A colour was to be picked from an empty list. -/
  | emptyColors
  /-- No layer below a span is opaque, so there is no background to paint. -/
  | noOpaqueLayer
  /-- A pair on the way out of the cursors has no outer level. -/
  | unreachableMainline
  /-- A scope has an index that no role is for. -/
  | unclassifiableScope
  /-- A text was to be cut inside the encoding of one of its characters. -/
  | splitCharacter
  deriving Repr, DecidableEq

/-- The wording of a fault. -/
def Fault.message : Fault → String
  | reversedRegion start stop => s!"reversed region {start}..{stop}"
  | emptyColors => "empty color list"
  | noOpaqueLayer =>
    "background stack has no opaque layer; was prepend_background skipped?"
  | unreachableMainline => "mainline scope with unreachable outer level"
  | unclassifiableScope => "internal error: entered unreachable code: unclassifiable scope"
  | splitCharacter => "not a char boundary"

end BracketPaint
