import BracketPaint.Region
import BracketPaint.Bisection
/-!
# Lexical annotations

An **annotation** names a region of a text, such as a comment or a string. An `AnnotationMap` keeps
annotations ordered by where they start, annotations that start together in the order of their
arrival, and names every offset by the annotations that hold it.

Most annotations lie far away from the offset that is asked for, so the map keeps a second array,
`reach`: the largest end among an annotation and all before it. The annotations that start at or
before an offset are a first part of the array, and those whose reach does not pass the offset are a
first part of that; both ends are found by bisection, and only what lies between them is looked at.
-/

namespace BracketPaint

/-- A named region. -/
structure Annotation where
  /-- Where the name applies. -/
  region : Region
  /-- The name, such as `comment.line`. -/
  name : String
  deriving Repr, DecidableEq

/-- Annotations ordered by where they start, with the largest end of every first part. -/
structure AnnotationMap where
  /-- The annotations, ordered by where they start. -/
  spans : Array Annotation := #[]
  /-- The largest end among the annotations up to and including each one. -/
  reach : Array Nat := #[]
  deriving Repr, DecidableEq

namespace AnnotationMap

instance : EmptyCollection AnnotationMap := ⟨{}⟩

/-- The name of an offset that no annotation holds. -/
def rootName : String := "source"

/-- Extends the array of reaches by those of further annotations. -/
def extendReach (reach : Array Nat) (spans : List Annotation) : Array Nat :=
  spans.foldl (fun reach a => reach.push (max (reach.back?.getD 0) a.region.stop)) reach

/-- The number of annotations that start at or before an offset. -/
def startedBy (m : AnnotationMap) (p : Nat) : Nat :=
  boundary (fun i => (m.spans[i]?).any (·.region.start ≤ p)) m.spans.size

/-- Among the first `n` annotations, the number of those that no later one of them is needed for:
up to there, every annotation ends at or before the offset. -/
def passedBy (m : AnnotationMap) (n p : Nat) : Nat :=
  boundary (fun i => (m.reach[i]?).any (· ≤ p)) n

/-- Adds an annotation, after those that start where it does. -/
def push (m : AnnotationMap) (a : Annotation) : AnnotationMap :=
  let place := m.startedBy a.region.start
  let spans := m.spans.insertIdxIfInBounds place a
  { spans
    reach := extendReach (m.reach.take place) (spans.toList.drop place) }

/-- Adds annotations one after the other. -/
def ofList (as : List Annotation) : AnnotationMap := as.foldl push ∅

/-- The annotations that hold an offset, in order. -/
def holding (m : AnnotationMap) (p : Nat) : List Annotation :=
  let last := m.startedBy p
  let first := m.passedBy last p
  (m.spans.extract first last).toList.filter (p ∈ ·.region)

/-- The name of an offset: the root name and the names of the annotations that hold it, outermost
first, with one space between them. -/
def nameAt (m : AnnotationMap) (p : Nat) : String :=
  " ".intercalate (rootName :: (m.holding p).map (·.name))

end AnnotationMap
end BracketPaint
