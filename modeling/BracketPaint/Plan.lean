import BracketPaint.Ascending
import BracketPaint.Span.Shade
/-!
# Plans

A **plan** is what a pass hands to the editor: for each shade that occurs, the regions to paint in
it. The entries are ordered by shade, the regions of an entry by place. `Plan.spans` lists all
regions with their shades by place.
-/

namespace BracketPaint

/-- A region and the shade to paint it in. -/
abbrev Stroke := Region × Shade

/-- The regions that are painted in one shade. -/
structure PlanEntry where
  /-- The shade to paint in. -/
  shade : Shade
  /-- The regions to paint, by place. -/
  regions : List Region
  deriving Repr, DecidableEq

/-- The name under which an editor knows the shade of an entry. -/
def PlanEntry.scope (e : PlanEntry) : String := e.shade.scopeName

/-- All that one pass paints. -/
structure Plan where
  /-- One entry for each shade, by shade. -/
  entries : List PlanEntry := []
  deriving Repr, DecidableEq

/-- Strokes are ordered by region, then by shade. -/
def Stroke.le (a b : Stroke) : Bool := if a.1 = b.1 then decide (a.2 ≤ b.2) else decide (a.1 ≤ b.1)

namespace Plan

/-- The shades of strokes in ascending order, each once. -/
def shadesOf (strokes : List Stroke) : List Shade :=
  ascending (· ≤ ·) (strokes.map (·.2))

/-- The regions that are painted in a shade, by place. -/
def regionsOf (strokes : List Stroke) (s : Shade) : List Region :=
  ((strokes.filter (·.2 = s)).map (·.1)).mergeSort (fun a b => decide (a ≤ b))

/-- The plan of strokes. -/
def ofStrokes (strokes : List Stroke) : Plan :=
  ⟨(shadesOf strokes).map fun s => ⟨s, regionsOf strokes s⟩⟩

/-- The number of shades. -/
def size (p : Plan) : Nat := p.entries.length

/-- The regions that are painted in a shade. -/
def regionsFor (p : Plan) (s : Shade) : List Region :=
  ((p.entries.find? (·.shade = s)).map (·.regions)).getD []

/-- All regions with their shades, by place. -/
def spans (p : Plan) : List Stroke :=
  (p.entries.flatMap fun e => e.regions.map (·, e.shade)).mergeSort Stroke.le

end Plan
end BracketPaint
