import BracketPaint.Ascending
import BracketPaint.Buffer
/-!
# What a pass looks at

A pass looks at the text around its cursors. The cursors are put in order and each is taken once;
the **vicinity** of a cursor reaches a given radius to both sides, as far as the text goes; and
vicinities that meet are looked at together, as one `ExaminedRegion` with all their cursors.

The lines that hold cursors are found in the same way, lines that follow each other being joined.
-/

namespace BracketPaint

/-! ### Cursors -/

/-- The cursors in ascending order, each once. -/
def normalizeCursors (cursors : List Nat) : List Nat := ascending (· ≤ ·) cursors

/-- Normalizing does not change which cursors there are. -/
@[simp] theorem mem_normalizeCursors {c : Nat} {cursors : List Nat} :
    c ∈ normalizeCursors cursors ↔ c ∈ cursors := mem_ascending

/-! ### Vicinities -/

/-- What lies within a radius of a cursor, in a text of the given size. -/
def vicinity (radius size cursor : Nat) : Region where
  start := min cursor size - radius
  stop := min (min cursor size + radius) size

/-- A region to look at, with the cursors it is looked at for. -/
structure ExaminedRegion where
  /-- Where to look. -/
  region : Region
  /-- The cursors whose vicinities make up the region, in order. -/
  cursors : List Nat
  deriving Repr, DecidableEq

/-- Adds the vicinity of a cursor to an examined region. -/
def ExaminedRegion.join (e : ExaminedRegion) (r : Region) (cursor : Nat) : ExaminedRegion where
  region := e.region.hull r
  cursors := if e.cursors.getLast? = some cursor then e.cursors else e.cursors ++ [cursor]

/-- Joins each region to the one before it if the two touch. -/
def mergeFrom (e : ExaminedRegion) : List (Region × Nat) → List ExaminedRegion
  | [] => [e]
  | (r, cursor) :: rest =>
    if e.region.Touches r then mergeFrom (e.join r cursor) rest
    else e :: mergeFrom ⟨r, [cursor]⟩ rest

/-- Joins regions, each given with its cursor, as far as neighbours touch. -/
def mergeAdjacent : List (Region × Nat) → List ExaminedRegion
  | [] => []
  | (r, cursor) :: rest => mergeFrom ⟨r, [cursor]⟩ rest

/-- The regions to look at for the given cursors. -/
def examinedRegions (radius size : Nat) (cursors : List Nat) : List ExaminedRegion :=
  mergeAdjacent (cursors.map fun cursor => (vicinity radius size cursor, cursor))

/-! ### Current lines -/

/-- Joins each line to the one before it if it starts at most one character after its end. -/
def joinLines (current : Region) : List Region → List Region
  | [] => [current]
  | line :: rest =>
    if line.start ≤ current.stop + 1 then joinLines (current.hull line) rest
    else current :: joinLines line rest

/-- The lines that hold the cursors, lines that follow each other being joined. -/
def currentLines (b : Buffer) (cursors : List Nat) : List Region :=
  match cursors.map b.lineExtent with
  | [] => []
  | line :: rest => joinLines line rest

end BracketPaint
