import BracketPaint.Fault
/-!
# Regions

A **region** is a half-open range of character offsets, `start ≤ p < stop`. Empty regions are
ordinary values: they mark the places where a line begins or ends.

The bounds of a region are in order by its type. Bounds that come from elsewhere pass through
`Region.ofBounds`, which answers with a fault when they are reversed.
-/

namespace BracketPaint

/-- A half-open range of character offsets. -/
structure Region where
  /-- The first offset of the region. -/
  start : Nat
  /-- The offset right after the last one. -/
  stop : Nat
  /-- The bounds are in order. -/
  start_le_stop : start ≤ stop := by omega
  deriving Repr, DecidableEq

namespace Region

variable {a b r : Region} {p : Nat}

@[ext] theorem ext (hstart : a.start = b.start) (hstop : a.stop = b.stop) : a = b := by
  cases a; cases b; simp_all

/-! ### Construction -/

/-- The region with the given bounds, if they are in order. -/
def ofBounds (start stop : Nat) : Except Fault Region :=
  if h : start ≤ stop then .ok ⟨start, stop, h⟩ else .error (.reversedRegion start stop)

/-- The empty region at an offset. -/
def point (p : Nat) : Region := ⟨p, p, Nat.le_refl p⟩

/-- The least region that holds both. -/
def hull (a b : Region) : Region where
  start := min a.start b.start
  stop := max a.stop b.stop
  start_le_stop := by have := a.start_le_stop; omega

theorem ofBounds_eq_ok_iff {start stop : Nat} :
    ofBounds start stop = .ok r ↔ r.start = start ∧ r.stop = stop := by
  unfold ofBounds
  split
  · simp only [Except.ok.injEq]
    constructor
    · rintro rfl; simp
    · rintro ⟨rfl, rfl⟩; rfl
  · have := r.start_le_stop
    simp only [reduceCtorEq, false_iff]
    omega

theorem ofBounds_of_le {start stop : Nat} (h : start ≤ stop) :
    ofBounds start stop = .ok ⟨start, stop, h⟩ := by
  simp [ofBounds, h]

/-! ### Measure and membership -/

/-- The number of offsets in the region. -/
def size (r : Region) : Nat := r.stop - r.start

/-- An empty region holds no offset. -/
abbrev IsEmpty (r : Region) : Prop := r.start = r.stop

/-- `p ∈ r`: the offset lies in the region. -/
instance : Membership Nat Region := ⟨fun r p => r.start ≤ p ∧ p < r.stop⟩

theorem mem_def : p ∈ r ↔ r.start ≤ p ∧ p < r.stop := Iff.rfl

instance : Decidable (p ∈ r) := inferInstanceAs (Decidable (r.start ≤ p ∧ p < r.stop))

@[simp] theorem not_mem_point {q : Nat} : p ∉ point q := by
  simp only [mem_def, point]; omega

/-! ### Two regions -/

/-- The second region lies in the first. -/
abbrev Contains (a b : Region) : Prop := a.start ≤ b.start ∧ b.stop ≤ a.stop

/-- The two regions have inner parts in common. -/
abbrev Overlaps (a b : Region) : Prop := a.start < b.stop ∧ b.start < a.stop

/-- The two regions overlap or meet end to end. -/
abbrev Touches (a b : Region) : Prop := a.start ≤ b.stop ∧ b.start ≤ a.stop

/-! ### Order -/

/-- Regions are ordered by where they start, then by where they stop. -/
instance : LE Region where
  le a b := a.start < b.start ∨ a.start = b.start ∧ a.stop ≤ b.stop

theorem le_def : a ≤ b ↔ a.start < b.start ∨ a.start = b.start ∧ a.stop ≤ b.stop := Iff.rfl

instance : Decidable (a ≤ b) :=
  inferInstanceAs (Decidable (a.start < b.start ∨ a.start = b.start ∧ a.stop ≤ b.stop))

instance : Ord Region where
  compare a b := if a = b then .eq else if a ≤ b then .lt else .gt

/-! ### Written form -/

/-- The written form of a region, `[start, stop)`. -/
def display (r : Region) : String := s!"[{r.start}, {r.stop})"

end Region
end BracketPaint
