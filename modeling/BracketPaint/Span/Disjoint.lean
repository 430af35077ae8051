import BracketPaint.Span.Basic
/-!
# Disjoint spans

Spans may nest and cross. `splitDisjoint` cuts them so that no two pieces have a character in
common, no piece is empty, and no piece goes past a place where a line begins or ends.

The spans and the boundaries of the lines are **fragments** of the text, a boundary being a fragment
of no size that belongs to no span. They wait in a queue, ordered by where they start, then by where
they stop, then by their number. The first fragment is compared with the one behind it:

* if they do not overlap, the first one is done;
* if they start together, the shorter one comes first, and the other loses that part;
* else the first one is done up to where the other starts, and what sticks out behind the other is
  put back into the queue.

Each step takes characters or a fragment away, which is what `weight` measures. Each region that a
step builds goes through `Region.ofBounds`, so that it is no assumption that bounds are in order.
-/

namespace BracketPaint

/-- A piece of text that waits to be cut. -/
structure Fragment where
  /-- Where the fragment lies. -/
  extent : Region
  /-- The number of the fragment, by which ties are broken. -/
  seq : Nat
  /-- The span that it is a part of; the boundary of a line has none. -/
  source : Option Span
  deriving Repr, DecidableEq

namespace Fragment

/-- Fragments are ordered by where they start, then by where they stop, then by their number. -/
instance : LE Fragment where
  le a b := a.extent.start < b.extent.start ∨ a.extent.start = b.extent.start ∧
    (a.extent.stop < b.extent.stop ∨ a.extent.stop = b.extent.stop ∧ a.seq ≤ b.seq)

theorem le_def {a b : Fragment} : a ≤ b ↔ a.extent.start < b.extent.start ∨
    a.extent.start = b.extent.start ∧
      (a.extent.stop < b.extent.stop ∨ a.extent.stop = b.extent.stop ∧ a.seq ≤ b.seq) := Iff.rfl

instance {a b : Fragment} : Decidable (a ≤ b) :=
  inferInstanceAs (Decidable (a.extent.start < b.extent.start ∨ a.extent.start = b.extent.start ∧
    (a.extent.stop < b.extent.stop ∨ a.extent.stop = b.extent.stop ∧ a.seq ≤ b.seq)))

/-- Puts a fragment into a queue. -/
def insert (f : Fragment) : List Fragment → List Fragment
  | [] => [f]
  | g :: gs => if f ≤ g then f :: g :: gs else g :: insert f gs

/-- What is left to do in a queue: its characters and its fragments. -/
def weight : List Fragment → Nat
  | [] => 0
  | f :: fs => f.extent.size + 1 + weight fs

@[simp] theorem weight_cons (f : Fragment) (fs : List Fragment) :
    weight (f :: fs) = f.extent.size + 1 + weight fs := by
  rfl

@[simp] theorem weight_insert (f : Fragment) (fs : List Fragment) :
    weight (insert f fs) = f.extent.size + 1 + weight fs := by
  fun_induction insert f fs with
  | case1 => rfl
  | case2 => rfl
  | case3 g gs _ ih => simp only [weight_cons, ih]; omega

/-- The piece of a fragment's span that lies at the given place, if it belongs to a span. -/
def piece (f : Fragment) (extent : Region) : List Span :=
  (f.source.map fun span => { span with extent }).toList

/-- Cuts the fragments of a queue, from left to right. -/
def sweep : List Fragment → Except Fault (List Span)
  | [] => .ok []
  | [a] => .ok (a.piece a.extent)
  | a :: b :: queue =>
    if a.extent.stop ≤ b.extent.start then
      (sweep (b :: queue)).map (a.piece a.extent ++ ·)
    else if _hstart : b.extent.start = a.extent.start then
      match _hrest : Region.ofBounds a.extent.stop b.extent.stop with
      | .error f => .error f
      | .ok rest =>
        -- Behind the end of the first fragment, so the first one stays first.
        if rest.IsEmpty then sweep (a :: queue)
        else sweep (a :: insert { b with extent := rest } queue)
    else
      match _hhead : Region.ofBounds a.extent.start b.extent.start with
      | .error f => .error f
      | .ok head =>
        if _htail : b.extent.stop < a.extent.stop then
          -- Behind the end of the second fragment, so the second one comes first now.
          let tail : Region := { start := b.extent.stop, stop := a.extent.stop }
          (sweep (b :: insert { a with extent := tail } queue)).map (a.piece head ++ ·)
        else (sweep (b :: queue)).map (a.piece head ++ ·)
termination_by fs => weight fs
decreasing_by
  all_goals simp only [weight_cons, weight_insert, Region.size]
  · omega
  · omega
  · have := Region.ofBounds_eq_ok_iff.1 _hrest
    have := rest.start_le_stop
    omega
  · have := Region.ofBounds_eq_ok_iff.1 _hhead
    have := head.start_le_stop
    have := b.extent.start_le_stop
    omega
  · omega

end Fragment

/-- The fragments of spans and of the lines' boundaries, in order of their numbers. -/
def fragments (spans : List Span) (lines : List Region) : List Fragment :=
  let sources := spans.map fun span => (span.extent, some span)
  let boundaries := lines.flatMap fun line =>
    [(Region.point line.start, none), (Region.point line.stop, none)]
  (sources ++ boundaries).zipIdx.map fun ((extent, source), seq) => ⟨extent, seq, source⟩

/-- Cuts spans at each other's ends and at the boundaries of the lines. -/
def splitDisjoint (spans : List Span) (lines : List Region) : Except Fault (List Span) :=
  if spans.isEmpty then .ok []
  else Fragment.sweep ((fragments spans lines).foldr Fragment.insert [])

end BracketPaint
