import BracketPaint.Bracket
/-!
# Nesting around a cursor

Every bracket gets a **nesting index** that says how it lies relative to a cursor. With the cursor
at the bar, an unreachable outer level being written `-`:

```text
    ( ( ( ) ( ( ( ) ) ( ) ( | ( ) ) ( ( ) ( ( ) ) ) ) ) ( ) )   bracket
    3 2 1 1 1 0 0 0 0 0 0 0   - - 0 0 0 0 0 0 0 0 0 1 2 2 2 3   outer
    0 0 1 1 0 1 2 2 1 1 1 0   1 1 0 1 2 2 2 3 3 2 1 0 0 1 1 0   inner
```

The brackets with inner level zero are the **mainline**: the pairs that enclose the cursor, their
outer levels counting from the inside. Another bracket has the outer level of the mainline pair last
crossed on the way to it, and as inner level its depth below that way. Matching brackets have equal
indices.

The indices come from two walks away from the cursor, one to each side. A walk counts the brackets
that it has seen open and not yet seen closed; one that closes while nothing is open belongs to the
mainline.

For several cursors the indices are merged place by place, both levels by their minimum.
-/

namespace BracketPaint

/-- The outer level of a bracket. -/
inductive Outer where
  /-- So many mainline pairs lie between the bracket and the cursor. -/
  | level (n : Nat)
  /-- The bracket comes before the first mainline bracket on its side. -/
  | unreachable
  deriving Repr, DecidableEq, Hashable

namespace Outer

/-- The lesser level; the unreachable one is above all others. -/
def min : Outer → Outer → Outer
  | unreachable, o => o
  | o, unreachable => o
  | level m, level n => level (Nat.min m n)

/-- The level after a mainline bracket was crossed. -/
def next : Outer → Outer
  | unreachable => level 0
  | level n => level (n + 1)

/-- The written form of an outer level. -/
def display : Outer → String
  | level n => toString n
  | unreachable => "-1"

end Outer

/-- How a bracket lies relative to the cursors. -/
structure NestingIndex where
  /-- The mainline pairs crossed. -/
  outer : Outer
  /-- The depth beside the mainline. -/
  inner : Nat
  deriving Repr, DecidableEq, Hashable

namespace NestingIndex

/-- The index of the brackets that enclose a cursor immediately. -/
def primary : NestingIndex := ⟨.level 0, 0⟩

/-- The minimum of both levels. -/
def merge (a b : NestingIndex) : NestingIndex := ⟨a.outer.min b.outer, Nat.min a.inner b.inner⟩

/-- The written form of an index, `(outer, inner)`. -/
def display (a : NestingIndex) : String := s!"({a.outer.display}, {a.inner})"

end NestingIndex

/-- What can go wrong when indices are merged. -/
inductive NestingError where
  /-- There is nothing to merge. -/
  | noCursors
  /-- Two cursors do not have the same number of brackets. -/
  | lengthMismatch (expected found : Nat)
  deriving Repr, DecidableEq

/-- The wording of an error. -/
def NestingError.message : NestingError → String
  | noCursors => "No cursors to merge indices for"
  | lengthMismatch expected found =>
    s!"Index lists differ in length: expected {expected}, found {found}"

/-- The number of brackets that lie before a cursor, the brackets being in order. -/
def bracketsBefore (bs : List Bracket) (cursor : Nat) : Nat :=
  boundary (fun i => (bs[i]?).any (·.lastBefore < cursor)) bs.length

/-- The indices met on a walk away from the cursor, on which brackets of the side `closing` close.
`outer` is the level reached so far and `depth` the number of brackets that are open. -/
def outwardIndices (closing : Side) : (outer : Outer) → (depth : Nat) → List Bracket →
    List NestingIndex
  | _, _, [] => []
  | outer, depth, b :: bs =>
    if b.side = closing then
      match depth with
      | 0 => ⟨outer.next, 0⟩ :: outwardIndices closing outer.next 0 bs
      | depth + 1 => ⟨outer, depth + 1⟩ :: outwardIndices closing outer depth bs
    else ⟨outer, depth + 1⟩ :: outwardIndices closing outer (depth + 1) bs

@[simp] theorem length_outwardIndices (closing : Side) (outer : Outer) (depth : Nat)
    (bs : List Bracket) : (outwardIndices closing outer depth bs).length = bs.length := by
  fun_induction outwardIndices closing outer depth bs <;> simp_all

/-- The indices of brackets relative to a cursor. -/
def nestingIndices (bs : List Bracket) (cursor : Nat) : List NestingIndex :=
  let n := bracketsBefore bs cursor
  (outwardIndices .left .unreachable 0 (bs.take n).reverse).reverse ++
    outwardIndices .right .unreachable 0 (bs.drop n)

/-- Every bracket has one index. -/
@[simp] theorem length_nestingIndices (bs : List Bracket) (cursor : Nat) :
    (nestingIndices bs cursor).length = bs.length := by
  simp only [nestingIndices, List.length_append, List.length_reverse, length_outwardIndices,
    List.length_take, List.length_drop]
  omega

/-- Merges the indices of one more cursor into those of the cursors before. -/
def mergeNext (merged next : List NestingIndex) : Except NestingError (List NestingIndex) :=
  if next.length = merged.length then .ok (List.zipWith NestingIndex.merge merged next)
  else .error (.lengthMismatch merged.length next.length)

/-- Merges the indices of all cursors, place by place. -/
def mergeIndices : List (List NestingIndex) → Except NestingError (List NestingIndex)
  | [] => .error .noCursors
  | first :: rest => rest.foldlM mergeNext first

end BracketPaint
