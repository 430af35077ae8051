import BracketPaint.Proofs.Residue
import BracketPaint.Nesting
/-!
# What a walk counts

The nesting indices of brackets come from two walks away from a cursor. A walk carries two numbers,
the mainline brackets it has crossed and the brackets it has seen open, and these two are the
residue of what it has gone past (`getElem?_outwardIndices`). So the index of a bracket is a
function of the stretch between it and the cursor, and of its own side (`getElem?_nestingIndices`).

The walk to the left is the walk to the right on the reversed list with the sides exchanged, and its
residues are those of the list with the numbers exchanged.
-/

namespace BracketPaint

namespace Outer

/-- The outer level after so many mainline brackets were crossed. -/
def ofCrossed : Nat → Outer
  | 0 => unreachable
  | n + 1 => level n

theorem next_ofCrossed (n : Nat) : (ofCrossed n).next = ofCrossed (n + 1) := by
  cases n <;> rfl

theorem ofCrossed_inj {m n : Nat} : ofCrossed m = ofCrossed n ↔ m = n := by
  cases m <;> cases n <;> simp [ofCrossed]

end Outer

/-- The side of a bracket as seen by a walk on which brackets of the side `closing` close: they
count as right ones. -/
def Side.facing : (closing : Side) → Side → Side
  | right, s => s
  | left, s => s.flip

theorem Side.facing_eq_right {closing s : Side} : facing closing s = right ↔ s = closing := by
  cases closing <;> cases s <;> simp [facing, flip]

/-- The index of a bracket that a walk meets behind a stretch with the given residue. -/
def Residue.index (a : Residue) : Side → NestingIndex
  | .left => ⟨.ofCrossed a.unopened, a.unclosed + 1⟩
  | .right => ⟨.ofCrossed (if a.unclosed = 0 then a.unopened + 1 else a.unopened), a.unclosed⟩

section Walk

variable {closing : Side} {b : Bracket} {bs : List Bracket}

/-- The residues of a walk, as its brackets face it. -/
abbrev faced (closing : Side) (bs : List Bracket) : Residue :=
  residue (fun b => Side.facing closing b.side) bs

/-- One step of a walk: the bracket gets its index, and joins what the walk has gone past. -/
theorem outwardIndices_cons (a : Residue) :
    outwardIndices closing (.ofCrossed a.unopened) a.unclosed (b :: bs) =
      a.index (Side.facing closing b.side) ::
        outwardIndices closing
          (.ofCrossed (a * (Side.facing closing b.side).residue).unopened)
          (a * (Side.facing closing b.side).residue).unclosed bs := by
  rw [outwardIndices.eq_def]
  dsimp only
  by_cases hb : b.side = closing
  · rw [if_pos hb, Side.facing_eq_right.mpr hb]
    obtain ⟨crossed, depth⟩ := a
    cases depth with
    | zero => simp [Residue.index, Outer.next_ofCrossed]
    | succ depth => simp [Residue.index]
  · have hface : Side.facing closing b.side = .left := by
      cases h : Side.facing closing b.side with
      | left => rfl
      | right => exact absurd (Side.facing_eq_right.mp h) hb
    rw [if_neg hb, hface]
    simp [Residue.index, Nat.add_comm]

/-- The index of a bracket comes from the residue of what the walk has gone past. -/
theorem getElem?_outwardIndices (closing : Side) (bs : List Bracket) (a : Residue) (i : Nat) :
    (outwardIndices closing (.ofCrossed a.unopened) a.unclosed bs)[i]? =
      (bs[i]?).map fun b =>
        (a * faced closing (bs.take i)).index (Side.facing closing b.side) := by
  induction bs generalizing a i with
  | nil => rfl
  | cons b bs ih =>
      rw [outwardIndices_cons]
      cases i with
      | zero => simp
      | succ i =>
          rw [List.getElem?_cons_succ, List.getElem?_cons_succ, ih, List.take_succ_cons]
          simp only [residue_cons, mul_assoc]

end Walk

/-! ### Both walks -/

/-- The index of a bracket of the given side at a place, the cursor cutting the list at `n`. -/
def indexAt (bs : List Bracket) (n i : Nat) (s : Side) : NestingIndex :=
  if i < n then (between Bracket.side bs (i + 1) n).swap.index s.flip
  else (between Bracket.side bs n i).index s

/-- The index of a bracket comes from the stretch between it and the cursor. -/
theorem getElem?_nestingIndices (bs : List Bracket) (cursor i : Nat) :
    (nestingIndices bs cursor)[i]? =
      (bs[i]?).map fun b => indexAt bs (bracketsBefore bs cursor) i b.side := by
  unfold nestingIndices indexAt
  generalize hn : bracketsBefore bs cursor = n
  have hle : n ≤ bs.length := by
    rw [← hn]
    exact boundary_le _ _
  have hlen : (bs.take n).length = n := by rw [List.length_take, Nat.min_eq_left hle]
  have hwalk : (outwardIndices .left .unreachable 0 (bs.take n).reverse).reverse.length = n := by
    rw [List.length_reverse, length_outwardIndices, List.length_reverse, hlen]
  have hleft : ∀ i, (outwardIndices .left .unreachable 0 (bs.take n).reverse)[i]? =
      (bs.take n).reverse[i]?.map fun b =>
        (faced .left ((bs.take n).reverse.take i)).index b.side.flip := fun i => by
    have h := getElem?_outwardIndices .left (bs.take n).reverse 1 i
    simp only [one_mul] at h
    exact h
  have hright : ∀ i, (outwardIndices .right .unreachable 0 (bs.drop n))[i]? =
      (bs.drop n)[i]?.map fun b => (faced .right ((bs.drop n).take i)).index b.side := fun i => by
    have h := getElem?_outwardIndices .right (bs.drop n) 1 i
    simp only [one_mul] at h
    exact h
  by_cases hi : i < n
  · -- The place counted from the cursor is `n - 1 - i`.
    have hswap : faced .left ((bs.take n).reverse.take (n - 1 - i)) =
        (between Bracket.side bs (i + 1) n).swap := by
      have hplace : n - (n - 1 - i) = i + 1 := by omega
      rw [between, ← residue_flip_reverse, List.take_reverse, hlen, hplace]
      rfl
    rw [List.getElem?_append_left (by omega), List.getElem?_reverse
      (by rwa [length_outwardIndices, List.length_reverse, hlen]), length_outwardIndices,
      List.length_reverse, hlen, hleft, hswap, List.getElem?_reverse (by rw [hlen]; omega), hlen,
      List.getElem?_take_of_lt (by omega)]
    simp only [hi, if_true]
    congr 2
    omega
  · have hstretch : faced .right ((bs.drop n).take (i - n)) = between Bracket.side bs n i := by
      have hplace : n + (i - n) = i := by omega
      rw [between, List.take_drop, hplace]
      rfl
    rw [List.getElem?_append_right (by omega), hwalk, hright, hstretch, List.getElem?_drop]
    simp only [hi, if_false]
    congr 2
    omega

end BracketPaint
