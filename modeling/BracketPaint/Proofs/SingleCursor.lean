import BracketPaint.Proofs.Pairing
import BracketPaint.Proofs.Walk
/-!
# One cursor

Seen from one cursor, the scopes of located brackets are the pairs of a stack, whatever the cursor
and however unbalanced the brackets (`brackets_pairBrackets_nestingIndices`).

Two facts about indices are behind it, both for any place where the cursor may cut the list. The
brackets of a pair have the same index, because what stands between them leaves nothing over
(`indexAt_eq_of_matchedAt`). And a left bracket never has the index of a right bracket inside it:
on its own side of the cursor the inner levels differ, and across the cursor either the inner levels
or the numbers of mainline brackets crossed do (`indexAt_ne_of_insideAt`).
-/

namespace BracketPaint

variable {bs : List Bracket} {n i j : Nat}

/-! ### Indices in numbers -/

/-- The index of a left bracket before the cursor. -/
theorem indexAt_left_of_lt (h : i < n) :
    indexAt bs n i .left =
      ⟨.ofCrossed (if (between Bracket.side bs (i + 1) n).unopened = 0
          then (between Bracket.side bs (i + 1) n).unclosed + 1
          else (between Bracket.side bs (i + 1) n).unclosed),
        (between Bracket.side bs (i + 1) n).unopened⟩ := by
  rw [indexAt, if_pos h]
  rfl

/-- The index of a left bracket behind the cursor. -/
theorem indexAt_left_of_le (h : n ≤ i) :
    indexAt bs n i .left =
      ⟨.ofCrossed (between Bracket.side bs n i).unopened,
        (between Bracket.side bs n i).unclosed + 1⟩ := by
  rw [indexAt, if_neg (by omega)]
  rfl

/-- The index of a right bracket before the cursor. -/
theorem indexAt_right_of_lt (h : j < n) :
    indexAt bs n j .right =
      ⟨.ofCrossed (between Bracket.side bs (j + 1) n).unclosed,
        (between Bracket.side bs (j + 1) n).unopened + 1⟩ := by
  rw [indexAt, if_pos h]
  rfl

/-- The index of a right bracket behind the cursor. -/
theorem indexAt_right_of_le (h : n ≤ j) :
    indexAt bs n j .right =
      ⟨.ofCrossed (if (between Bracket.side bs n j).unclosed = 0
          then (between Bracket.side bs n j).unopened + 1
          else (between Bracket.side bs n j).unopened),
        (between Bracket.side bs n j).unclosed⟩ := by
  rw [indexAt, if_neg (by omega)]
  rfl

/-! ### The brackets of a pair -/

/-- The two brackets of a pair have the same index. -/
theorem indexAt_eq_of_matchedAt (h : MatchedAt bs i j) :
    indexAt bs n i .left = indexAt bs n j .right := by
  obtain ⟨hij, hleft, hright, hone⟩ := h
  rcases Nat.lt_or_ge j n with hjn | hjn
  · -- Both stand before the cursor; the walk to the left meets the right bracket first.
    have hstretch : between Bracket.side bs (i + 1) n =
        Side.right.residue * between Bracket.side bs (j + 1) n := by
      rw [← between_eq_mul hright hjn, ← between_mul hij (Nat.le_of_lt hjn), hone, one_mul]
    rw [indexAt_left_of_lt (by omega), indexAt_right_of_lt hjn, hstretch]
    simp [Nat.add_comm]
  · rcases Nat.lt_or_ge i n with hin | hin
    · -- The cursor stands between them, and what it cuts in two leaves nothing over.
      have hcut : between Bracket.side bs (i + 1) n * between Bracket.side bs n j = 1 := by
        rw [between_mul hin hjn, hone]
      rw [Residue.eq_one_iff, Residue.unopened_mul, Residue.unclosed_mul] at hcut
      rw [indexAt_left_of_lt hin, indexAt_right_of_le hjn, if_pos (by omega), if_pos (by omega),
        NestingIndex.mk.injEq, Outer.ofCrossed_inj]
      omega
    · -- Both stand behind the cursor; the walk to the right meets the left bracket first.
      have hstretch : between Bracket.side bs n j =
          between Bracket.side bs n i * Side.left.residue := by
        rw [← between_eq_mul_last hleft hin, ← between_mul (by omega : n ≤ i + 1) hij, hone,
          mul_one]
      rw [indexAt_left_of_le hin, indexAt_right_of_le hjn, hstretch]
      simp [Nat.add_comm]

/-- Before a right bracket that stands inside a left one, something is open. -/
theorem InsideAt.between_eq (h : InsideAt bs i j) :
    (between Bracket.side bs (i + 1) j).unopened = 0 ∧
      0 < (between Bracket.side bs (i + 1) j).unclosed := by
  have hij : i + 1 ≤ j := h.lt
  have hopen := h.unopened_eq
  rw [between_eq_mul_last h.right hij, Residue.unopened_mul, Side.residue_right] at hopen
  dsimp only at hopen
  omega

/-- A left bracket does not have the index of a right one inside it. -/
theorem indexAt_ne_of_insideAt (h : InsideAt bs i j) :
    indexAt bs n i .left ≠ indexAt bs n j .right := by
  obtain ⟨hunopened, hunclosed⟩ := h.between_eq
  obtain ⟨hij, hleft, hright, hopen⟩ := h
  rcases Nat.lt_or_ge j n with hjn | hjn
  · -- Both stand before the cursor: the right one lies deeper below the way to it.
    have hstretch : between Bracket.side bs (i + 1) n =
        between Bracket.side bs (i + 1) (j + 1) * between Bracket.side bs (j + 1) n :=
      (between_mul (by omega) hjn).symm
    rw [indexAt_left_of_lt (by omega), indexAt_right_of_lt hjn, hstretch]
    intro heq
    have hinner := congrArg NestingIndex.inner heq
    simp only [Residue.unopened_mul] at hinner
    omega
  · rcases Nat.lt_or_ge i n with hin | hin
    · -- The cursor stands between them: on the mainline, the way to the left crosses more.
      have hcut : between Bracket.side bs (i + 1) n * between Bracket.side bs n j =
          between Bracket.side bs (i + 1) j := between_mul hin hjn
      rw [Residue.ext_iff, Residue.unopened_mul, Residue.unclosed_mul] at hcut
      rw [indexAt_left_of_lt hin, indexAt_right_of_le hjn, Ne, NestingIndex.mk.injEq,
        Outer.ofCrossed_inj]
      split <;> split <;> omega
    · -- Both stand behind the cursor: the right one lies deeper below the way to it.
      have hstretch : between Bracket.side bs n j = between Bracket.side bs n i *
          (Side.left.residue * between Bracket.side bs (i + 1) j) := by
        rw [← between_eq_mul hleft hij, between_mul hin (Nat.le_of_lt hij)]
      rw [indexAt_left_of_le hin, indexAt_right_of_le hjn, hstretch]
      intro heq
      have hinner := congrArg NestingIndex.inner heq
      simp only [Residue.unclosed_mul, Residue.unopened_mul, Side.residue_left] at hinner
      omega

/-! ### The scopes -/

theorem getElem?_nestingIndices_of_side {cursor : Nat} {s : Side}
    (h : (bs[i]?).map Bracket.side = some s) :
    (nestingIndices bs cursor)[i]? = some (indexAt bs (bracketsBefore bs cursor) i s) := by
  obtain ⟨b, hb, rfl⟩ := Option.map_eq_some_iff.mp h
  rw [getElem?_nestingIndices, hb, Option.map_some]

/-- Matching brackets have equal indices. -/
theorem pairsAgree_nestingIndices (bs : List Bracket) (cursor : Nat) :
    PairsAgree bs (nestingIndices bs cursor) := by
  intro i j h
  rw [getElem?_nestingIndices_of_side h.left, getElem?_nestingIndices_of_side h.right,
    indexAt_eq_of_matchedAt h]

theorem keptApart_nestingIndices (bs : List Bracket) (cursor : Nat) :
    KeptApart bs (nestingIndices bs cursor) := by
  intro i j h
  rw [getElem?_nestingIndices_of_side h.left, getElem?_nestingIndices_of_side h.right]
  exact fun heq => indexAt_ne_of_insideAt h (Option.some.inj heq)

/-- The scopes of one cursor, as pairs that look ahead from their left brackets. -/
theorem map_brackets_eq_closings (hbs : Located bs) (cursor : Nat) :
    (pairBrackets bs (nestingIndices bs cursor)).map Scope.brackets = closings Bracket.side bs := by
  rw [← lifoPairs_eq_closings hbs]
  exact (pairs_eq_lifoPairs_iff hbs (length_nestingIndices bs cursor)
    (pairsAgree_nestingIndices bs cursor)).mpr (keptApart_nestingIndices bs cursor)

/-- **One cursor.** Wherever the cursor stands, the scopes are the pairs of a stack, in the order of
their left brackets. -/
theorem brackets_pairBrackets_nestingIndices (hbs : Located bs) (cursor : Nat) :
    (pairBrackets bs (nestingIndices bs cursor)).map Scope.brackets = lifoPairs bs :=
  (pairs_eq_lifoPairs_iff hbs (length_nestingIndices bs cursor)
    (pairsAgree_nestingIndices bs cursor)).mpr (keptApart_nestingIndices bs cursor)

/-- In `)(()`, the cursor standing between the two left brackets. -/
theorem brackets_pairBrackets_dangling :
    Located [⟨.right, 0, ")"⟩, ⟨.left, 1, "("⟩, ⟨.left, 2, "("⟩, ⟨.right, 3, ")"⟩] ∧
      (pairBrackets [⟨.right, 0, ")"⟩, ⟨.left, 1, "("⟩, ⟨.left, 2, "("⟩, ⟨.right, 3, ")"⟩]
        (nestingIndices
          [⟨.right, 0, ")"⟩, ⟨.left, 1, "("⟩, ⟨.left, 2, "("⟩, ⟨.right, 3, ")"⟩] 2)).map
        Scope.brackets = [(⟨.left, 2, "("⟩, ⟨.right, 3, ")"⟩)] := by
  have hbs : Located [⟨.right, 0, ")"⟩, ⟨.left, 1, "("⟩, ⟨.left, 2, "("⟩, ⟨.right, 3, ")"⟩] :=
    ⟨by decide, by decide⟩
  refine ⟨hbs, ?_⟩
  rw [brackets_pairBrackets_nestingIndices hbs 2, lifoPairs_eq_closings hbs]
  rfl

end BracketPaint
