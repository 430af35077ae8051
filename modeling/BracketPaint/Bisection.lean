/-!
# Bisection

`boundary p n` looks for the place among the indices below `n` where a test turns from true to
false. Where the test holds for a first part of the indices only, that place is the number of
indices in the part (`lt_boundary_iff`). Where it does not, the answer is whatever halving the range
arrives at: the range is always cut at its middle, and the lower part keeps the larger half.
-/

namespace BracketPaint

/-- Halves the `size` indices from `base` on until one is left, which decides. -/
def bisect (p : Nat → Bool) (base size : Nat) : Nat :=
  if _h : 1 < size then
    let middle := base + size / 2
    bisect p (if p middle then middle else base) (size - size / 2)
  else if size = 1 ∧ p base then base + 1 else base
termination_by size

/-- The place among the indices below `n` where `p` turns from true to false. -/
def boundary (p : Nat → Bool) (n : Nat) : Nat := bisect p 0 n

theorem bisect_le (p : Nat → Bool) (base size : Nat) : bisect p base size ≤ base + size := by
  fun_induction bisect p base size with
  | case1 base size _ middle ih =>
    simp only [middle] at ih ⊢
    split at ih <;> split <;> simp_all <;> omega
  | case2 base size _ h => omega
  | case3 base size _ h => omega

theorem boundary_le (p : Nat → Bool) (n : Nat) : boundary p n ≤ n := by
  simpa [boundary] using bisect_le p 0 n

/-- Bisection finds the end of the first part, if `p` holds for a first part only. -/
theorem lt_bisect_iff {p : Nat → Bool} {base size : Nat}
    (down : ∀ i j, i ≤ j → j < base + size → p j → p i) (below : ∀ i, i < base → p i)
    {i : Nat} (hi : i < base + size) : i < bisect p base size ↔ p i := by
  fun_induction bisect p base size with
  | case1 base size h middle ih =>
    by_cases hp : p middle
    · rw [if_pos hp]
      simp only [dif_pos hp] at ih
      exact ih (fun i j hij hj => down i j hij (by omega))
        (fun i hi => down i middle (by omega) (by omega) hp) (by omega)
    · rw [if_neg hp]
      simp only [dif_neg hp] at ih
      by_cases hlt : i < base + (size - size / 2)
      · exact ih (fun i j hij hj => down i j hij (by omega)) below hlt
      · have hle := bisect_le p base (size - size / 2)
        have hnp : ¬ p i := fun hpi => hp (down middle i (by omega) hi hpi)
        exact iff_of_false (by omega) hnp
  | case2 base size h hb =>
    by_cases hib : i = base
    · subst hib; simp [hb.2]
    · simp [below i (by omega)]; omega
  | case3 base size h hb =>
    by_cases hib : i < base
    · simp [hib, below i hib]
    · have : i = base ∧ size = 1 := by omega
      simp_all

/-- Where `p` holds for a first part of the indices below `n` only, the boundary is its end. -/
theorem lt_boundary_iff {p : Nat → Bool} {n : Nat}
    (down : ∀ i j, i ≤ j → j < n → p j → p i) {i : Nat} (hi : i < n) :
    i < boundary p n ↔ p i :=
  lt_bisect_iff (by simpa using down) (by omega) (by simpa using hi)

end BracketPaint
