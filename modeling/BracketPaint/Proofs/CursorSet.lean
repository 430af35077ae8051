import Mathlib.Data.List.Sort
import BracketPaint.Proofs.Passes
/-!
# Passes and the set of the cursors

A pass gives the same result for any two lists of cursors in the buffer that have the same members
(`Buffer.highlight_congr`), however the lists are ordered and however often a cursor occurs in them.

Later steps do look at the order of the cursors they are given: vicinities and lines are joined to
those before them, and a region keeps the last cursor that was added to it. But they are given the
normalized cursors only, and the normalized list is canonical: there is just one ascending list
without repetitions for each set (`normalizeCursors_eq_iff`). The list as it was given is read once,
for a cursor behind the end of the buffer.
-/

namespace BracketPaint

variable {cursors cursors' : List Nat}

/-- Two lists of cursors are normalized to one list exactly if they have the same members. -/
theorem normalizeCursors_eq_iff :
    normalizeCursors cursors = normalizeCursors cursors' ↔ ∀ c, c ∈ cursors ↔ c ∈ cursors' := by
  constructor
  · intro h c
    rw [← mem_normalizeCursors, h, mem_normalizeCursors]
  · intro h
    refine (pairwise_normalizeCursors cursors).eq_of_mem_iff
      (pairwise_normalizeCursors cursors') fun c => ?_
    rw [mem_normalizeCursors, mem_normalizeCursors, h]

namespace Buffer

/-- **Only the set of the cursors matters.** For lists of cursors with the same members, passes over
a buffer give the same plan or fail in the same way, if the cursors lie in the buffer. Wherever they
lie, both passes give the same plan if one of them gives any; they may only name different cursors
behind the end. -/
theorem highlight_congr (b : Buffer) (config : Configuration)
    (hsame : ∀ c, c ∈ cursors ↔ c ∈ cursors') :
    ((∀ c ∈ cursors, c ≤ b.size) →
      b.highlight config cursors = b.highlight config cursors') ∧
    ∀ plan, b.highlight config cursors = .ok plan ↔ b.highlight config cursors' = .ok plan := by
  have hnormalized := normalizeCursors_eq_iff.mpr hsame
  cases henabled : config.enabled with
  | false => simp [highlight_of_disabled henabled]
  | true =>
      constructor
      · intro hcursors
        have hcursors' : ∀ c ∈ cursors', c ≤ b.size := fun c hc => hcursors c ((hsame c).mpr hc)
        rw [highlight_of_le henabled hcursors, highlight_of_le henabled hcursors', examined,
          hnormalized]
      · intro plan
        simp only [highlight_eq_ok_iff henabled, examined, hnormalized, hsame]

/-- Two cursors in `((x) (y))`, in the other order and with a repetition. -/
theorem highlight_congr_repeated :
    (∀ c, c ∈ [2, 6] ↔ c ∈ [6, 2, 6]) ∧ (∀ c ∈ [2, 6], c ≤ (ofString "((x) (y))").size) ∧
      (ofString "((x) (y))").highlight .default [2, 6] =
        (ofString "((x) (y))").highlight .default [6, 2, 6] := by
  have hsame : ∀ c, c ∈ [2, 6] ↔ c ∈ [6, 2, 6] := by
    intro c
    simp only [List.mem_cons, List.not_mem_nil, or_false]
    omega
  have hcursors : ∀ c ∈ [2, 6], c ≤ (ofString "((x) (y))").size := by decide
  exact ⟨hsame, hcursors, (highlight_congr _ _ hsame).1 hcursors⟩

end Buffer
end BracketPaint
