/-!
# Ascending lists

`ascending le xs` has the members of `xs` in the order `le`, each of them once, however often it
occurs in `xs`. Members are put one by one into a list that is in order already (`insertOnce`).

Like the sorting of lists, this takes any comparison. Its laws are asked for where they are needed:
not for which members there are (`mem_ascending`), but for their order (`pairwise_ascending`).
-/

namespace BracketPaint

variable {α : Type} [DecidableEq α] {le : α → α → Prop} [DecidableRel le]
variable {x y : α} {xs ys : List α}

/-- Puts a member into an ascending list, once. -/
def insertOnce (le : α → α → Prop) [DecidableRel le] (x : α) : List α → List α
  | [] => [x]
  | y :: ys => if x = y then y :: ys else if le x y then x :: y :: ys else y :: insertOnce le x ys

/-- The members of a list in ascending order, each once. -/
def ascending (le : α → α → Prop) [DecidableRel le] (xs : List α) : List α :=
  xs.foldr (insertOnce le) []

theorem mem_insertOnce : y ∈ insertOnce le x ys ↔ y = x ∨ y ∈ ys := by
  induction ys with
  | nil => simp [insertOnce]
  | cons z zs ih =>
    rw [insertOnce]
    by_cases heq : x = z
    · rw [if_pos heq, heq]
      simp
    · rw [if_neg heq]
      by_cases hle : le x z
      · rw [if_pos hle, List.mem_cons]
      · rw [if_neg hle, List.mem_cons, List.mem_cons, ih]
        exact or_left_comm

/-- Which members there are does not change. -/
@[simp] theorem mem_ascending : x ∈ ascending le xs ↔ x ∈ xs := by
  induction xs with
  | nil => simp [ascending]
  | cons y ys ih =>
    rw [ascending, List.foldr_cons, mem_insertOnce, List.mem_cons]
    exact or_congr_right ih

section Order

variable (trans : ∀ a b c, le a b → le b c → le a c) (total : ∀ a b, le a b ∨ le b a)
variable (antisymm : ∀ a b, le a b → le b a → a = b)
include trans total antisymm

/-- A list without repetitions stays one, and stays in order. -/
theorem pairwise_insertOnce (x : α) (h : ys.Pairwise fun a b => le a b ∧ a ≠ b) :
    (insertOnce le x ys).Pairwise fun a b => le a b ∧ a ≠ b := by
  induction ys with
  | nil => exact List.pairwise_singleton _ _
  | cons y ys ih =>
    obtain ⟨hy, hys⟩ := List.pairwise_cons.mp h
    rw [insertOnce]
    by_cases heq : x = y
    · rw [if_pos heq]
      exact h
    · rw [if_neg heq]
      by_cases hle : le x y
      · rw [if_pos hle]
        refine List.pairwise_cons.mpr ⟨fun z hz => ?_, h⟩
        rcases List.mem_cons.mp hz with rfl | hz
        · exact ⟨hle, heq⟩
        · -- `x` comes before `y` and `z` behind it, so they could only be one if `y` were the same.
          refine ⟨trans x y z hle (hy z hz).1, ?_⟩
          rintro rfl
          exact heq (antisymm x y hle (hy x hz).1)
      · rw [if_neg hle]
        refine List.pairwise_cons.mpr ⟨fun z hz => ?_, ih hys⟩
        rcases mem_insertOnce.mp hz with rfl | hz
        · exact ⟨(total z y).resolve_left hle, Ne.symm heq⟩
        · exact hy z hz

theorem pairwise_ascending (xs : List α) :
    (ascending le xs).Pairwise fun a b => le a b ∧ a ≠ b := by
  induction xs with
  | nil => exact List.Pairwise.nil
  | cons x xs ih => exact pairwise_insertOnce trans total antisymm x ih

end Order

end BracketPaint
