import Mathlib.Algebra.BigOperators.Group.List.Basic
import BracketPaint.Bracket
/-!
# Residues of stretches of brackets

Strike out, in a stretch of brackets, every left one together with the right one that closes it.
What is left over is some right brackets, which nothing in the stretch opens, followed by some left
ones, which nothing in it closes. The **residue** of the stretch is these two numbers.

Residues multiply as stretches are put in a row (`residue_append`): the left brackets that the first
stretch leaves open meet the right ones that the second leaves over. So every question about who is
open where becomes arithmetic on a few products, which `omega` answers. Read backwards, with the
sides exchanged, a stretch has the same residue with its numbers exchanged
(`residue_flip_reverse`), and this is what makes the two walks away from a cursor one.

The sides come from a function, so that the same notions serve brackets alone and brackets that
carry an index.
-/

namespace BracketPaint

/-- What is left of a stretch of brackets once the matched ones are struck out. -/
@[ext] structure Residue where
  /-- The right brackets that nothing in the stretch opens; they come first. -/
  unopened : Nat
  /-- The left brackets that nothing in the stretch closes. -/
  unclosed : Nat
  deriving Repr, DecidableEq

namespace Residue

/-- An empty stretch leaves nothing. -/
instance : One Residue := ⟨⟨0, 0⟩⟩

/-- Of two stretches in a row, what the first leaves open meets what the second leaves unopened. -/
instance : Mul Residue where
  mul a b := ⟨a.unopened + (b.unopened - a.unclosed), b.unclosed + (a.unclosed - b.unopened)⟩

@[simp] theorem unopened_one : (1 : Residue).unopened = 0 := rfl

@[simp] theorem unclosed_one : (1 : Residue).unclosed = 0 := rfl

@[simp] theorem unopened_mul (a b : Residue) :
    (a * b).unopened = a.unopened + (b.unopened - a.unclosed) := rfl

@[simp] theorem unclosed_mul (a b : Residue) :
    (a * b).unclosed = b.unclosed + (a.unclosed - b.unopened) := rfl

instance : Monoid Residue where
  mul_assoc a b c := by
    ext <;> simp only [unopened_mul, unclosed_mul] <;> omega
  one_mul a := by
    ext <;> simp
  mul_one a := by
    ext <;> simp

/-- The residue of the same stretch read backwards, with the sides exchanged. -/
def swap (a : Residue) : Residue := ⟨a.unclosed, a.unopened⟩

theorem swap_mul (a b : Residue) : (a * b).swap = b.swap * a.swap := rfl

theorem eq_one_iff {a : Residue} : a = 1 ↔ a.unopened = 0 ∧ a.unclosed = 0 := by
  rw [Residue.ext_iff]
  rfl

end Residue

namespace Side

/-- The other side. -/
def flip : Side → Side
  | left => right
  | right => left

/-- The residue of one bracket. -/
def residue : Side → Residue
  | left => ⟨0, 1⟩
  | right => ⟨1, 0⟩

@[simp] theorem residue_left : left.residue = ⟨0, 1⟩ := rfl

@[simp] theorem residue_right : right.residue = ⟨1, 0⟩ := rfl

theorem residue_flip (s : Side) : s.flip.residue = s.residue.swap := by
  cases s <;> rfl

end Side

variable {α β : Type} (side : α → Side)

/-! ### Stretches -/

/-- The residue of a stretch of brackets. -/
def residue (bs : List α) : Residue := (bs.map fun b => (side b).residue).prod

@[simp] theorem residue_nil : residue side [] = 1 := rfl

@[simp] theorem residue_cons (b : α) (bs : List α) :
    residue side (b :: bs) = (side b).residue * residue side bs := by
  simp [residue]

theorem residue_append (bs cs : List α) :
    residue side (bs ++ cs) = residue side bs * residue side cs := by
  simp [residue]

theorem residue_map (f : β → α) (bs : List β) :
    residue side (bs.map f) = residue (fun b => side (f b)) bs := by
  simp [residue, Function.comp_def]

/-- Reading backwards with the sides exchanged exchanges the two numbers. -/
theorem residue_flip_reverse (bs : List α) :
    residue (fun b => (side b).flip) bs.reverse = (residue side bs).swap := by
  induction bs with
  | nil => rfl
  | cons b bs ih =>
      rw [List.reverse_cons, residue_append, ih, residue_cons side, Residue.swap_mul,
        ← Side.residue_flip]
      simp

/-! ### Stretches of one list -/

/-- The residue of the brackets of a list from one place on, up to another. -/
def between (bs : List α) (i j : Nat) : Residue := residue side ((bs.take j).drop i)

variable {side} {bs : List α} {b : α} {i j k : Nat}

theorem between_of_le (h : j ≤ i) : between side bs i j = 1 := by
  have : (bs.take j).drop i = [] := List.drop_eq_nil_of_le (by rw [List.length_take]; omega)
  rw [between, this, residue_nil]

@[simp] theorem between_self : between side bs i i = 1 := between_of_le (Nat.le_refl i)

/-- A stretch is the row of its parts. -/
theorem between_mul (hij : i ≤ j) (hjk : j ≤ k) :
    between side bs i j * between side bs j k = between side bs i k := by
  have hsplit : bs.take k = bs.take j ++ (bs.take k).drop j := by
    conv_lhs => rw [← List.take_append_drop j (bs.take k)]
    rw [List.take_take, Nat.min_eq_left hjk]
  by_cases hj : j ≤ bs.length
  · have : (bs.take k).drop i = (bs.take j).drop i ++ (bs.take k).drop j := by
      conv_lhs => rw [hsplit]
      exact List.drop_append_of_le_length (by rw [List.length_take]; omega)
    rw [between, between, between, this, residue_append]
  · rw [between, between, between, List.take_of_length_le (by omega : bs.length ≤ k),
      List.take_of_length_le (by omega : bs.length ≤ j),
      List.drop_eq_nil_of_le (by omega : bs.length ≤ j), residue_nil, mul_one]

theorem between_succ {s : Side} (h : (bs[i]?).map side = some s) :
    between side bs i (i + 1) = s.residue := by
  obtain ⟨b, hb, rfl⟩ := Option.map_eq_some_iff.mp h
  have hi : i < bs.length := (List.getElem?_eq_some_iff.mp hb).1
  have : (bs.take (i + 1)).drop i = [b] := by
    rw [List.take_add_one, hb, List.drop_append_of_le_length (by rw [List.length_take]; omega)]
    simp
  rw [between, this, residue_cons, residue_nil, mul_one]

/-- The first bracket of a stretch taken off. -/
theorem between_eq_mul {s : Side} (h : (bs[i]?).map side = some s) (hij : i < j) :
    between side bs i j = s.residue * between side bs (i + 1) j := by
  rw [← between_succ h, between_mul (Nat.le_succ i) hij]

/-- The last bracket of a stretch taken off. -/
theorem between_eq_mul_last {s : Side} (h : (bs[j]?).map side = some s) (hij : i ≤ j) :
    between side bs i (j + 1) = between side bs i j * s.residue := by
  rw [← between_succ h, between_mul hij (Nat.le_succ j)]

theorem between_zero : between side bs 0 j = residue side (bs.take j) := rfl

theorem between_cons_succ : between side (b :: bs) (i + 1) (j + 1) = between side bs i j := rfl

theorem between_cons_zero :
    between side (b :: bs) 0 (j + 1) = (side b).residue * between side bs 0 j := by
  simp [between]

theorem between_map (f : β → α) (cs : List β) :
    between side (cs.map f) i j = between (fun c => side (f c)) cs i j := by
  rw [between, between, ← List.map_take, ← List.map_drop, residue_map]

end BracketPaint
