/-!
# Decimal numerals

A **numeral** is one or more ASCII digits, with at most one plus sign before them. `numeral?` reads
one whose value stays below a limit; `numeral?_toDigits` says that the usual decimal text of such a
number reads back.
-/

namespace BracketPaint.Text

/-- One more than the largest offset that can be written down. -/
def wordLimit : Nat := 0x10000000000000000

/-- One more than the largest level that can be written down. -/
def levelLimit : Nat := 0x100000000

/-- The digits of a numeral, without its plus sign. -/
def unsignedPart : List Char → List Char
  | '+' :: cs => cs
  | cs => cs

/-- The value of a numeral, if it is one and stays below the limit. -/
def numeral? (limit : Nat) (cs : List Char) : Option Nat :=
  let digits := unsignedPart cs
  if digits ≠ [] ∧ digits.all Char.isDigit ∧ Nat.ofDigitChars 10 digits 0 < limit then
    some (Nat.ofDigitChars 10 digits 0)
  else none

theorem numeral?_eq_some_iff {limit n : Nat} {cs : List Char} :
    numeral? limit cs = some n ↔
      unsignedPart cs ≠ [] ∧ (unsignedPart cs).all Char.isDigit ∧
        Nat.ofDigitChars 10 (unsignedPart cs) 0 = n ∧ n < limit := by
  simp only [numeral?]
  split
  · simp only [Option.some.injEq]
    constructor
    · rintro rfl; simp_all
    · intro h; exact h.2.2.1
  · rename_i hn
    simp only [reduceCtorEq, false_iff]
    rintro ⟨h₁, h₂, rfl, h₃⟩
    exact hn ⟨h₁, h₂, h₃⟩

theorem unsignedPart_of_isDigit {cs : List Char} (h : ∀ c ∈ cs, c.isDigit) :
    unsignedPart cs = cs := by
  unfold unsignedPart
  split
  · exact absurd (h '+' List.mem_cons_self) (by decide)
  · rfl

theorem isDigit_of_mem_toDigits {c : Char} {n : Nat} (h : c ∈ Nat.toDigits 10 n) : c.isDigit :=
  Nat.isDigit_of_mem_toDigits (by decide) (by decide) h

/-- The decimal text of a number below the limit reads back. -/
theorem numeral?_toDigits {limit n : Nat} (h : n < limit) :
    numeral? limit (Nat.toDigits 10 n) = some n := by
  have hdigits : ∀ c ∈ Nat.toDigits 10 n, c.isDigit := fun _ hc => isDigit_of_mem_toDigits hc
  rw [numeral?_eq_some_iff, unsignedPart_of_isDigit hdigits]
  refine ⟨?_, by simpa using hdigits, Nat.ofDigitChars_toDigits (by decide) (by decide), h⟩
  exact List.ne_nil_of_length_pos Nat.length_toDigits_pos

end BracketPaint.Text
