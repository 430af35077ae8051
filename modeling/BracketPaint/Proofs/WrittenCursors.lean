import Mathlib.Data.List.Induction
import BracketPaint.Proofs.Positions
/-!
# Written cursors

A cursor is written as an offset, or as a line and a column with a colon between them. Each of these
numbers is a numeral, with white space around it or not (`CursorSpec.Written`). Just what is written
that way is read, and all else is refused with the text as it is (`CursorSpec.parse_iff_written`).

The grammar says nothing of how a text is read. The readers cut it at the first colon, take white
space and a plus sign off, and ask whether digits are left; their value is the one that the grammar
gives to the digits one by one.
-/

namespace BracketPaint

namespace Text

variable {cs : List Char} {c : Char} {n limit : Nat}

/-! ### Numerals -/

/-- Decimal digits, at least one, and the number that they denote. -/
inductive Decimal : List Char → Nat → Prop
  | digit {c : Char} (hc : c.isDigit) : Decimal [c] (c.toNat - '0'.toNat)
  | append {cs : List Char} {n : Nat} {c : Char} (hcs : Decimal cs n) (hc : c.isDigit) :
      Decimal (cs ++ [c]) (10 * n + (c.toNat - '0'.toNat))

/-- A numeral: decimal digits, with at most one plus sign before them. -/
inductive Numeral : List Char → Nat → Prop
  | unsigned {cs : List Char} {n : Nat} (h : Decimal cs n) : Numeral cs n
  | signed {cs : List Char} {n : Nat} (h : Decimal cs n) : Numeral ('+' :: cs) n

theorem ofDigitChars_append_singleton (cs : List Char) (c : Char) :
    Nat.ofDigitChars 10 (cs ++ [c]) 0 =
      10 * Nat.ofDigitChars 10 cs 0 + (c.toNat - '0'.toNat) := by
  rw [Nat.ofDigitChars_append, Nat.ofDigitChars_cons, Nat.ofDigitChars_nil]

theorem decimal_iff :
    Decimal cs n ↔ cs ≠ [] ∧ (∀ c ∈ cs, c.isDigit) ∧ Nat.ofDigitChars 10 cs 0 = n := by
  constructor
  · intro h
    induction h with
    | digit hc =>
        refine ⟨List.cons_ne_nil _ _, by simpa using hc, ?_⟩
        rw [Nat.ofDigitChars_cons, Nat.ofDigitChars_nil, Nat.mul_zero, Nat.zero_add]
    | append hcs hc ih =>
        obtain ⟨-, hdigits, rfl⟩ := ih
        refine ⟨by simp, ?_, ofDigitChars_append_singleton _ _⟩
        rw [List.forall_mem_append, List.forall_mem_singleton]
        exact ⟨hdigits, hc⟩
  · rintro ⟨hne, hdigits, rfl⟩
    -- The grammar adds digits at the end, so the last one is taken off.
    induction cs using List.reverseRecOn with
    | nil => exact absurd rfl hne
    | append_singleton cs c ih =>
        rw [List.forall_mem_append, List.forall_mem_singleton] at hdigits
        rw [ofDigitChars_append_singleton]
        rcases eq_or_ne cs [] with rfl | hcs
        · simpa using Decimal.digit hdigits.2
        · exact .append (ih hcs hdigits.1) hdigits.2

/-- A numeral is what is digits without its plus sign. -/
theorem numeral_iff : Numeral cs n ↔ Decimal (unsignedPart cs) n := by
  constructor
  · intro h
    cases h with
    | unsigned h => rwa [unsignedPart_of_isDigit (decimal_iff.mp h).2.1]
    | signed h => exact h
  · intro h
    unfold unsignedPart at h
    split at h
    · exact .signed h
    · exact .unsigned h

/-- The numerals below the limit are read, each as what it denotes, and nothing else is. -/
theorem numeral?_eq_some_iff_numeral :
    numeral? limit cs = some n ↔ Numeral cs n ∧ n < limit := by
  rw [numeral?_eq_some_iff, numeral_iff, decimal_iff, List.all_eq_true]
  tauto

theorem Numeral.isBlank_eq_false (h : Numeral cs n) : ∀ c ∈ cs, isBlank c = false := by
  have hdigits : ∀ {ds : List Char}, Decimal ds n → ∀ c ∈ ds, isBlank c = false :=
    fun h c hc => isBlank_eq_false_of_isDigit ((decimal_iff.mp h).2.1 c hc)
  cases h with
  | unsigned h => exact hdigits h
  | signed h => exact List.forall_mem_cons.mpr ⟨rfl, hdigits h⟩

/-- The text is a numeral of 64 bits with white space around it. -/
def PaddedNumeral (cs : List Char) (n : Nat) : Prop :=
  ∃ numeral, Padded numeral cs ∧ Numeral numeral n ∧ n < wordLimit

theorem numeral?_trim_eq_some_iff :
    numeral? wordLimit (trim cs) = some n ↔ PaddedNumeral cs n := by
  rw [numeral?_eq_some_iff_numeral]
  constructor
  · exact fun h => ⟨trim cs, padded_trim cs, h⟩
  · rintro ⟨numeral, hpadded, hnumeral, hlt⟩
    rw [hpadded.trim_eq hnumeral.isBlank_eq_false]
    exact ⟨hnumeral, hlt⟩

end Text

/-! ### Positions -/

namespace Position

variable {p : Position} {cs : List Char} {n : Nat}

theorem ordinal?_eq_some_iff : ordinal? cs = some n ↔ Text.PaddedNumeral cs (n + 1) := by
  rw [← Text.numeral?_trim_eq_some_iff, ordinal?]
  cases Text.numeral? Text.wordLimit (Text.trim cs) with
  | none => simp
  | some m => cases m <;> simp

/-- The text is a line and a column, counted from one, before and behind the first colon. -/
def Written (cs : List Char) (p : Position) : Prop :=
  ∃ line column, cs = line ++ ':' :: column ∧ ':' ∉ line ∧
    Text.PaddedNumeral line (p.line + 1) ∧ Text.PaddedNumeral column (p.column + 1)

theorem parse?_of_no_colon (h : ':' ∉ cs) : parse? cs = none := by
  have hcs : ∀ c ∈ cs, decide (c ≠ ':') = true := by
    intro c hc
    rw [decide_eq_true_eq]
    rintro rfl
    exact h hc
  have hdrop : cs.dropWhile (· ≠ ':') = [] := by
    rw [← List.append_nil cs, List.dropWhile_append_of_pos hcs, List.dropWhile_nil]
  rw [parse?, hdrop]

theorem parse?_eq_some_iff : parse? cs = some p ↔ Written cs p := by
  constructor
  · intro h
    by_cases hmem : ':' ∈ cs
    · obtain ⟨line, column, rfl, hcolon⟩ := List.eq_append_cons_of_mem hmem
      rw [parse?_append hcolon] at h
      obtain ⟨i, hline, h⟩ := Option.bind_eq_some_iff.mp h
      obtain ⟨j, hcolumn, h⟩ := Option.bind_eq_some_iff.mp h
      obtain rfl := Option.some.inj h
      exact ⟨line, column, rfl, hcolon, ordinal?_eq_some_iff.mp hline,
        ordinal?_eq_some_iff.mp hcolumn⟩
    · rw [parse?_of_no_colon hmem] at h
      cases h
  · rintro ⟨line, column, rfl, hcolon, hline, hcolumn⟩
    rw [parse?_append hcolon, ordinal?_eq_some_iff.mpr hline, ordinal?_eq_some_iff.mpr hcolumn]
    rfl

end Position

/-! ### Cursors -/

namespace CursorSpec

variable {s : String} {c : CursorSpec}

/-- How a cursor is written: as a numeral without a colon, or as a position. -/
inductive Written (cs : List Char) : CursorSpec → Prop
  | offset {n : Nat} (hcolon : ':' ∉ cs) (h : Text.PaddedNumeral cs n) : Written cs (.offset n)
  | position {p : Position} (h : p.Written cs) : Written cs (.position p)

theorem parse_of_written (h : Written s.toList c) : parse s = .ok c := by
  cases h with
  | offset hcolon h => rw [parse, if_neg hcolon, Text.numeral?_trim_eq_some_iff.mpr h]
  | position h =>
      have hcolon : ':' ∈ s.toList := by
        obtain ⟨line, column, heq, -⟩ := h
        exact heq ▸ List.mem_append_right _ List.mem_cons_self
      rw [parse, if_pos hcolon, Position.parse, Position.parse?_eq_some_iff.mpr h]
      rfl

/-- A text is read as a cursor that it is written for, or it is refused as it is. -/
theorem parse_cases (s : String) :
    (∃ c, parse s = .ok c ∧ Written s.toList c) ∨ parse s = .error (.invalidPosition s) := by
  by_cases hcolon : ':' ∈ s.toList
  · rw [parse, if_pos hcolon, Position.parse]
    cases hp : Position.parse? s.toList with
    | some p => exact Or.inl ⟨_, rfl, .position (Position.parse?_eq_some_iff.mp hp)⟩
    | none => exact Or.inr rfl
  · rw [parse, if_neg hcolon]
    cases hn : Text.numeral? Text.wordLimit (Text.trim s.toList) with
    | some n => exact Or.inl ⟨_, rfl, .offset hcolon (Text.numeral?_trim_eq_some_iff.mp hn)⟩
    | none => exact Or.inr rfl

/-- An offset is a numeral, written without white space and without a sign. -/
theorem written_toString {n : Nat} (h : n < Text.wordLimit) :
    Written (toString n).toList (.offset n) := by
  rw [show (toString n).toList = Nat.toDigits 10 n from String.toList_ofList]
  refine .offset (fun hmem => Text.ne_colon_of_mem_toDigits hmem rfl) ?_
  rw [← Text.numeral?_trim_eq_some_iff, Text.trim_toDigits]
  exact Text.numeral?_toDigits h

/-- **Written cursors.** A text is read as a cursor exactly if the cursor is written that way, and a
text that is no written cursor is refused with that text in the error. The decimal text of an offset
and the written form of a position are read back, if their numbers have 64 bits. -/
theorem parse_iff_written :
    (∀ s c, parse s = .ok c ↔ Written s.toList c) ∧
    (∀ s, parse s = .error (.invalidPosition s) ↔ ∀ c, ¬ Written s.toList c) ∧
    (∀ n < Text.wordLimit, parse (toString n) = .ok (.offset n)) ∧
    ∀ p : Position, p.line + 1 < Text.wordLimit → p.column + 1 < Text.wordLimit →
      parse p.display = .ok (.position p) := by
  refine ⟨fun s c => ⟨fun h => ?_, parse_of_written⟩, fun s => ⟨fun h c hc => ?_, fun h => ?_⟩,
    fun n hn => parse_of_written (written_toString hn), fun p => parse_display⟩
  · rcases parse_cases s with ⟨d, hd, hwritten⟩ | herror
    · rw [hd] at h
      obtain rfl := Except.ok.inj h
      exact hwritten
    · rw [herror] at h
      cases h
  · rw [parse_of_written hc] at h
    cases h
  · exact (parse_cases s).resolve_left fun ⟨c, _, hc⟩ => h c hc

/-- The largest offset and the largest line are read back. Leading zeros, a sign and white space
make no difference, but a colon behind the first one does. -/
theorem parse_iff_written_largest :
    (0xFFFFFFFFFFFFFFFF < Text.wordLimit ∧
      parse (toString 0xFFFFFFFFFFFFFFFF) = .ok (.offset 0xFFFFFFFFFFFFFFFF)) ∧
    (0xFFFFFFFFFFFFFFFE + 1 < Text.wordLimit ∧ 0 + 1 < Text.wordLimit ∧
      parse (Position.display ⟨0xFFFFFFFFFFFFFFFE, 0⟩) =
        .ok (.position ⟨0xFFFFFFFFFFFFFFFE, 0⟩)) ∧
    parse " +03 : 7" = .ok (.position ⟨2, 6⟩) ∧
    parse "3:7:" = .error (.invalidPosition "3:7:") ∧ ∀ c, ¬ Written "3:7:".toList c := by
  obtain ⟨hok, herror, hoffset, hposition⟩ := parse_iff_written
  have hline : Text.PaddedNumeral " +03 ".toList 3 := Text.numeral?_trim_eq_some_iff.mp (by decide)
  have hcolumn : Text.PaddedNumeral " 7".toList 7 := Text.numeral?_trim_eq_some_iff.mp (by decide)
  refine ⟨⟨by decide, hoffset _ (by decide)⟩,
    ⟨by decide, by decide, hposition _ (by decide) (by decide)⟩, ?_, by decide,
    (herror _).mp (by decide)⟩
  exact (hok _ _).mpr (.position ⟨_, _, by decide, by decide, hline, hcolumn⟩)

end CursorSpec
end BracketPaint
