import BracketPaint.Proofs.LineRuns
/-!
# Positions at the ends of lines

A position is accepted if it is on a line and not past the end of that line, break included
(`Buffer.Accepts`). Behind the break of a line the next line starts. So the last column of a line
and the first one of the next line denote the same offset, unless there is no next line, and that is
the only way for two positions to meet (`Buffer.positionOf_offsetOf`).

Lines are what is left when the text is cut behind each of its breaks (`Text.CutInto`). There is one
way to do that, because CR and LF are not cut apart.

An offset is given the position that ends no line. There is one such position for each offset,
because a line that is followed by another has a character, its break: lines start one behind the
other, and a position that ends no line lies before the start of all lines that follow.
-/

namespace BracketPaint

namespace Text

variable {sizes : List Nat} {cs ending : List Char} {ls : List (List Char)} {c : Char} {i : Nat}

/-! ### Cutting a text -/

/-- What ends a line: a character that does so by itself, or CR with LF behind it. -/
inductive LineEnding : List Char → Prop
  | single {c : Char} (h : isBreak c) : LineEnding [c]
  | crLf : LineEnding ['\r', '\n']

/-- The text cut behind each of its breaks, but not between CR and LF. -/
inductive CutInto : List Char → List (List Char) → Prop
  | last {line : List Char} (hline : ∀ c ∈ line, isBreak c = false) : CutInto line [line]
  | line {line ending rest : List Char} {ls : List (List Char)}
      (hline : ∀ c ∈ line, isBreak c = false) (hending : LineEnding ending)
      (hcrLf : ending = ['\r'] → rest.head? ≠ some '\n') (hrest : CutInto rest ls) :
      CutInto (line ++ (ending ++ rest)) ((line ++ ending) :: ls)

theorem lines_cons_of_not_isBreak (h : isBreak c = false) :
    lines (c :: cs) = consFirst c (lines cs) := by
  rw [lines, h]
  · rfl
  · rintro cs' rfl
    cases h

theorem lines_ending (h : LineEnding ending) (hcrLf : ending = ['\r'] → cs.head? ≠ some '\n') :
    lines (ending ++ cs) = ending :: lines cs := by
  cases h with
  | single h =>
      rw [List.singleton_append, lines, if_pos h]
      -- The equation is that of a break which is not a CR in front of LF.
      rintro cs' rfl rfl
      exact hcrLf rfl rfl
  | crLf => rfl

theorem lines_append_of_not_isBreak {line first : List Char} (h : ∀ c ∈ line, isBreak c = false)
    (hlines : lines cs = first :: ls) : lines (line ++ cs) = (line ++ first) :: ls := by
  induction line with
  | nil => exact hlines
  | cons c line ih =>
      rw [List.forall_mem_cons] at h
      rw [List.cons_append, lines_cons_of_not_isBreak h.1, ih h.2]
      rfl

theorem CutInto.eq_lines (h : CutInto cs ls) : ls = lines cs := by
  induction h with
  | @last line hline =>
      have hlines := lines_append_of_not_isBreak hline (show lines [] = [] :: [] from rfl)
      rw [List.append_nil] at hlines
      exact hlines.symm
  | line hline hending hcrLf hrest ih =>
      rw [ih]
      exact (lines_append_of_not_isBreak hline (lines_ending hending hcrLf)).symm

theorem CutInto.consFirst (h : CutInto cs ls) (hc : isBreak c = false) :
    CutInto (c :: cs) (consFirst c ls) := by
  cases h with
  | last hline => exact .last (List.forall_mem_cons.mpr ⟨hc, hline⟩)
  | line hline hending hcrLf hrest =>
      exact .line (List.forall_mem_cons.mpr ⟨hc, hline⟩) hending hcrLf hrest

theorem cutInto_lines (cs : List Char) : CutInto cs (lines cs) := by
  fun_induction lines cs with
  | case1 => exact .last (List.forall_mem_nil _)
  | case2 cs ih => exact .line (List.forall_mem_nil _) .crLf (fun h => absurd h (by decide)) ih
  | case3 c cs hcrLf hbreak ih =>
      refine .line (List.forall_mem_nil _) (.single hbreak) (fun hc hlf => ?_) ih
      obtain ⟨cs', rfl⟩ := List.head?_eq_some_iff.mp hlf
      exact hcrLf cs' (List.singleton_inj.mp hc) rfl
  | case4 c cs hcrLf hbreak ih => exact ih.consFirst (Bool.not_eq_true _ ▸ hbreak)

/-- A text is cut into its lines, and into nothing else. -/
theorem cutInto_iff : CutInto cs ls ↔ ls = lines cs :=
  ⟨CutInto.eq_lines, fun h => h ▸ cutInto_lines cs⟩

/-! ### The line of an offset -/

/-- An offset falls inside its line, unless that is the last one. -/
theorem locate_snd_lt {size : Nat} (hsize : sizes[(locate sizes i).1]? = some size)
    (hnext : (locate sizes i).1 + 1 < sizes.length) : (locate sizes i).2 < size := by
  fun_induction locate sizes i with
  | case1 first next sizes offset hlt =>
      obtain rfl := Option.some.inj hsize
      exact hlt
  | case2 first next sizes offset hge place ih =>
      exact ih hsize (Nat.lt_of_succ_lt_succ hnext)
  | case3 sizes offset hlast =>
      cases sizes with
      | nil => exact absurd hnext (Nat.not_lt_zero _)
      | cons first rest =>
          cases rest with
          | nil => exact absurd hnext (Nat.lt_irrefl _)
          | cons next rest => exact absurd rfl (hlast first next rest)

end Text

namespace Position

/-- The position where the next line starts. -/
def nextLine (p : Position) : Position := ⟨p.line + 1, 0⟩

theorem ext {p q : Position} (hline : p.line = q.line) (hcolumn : p.column = q.column) :
    p = q := by
  cases p
  cases q
  rw [mk.injEq]
  exact ⟨hline, hcolumn⟩

end Position

namespace Buffer

variable {b : Buffer} {p q : Position} {i : Nat}

/-- The position is on a line, and not past the end of that line, break included. -/
def Accepts (b : Buffer) (p : Position) : Prop :=
  p.line < b.lineCount ∧ p.column ≤ (b.line p.line).length

/-- The position is behind the break of a line, where the next line starts. -/
def EndsLine (b : Buffer) (p : Position) : Prop :=
  p.line + 1 < b.lineCount ∧ p.column = (b.line p.line).length

instance (b : Buffer) (p : Position) : Decidable (b.Accepts p) :=
  inferInstanceAs (Decidable (p.line < b.lineCount ∧ p.column ≤ (b.line p.line).length))

instance (b : Buffer) (p : Position) : Decidable (b.EndsLine p) :=
  inferInstanceAs (Decidable (p.line + 1 < b.lineCount ∧ p.column = (b.line p.line).length))

/-! ### The offset of a position -/

theorem offsetOf_of_accepts (h : b.Accepts p) :
    b.offsetOf p = .ok (b.lineStart p.line + p.column) := by
  rw [offsetOf, getElem?_lineSizes h.1]
  exact if_pos h.2

theorem offsetOf_of_not_accepts (h : ¬ b.Accepts p) :
    b.offsetOf p = .error (.positionOutOfBounds p.line p.column) := by
  by_cases hline : p.line < b.lineCount
  · rw [offsetOf, getElem?_lineSizes hline]
    exact if_neg fun hcolumn => h ⟨hline, hcolumn⟩
  · have hnone : b.lineSizes[p.line]? = none := by
      rw [List.getElem?_eq_none_iff, lineSizes, List.length_map]
      exact Nat.le_of_not_lt hline
    rw [offsetOf, hnone]

/-- A line stops where the next one starts, and the last one at the end of the text. -/
theorem Accepts.le_size (h : b.Accepts p) : b.lineStart p.line + p.column ≤ b.size := by
  have hsize : b.lines.flatten.length = b.size := by
    rw [lines, Text.flatten_lines, size, Array.length_toList]
  have hstop : b.lineStart (p.line + 1) ≤ b.size := by
    rw [lineStart, lineSizes, Text.startOf_map_length, ← hsize,
      ← congrArg List.flatten (List.take_append_drop (p.line + 1) b.lines), List.flatten_append,
      List.length_append]
    exact Nat.le_add_right _ _
  rw [lineStart_succ h.1] at hstop
  have := h.2
  omega

theorem EndsLine.accepts (h : b.EndsLine p) : b.Accepts p :=
  ⟨Nat.lt_of_succ_lt h.1, Nat.le_of_eq h.2⟩

theorem EndsLine.accepts_nextLine (h : b.EndsLine p) : b.Accepts p.nextLine :=
  ⟨h.1, Nat.zero_le _⟩

/-- The next line starts where the line ends. -/
theorem EndsLine.lineStart_nextLine (h : b.EndsLine p) :
    b.lineStart p.nextLine.line + p.nextLine.column = b.lineStart p.line + p.column := by
  rw [h.2]
  exact lineStart_succ h.accepts.1

/-- The start of a line is not the end of one: a line before another has a character. -/
theorem not_endsLine_nextLine (p : Position) : ¬ b.EndsLine p.nextLine := by
  intro h
  have hpos : 0 < (b.line p.nextLine.line).length := length_line_pos h.1
  exact Nat.ne_of_lt hpos h.2

/-! ### The position of an offset -/

/-- A position that ends no line lies before all lines that follow. -/
theorem offset_lt_lineStart (hp : b.Accepts p) (hend : ¬ b.EndsLine p) (hlt : p.line < i)
    (hi : i < b.lineCount) : b.lineStart p.line + p.column < b.lineStart i := by
  have hcolumn : p.column < (b.line p.line).length :=
    Nat.lt_of_le_of_ne hp.2 fun heq => hend ⟨by omega, heq⟩
  have hnext : b.lineStart (p.line + 1) ≤ b.lineStart i := lineStart_mono hlt hi
  rw [lineStart_succ hp.1] at hnext
  omega

/-- Positions that end no line are told apart by their offsets. -/
theorem eq_of_offset_eq (hp : b.Accepts p) (hpend : ¬ b.EndsLine p) (hq : b.Accepts q)
    (hqend : ¬ b.EndsLine q)
    (h : b.lineStart p.line + p.column = b.lineStart q.line + q.column) : p = q := by
  have hline : p.line = q.line := by
    rcases Nat.lt_trichotomy p.line q.line with hlt | heq | hgt
    · have := offset_lt_lineStart hp hpend hlt hq.1
      omega
    · exact heq
    · have := offset_lt_lineStart hq hqend hgt hp.1
      omega
  rw [hline] at h
  exact Position.ext hline (Nat.add_left_cancel h)

/-- The position of an offset denotes that offset, and ends no line. -/
theorem accepts_of_positionOf (h : b.positionOf i = .ok p) :
    b.Accepts p ∧ ¬ b.EndsLine p ∧ b.lineStart p.line + p.column = i := by
  unfold positionOf at h
  split at h
  · rename_i hle
    obtain rfl := Except.ok.inj h
    obtain ⟨size, hsize, hcolumn⟩ :=
      Text.exists_size_locate b.lineSizes_ne_nil (b.startOf_lineCount ▸ hle)
    have hline : (Text.locate b.lineSizes i).1 < b.lineCount := by
      have := (List.getElem?_eq_some_iff.mp hsize).1
      rwa [lineSizes, List.length_map] at this
    obtain rfl := Option.some.inj (hsize.symm.trans (getElem?_lineSizes hline))
    refine ⟨⟨hline, hcolumn⟩, fun hend => ?_, Text.startOf_locate _ _⟩
    -- There is a next line, so the column is before the end of this one.
    have hnext : (Text.locate b.lineSizes i).1 + 1 < b.lineSizes.length := by
      rw [lineSizes, List.length_map]
      exact hend.1
    exact Nat.ne_of_lt (Text.locate_snd_lt hsize hnext) hend.2
  · cases h

/-- The position of an offset is the one that denotes it and ends no line. -/
theorem positionOf_eq_ok_iff : b.positionOf i = .ok p ↔
    b.Accepts p ∧ ¬ b.EndsLine p ∧ b.lineStart p.line + p.column = i := by
  refine ⟨accepts_of_positionOf, ?_⟩
  rintro ⟨hp, hend, rfl⟩
  obtain ⟨q, hq, -⟩ := exists_positionOf hp.le_size
  obtain ⟨hq', hqend, hoffset⟩ := accepts_of_positionOf hq
  rw [hq, eq_of_offset_eq hq' hqend hp hend hoffset]

/-- The position of the offset that a position denotes. -/
theorem positionOf_of_accepts (h : b.Accepts p) :
    b.positionOf (b.lineStart p.line + p.column) =
      .ok (if b.EndsLine p then p.nextLine else p) := by
  rw [positionOf_eq_ok_iff]
  split
  · rename_i hend
    exact ⟨hend.accepts_nextLine, not_endsLine_nextLine p, hend.lineStart_nextLine⟩
  · rename_i hend
    exact ⟨h, hend, rfl⟩

/-- Two positions denote one offset only if one of them ends the line behind which the other is. -/
theorem eq_or_nextLine_of_offset_eq (hp : b.Accepts p) (hq : b.Accepts q)
    (h : b.lineStart p.line + p.column = b.lineStart q.line + q.column) :
    p = q ∨ b.EndsLine p ∧ q = p.nextLine ∨ b.EndsLine q ∧ p = q.nextLine := by
  have hposition := positionOf_of_accepts hp
  rw [h, positionOf_of_accepts hq, Except.ok.injEq] at hposition
  by_cases hpend : b.EndsLine p
  · rw [if_pos hpend] at hposition
    by_cases hqend : b.EndsLine q
    · rw [if_pos hqend] at hposition
      have hline : p.line = q.line := Nat.succ.inj (congrArg Position.line hposition.symm)
      refine Or.inl (Position.ext hline ?_)
      rw [hpend.2, hqend.2, hline]
    · rw [if_neg hqend] at hposition
      exact Or.inr (Or.inl ⟨hpend, hposition⟩)
  · rw [if_neg hpend] at hposition
    by_cases hqend : b.EndsLine q
    · rw [if_pos hqend] at hposition
      exact Or.inr (Or.inr ⟨hqend, hposition.symm⟩)
    · rw [if_neg hqend] at hposition
      exact Or.inl hposition.symm

/-- **Positions and offsets.** The lines of a text are what it is cut into behind its breaks. A
position that is not accepted is out of bounds. One that is accepted denotes the offset behind the
lines and the columns before it. It is the position of that offset, unless it ends a line before
another: then that is where the next line starts. Two positions denote one offset only if they are
equal or one of them ends the line behind which the other is. -/
theorem positionOf_offsetOf (b : Buffer) :
    (∀ ls, Text.CutInto b.chars.toList ls ↔ ls = b.lines) ∧
    (∀ p, b.offsetOf p = .error (.positionOutOfBounds p.line p.column) ↔ ¬ b.Accepts p) ∧
    (∀ p, b.Accepts p → ∃ i, b.offsetOf p = .ok i ∧
      i = (b.lines.take p.line).flatten.length + p.column ∧
      b.positionOf i = .ok (if b.EndsLine p then p.nextLine else p)) ∧
    ∀ p q, b.Accepts p → b.Accepts q → (b.offsetOf p = b.offsetOf q ↔
      p = q ∨ b.EndsLine p ∧ q = p.nextLine ∨ b.EndsLine q ∧ p = q.nextLine) := by
  refine ⟨fun ls => Text.cutInto_iff, fun p => ?_, fun p hp => ?_, fun p q hp hq => ?_⟩
  · refine ⟨fun h hp => ?_, offsetOf_of_not_accepts⟩
    rw [offsetOf_of_accepts hp] at h
    cases h
  · refine ⟨_, offsetOf_of_accepts hp, ?_, positionOf_of_accepts hp⟩
    rw [lineStart, lineSizes, Text.startOf_map_length]
  · rw [offsetOf_of_accepts hp, offsetOf_of_accepts hq, Except.ok.injEq]
    refine ⟨eq_or_nextLine_of_offset_eq hp hq, ?_⟩
    rintro (rfl | ⟨hend, rfl⟩ | ⟨hend, rfl⟩)
    · rfl
    · exact hend.lineStart_nextLine.symm
    · exact hend.lineStart_nextLine

/-- Between CR and LF a position is its own, and behind them it is that of the next line. The end of
the text, where no line follows, has one position only. -/
theorem positionOf_offsetOf_crLf :
    ((ofString "a\r\nb").Accepts ⟨0, 2⟩ ∧ (ofString "a\r\nb").offsetOf ⟨0, 2⟩ = .ok 2 ∧
      (ofString "a\r\nb").positionOf 2 = .ok ⟨0, 2⟩) ∧
    ((ofString "a\r\nb").Accepts ⟨0, 3⟩ ∧ (ofString "a\r\nb").Accepts ⟨1, 0⟩ ∧
      (ofString "a\r\nb").offsetOf ⟨0, 3⟩ = (ofString "a\r\nb").offsetOf ⟨1, 0⟩ ∧
      (ofString "a\r\nb").positionOf 3 = .ok ⟨1, 0⟩) ∧
    (ofString "a\r\nb").offsetOf ⟨1, 2⟩ = .error (.positionOutOfBounds 1 2) := by
  obtain ⟨-, herror, hok, hmeet⟩ := positionOf_offsetOf (ofString "a\r\nb")
  have hinside : (ofString "a\r\nb").Accepts ⟨0, 2⟩ := by decide
  have hend : (ofString "a\r\nb").Accepts ⟨0, 3⟩ := by decide
  have hstart : (ofString "a\r\nb").Accepts ⟨1, 0⟩ := by decide
  obtain ⟨i, hoffset, rfl, hposition⟩ := hok _ hinside
  obtain ⟨j, -, rfl, hnext⟩ := hok _ hend
  refine ⟨⟨hinside, hoffset, hposition⟩, ⟨hend, hstart, ?_, hnext⟩, (herror _).mpr (by decide)⟩
  exact (hmeet _ _ hend hstart).mpr (Or.inr (Or.inl ⟨by decide, rfl⟩))

end Buffer
end BracketPaint
