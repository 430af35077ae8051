import BracketPaint.Buffer
/-!
# Offsets and their positions

Every offset of a buffer has a position. Its written form reads back as that position, and the
position leads back to the offset (`Buffer.positionOf_display`). Later offsets have later positions.

Both ways go through the sizes of the lines. `locate` walks over them and takes them off the offset,
and `startOf` adds them up again, so what is asked of a place is that its line exists and that its
column does not go past the end of the line.

Numbers have a limit in their written form, but no text of a size below it reaches it: a text has at
most one line more than it has characters.
-/

namespace BracketPaint

namespace Text

variable {sizes : List Nat} {cs : List Char} {c : Char} {i j : Nat}

/-! ### Lines and their sizes -/

theorem length_consFirst {ls : List (List Char)} (hne : ls ≠ []) :
    (consFirst c ls).length = ls.length := by
  cases ls with
  | nil => exact absurd rfl hne
  | cons line rest => rfl

/-- Every line but the last one has a character, its break. -/
theorem length_lines_le (cs : List Char) : (lines cs).length ≤ cs.length + 1 := by
  fun_induction lines cs with
  | case1 => exact Nat.le_refl 1
  | case2 cs ih =>
      simp only [List.length_cons]
      omega
  | case3 c cs _ _ ih =>
      simp only [List.length_cons]
      omega
  | case4 c cs _ _ ih =>
      rw [length_consFirst (lines_ne_nil cs), List.length_cons]
      omega

/-- Where a line starts: behind the characters of the lines before it. -/
theorem startOf_map_length (ls : List (List Char)) (i : Nat) :
    startOf (ls.map List.length) i = (ls.take i).flatten.length := by
  induction ls generalizing i with
  | nil => simp [startOf]
  | cons line ls ih =>
      cases i with
      | zero => rfl
      | succ i =>
          rw [List.map_cons, startOf, ih, List.take_succ_cons, List.flatten_cons,
            List.length_append]

/-! ### The place of an offset -/

/-- An offset that is not past the end falls on a line, and not past the end of that line. -/
theorem exists_size_locate (hne : sizes ≠ []) (h : i ≤ startOf sizes sizes.length) :
    ∃ size, sizes[(locate sizes i).1]? = some size ∧ (locate sizes i).2 ≤ size := by
  fun_induction locate sizes i with
  | case1 size next sizes offset hlt => exact ⟨size, rfl, Nat.le_of_lt hlt⟩
  | case2 size next sizes offset hge place ih =>
      rw [List.length_cons, startOf] at h
      obtain ⟨size', hsize', hle⟩ := ih (List.cons_ne_nil _ _) (by omega)
      exact ⟨size', hsize', hle⟩
  | case3 sizes offset hlast =>
      cases sizes with
      | nil => exact absurd rfl hne
      | cons size rest =>
          cases rest with
          | nil => exact ⟨size, rfl, h⟩
          | cons next rest => exact absurd rfl (hlast size next rest)

/-- A later offset falls on a later line, or further behind on the same one. -/
theorem locate_lt (sizes : List Nat) (h : i < j) :
    (locate sizes i).1 < (locate sizes j).1 ∨
      (locate sizes i).1 = (locate sizes j).1 ∧ (locate sizes i).2 < (locate sizes j).2 := by
  fun_induction locate sizes i generalizing j with
  | case1 size next sizes offset hlt =>
      rw [locate]
      split
      · exact Or.inr ⟨rfl, h⟩
      · exact Or.inl (Nat.succ_pos _)
  | case2 size next sizes offset hge place =>
      rename_i ih
      have hplaces : place.1 < (locate (next :: sizes) (j - size)).1 ∨
          place.1 = (locate (next :: sizes) (j - size)).1 ∧
            place.2 < (locate (next :: sizes) (j - size)).2 := ih (by omega)
      rw [locate, if_neg (by omega)]
      dsimp only
      omega
  | case3 sizes offset hlast =>
      have hj : locate sizes j = (0, j) := by
        cases sizes with
        | nil => rfl
        | cons size rest =>
            cases rest with
            | nil => rfl
            | cons next rest => exact absurd rfl (hlast size next rest)
      rw [hj]
      exact Or.inr ⟨rfl, h⟩

/-! ### Decimal texts -/

theorem isBlank_eq_false_of_isDigit (h : c.isDigit) : isBlank c = false := by
  simp only [Char.isDigit, Bool.and_eq_true, decide_eq_true_eq, ge_iff_le, UInt32.le_iff_toNat_le]
    at h
  change 48 ≤ c.toNat ∧ c.toNat ≤ 57 at h
  simp only [isBlank, Bool.or_eq_false_iff, Bool.and_eq_false_iff, decide_eq_false_iff_not,
    beq_eq_false_iff_ne]
  omega

/-- Decimal digits have no white space at their ends. -/
theorem trim_toDigits (n : Nat) : trim (Nat.toDigits 10 n) = Nat.toDigits 10 n :=
  trim_eq_self
    (fun _ hc => isBlank_eq_false_of_isDigit (isDigit_of_mem_toDigits (List.mem_of_head? hc)))
    (fun _ hc => isBlank_eq_false_of_isDigit (isDigit_of_mem_toDigits (List.mem_of_getLast? hc)))

theorem ne_colon_of_mem_toDigits {n : Nat} (h : c ∈ Nat.toDigits 10 n) : c ≠ ':' := by
  rintro rfl
  exact absurd (isDigit_of_mem_toDigits h) (by decide)

end Text

/-! ### Written positions -/

namespace Position

variable {p q : Position} {n : Nat}

/-- A count from zero reads back from the text of its successor. -/
theorem ordinal?_toDigits (h : n + 1 < Text.wordLimit) :
    ordinal? (Nat.toDigits 10 (n + 1)) = some n := by
  rw [ordinal?, Text.trim_toDigits, Text.numeral?_toDigits h]
  rfl

theorem toList_display (p : Position) :
    p.display.toList = Nat.toDigits 10 (p.line + 1) ++ ':' :: Nat.toDigits 10 (p.column + 1) := by
  simp [display, ToString.toString, Nat.repr]

/-- A written position is cut at its first colon. -/
theorem parse?_append {line column : List Char} (hcolon : ':' ∉ line) :
    parse? (line ++ ':' :: column) = do return ⟨← ordinal? line, ← ordinal? column⟩ := by
  have hline : ∀ c ∈ line, decide (c ≠ ':') = true := by
    intro c hc
    rw [decide_eq_true_eq]
    rintro rfl
    exact hcolon hc
  rw [parse?, List.dropWhile_append_of_pos hline, List.takeWhile_append_of_pos hline]
  simp

/-- The written form of a position reads back, if its numbers are below the limit. -/
theorem parse?_display (hline : p.line + 1 < Text.wordLimit)
    (hcolumn : p.column + 1 < Text.wordLimit) : parse? p.display.toList = some p := by
  have hcolon : ':' ∉ Nat.toDigits 10 (p.line + 1) := fun h => Text.ne_colon_of_mem_toDigits h rfl
  rw [toList_display, parse?_append hcolon, ordinal?_toDigits hline, ordinal?_toDigits hcolumn]
  rfl

theorem compare_eq_lt_iff : compare p q = .lt ↔
    p.line < q.line ∨ p.line = q.line ∧ p.column < q.column := by
  have hle : p ≤ q ↔ p.line < q.line ∨ p.line = q.line ∧ p.column ≤ q.column := Iff.rfl
  have heq : p = q ↔ p.line = q.line ∧ p.column = q.column := by
    cases p
    cases q
    simp
  have hcompare : compare p q = .lt ↔ p ≠ q ∧ p ≤ q := by
    show (if p = q then Ordering.eq else if p ≤ q then .lt else .gt) = .lt ↔ _
    by_cases hpq : p = q
    · simp [hpq]
    · simp [hpq]
  rw [hcompare, Ne, heq, hle]
  omega

end Position

/-- A written position is a written cursor. -/
theorem CursorSpec.parse_display {p : Position} (hline : p.line + 1 < Text.wordLimit)
    (hcolumn : p.column + 1 < Text.wordLimit) :
    CursorSpec.parse p.display = .ok (.position p) := by
  have hcolon : ':' ∈ p.display.toList := by
    rw [Position.toList_display]
    simp
  rw [CursorSpec.parse, if_pos hcolon, Position.parse, Position.parse?_display hline hcolumn]
  rfl

/-! ### Positions in a buffer -/

namespace Buffer

variable {b : Buffer} {i j : Nat}

theorem startOf_lineCount (b : Buffer) : Text.startOf b.lineSizes b.lineSizes.length = b.size := by
  rw [lineSizes, List.length_map, Text.startOf_map_length, List.take_length, lines,
    Text.flatten_lines, size, Array.length_toList]

theorem lineSizes_ne_nil (b : Buffer) : b.lineSizes ≠ [] := by
  rw [lineSizes, Ne, List.map_eq_nil_iff]
  exact Text.lines_ne_nil _

/-- The position of an offset leads back to it. -/
theorem exists_positionOf (h : i ≤ b.size) : ∃ p, b.positionOf i = .ok p ∧ b.offsetOf p = .ok i ∧
    p.line ≤ b.size ∧ p.column ≤ b.size := by
  have hstart := Text.startOf_locate b.lineSizes i
  obtain ⟨size, hsize, hle⟩ := Text.exists_size_locate b.lineSizes_ne_nil (b.startOf_lineCount ▸ h)
  have hline := (List.getElem?_eq_some_iff.mp hsize).1
  refine ⟨⟨(Text.locate b.lineSizes i).1, (Text.locate b.lineSizes i).2⟩, if_pos h, ?_, ?_, ?_⟩
  · rw [offsetOf, hsize]
    dsimp only
    rw [if_pos hle, hstart]
  · rw [lineSizes, List.length_map] at hline
    have hcount : b.lines.length ≤ b.size + 1 := Text.length_lines_le b.chars.toList
    show (Text.locate b.lineSizes i).1 ≤ b.size
    rw [lineSizes]
    omega
  · show (Text.locate b.lineSizes i).2 ≤ b.size
    omega

/-- **Positions denote their offsets.** Each offset of a buffer has a position, whose written form
reads back as a cursor at that position, and there is the offset. Positions are in the order of
their offsets. -/
theorem positionOf_display (hsize : b.size + 1 < Text.wordLimit) :
    (∀ i ≤ b.size, ∃ p, b.positionOf i = .ok p ∧
      CursorSpec.parse p.display = .ok (.position p) ∧ b.offsetOf p = .ok i) ∧
    ∀ i j, i < j → j ≤ b.size → ∃ p q, b.positionOf i = .ok p ∧ b.positionOf j = .ok q ∧
      compare p q = .lt := by
  constructor
  · intro i hi
    obtain ⟨p, hp, hoffset, hline, hcolumn⟩ := exists_positionOf hi
    exact ⟨p, hp, CursorSpec.parse_display (by omega) (by omega), hoffset⟩
  · intro i j hij hj
    refine ⟨_, _, if_pos (by omega), if_pos hj, ?_⟩
    rw [Position.compare_eq_lt_iff]
    exact Text.locate_lt b.lineSizes hij

/-- The offset between CR and LF lies on the line that they end, and the end of the text on the
empty line behind its last break. -/
theorem positionOf_display_crLf :
    (ofString "a\r\nb\n").size + 1 < Text.wordLimit ∧
    (ofString "a\r\nb\n").positionOf 2 = .ok ⟨0, 2⟩ ∧
      (ofString "a\r\nb\n").offsetOf ⟨0, 2⟩ = .ok 2 ∧
    (ofString "a\r\nb\n").positionOf 5 = .ok ⟨2, 0⟩ ∧
      CursorSpec.parse (Position.display ⟨2, 0⟩) = .ok (.position ⟨2, 0⟩) ∧
    compare (⟨0, 2⟩ : Position) ⟨2, 0⟩ = .lt := by
  have hsize : (ofString "a\r\nb\n").size + 1 < Text.wordLimit := by decide
  have hinside : (ofString "a\r\nb\n").positionOf 2 = .ok ⟨0, 2⟩ := rfl
  have hend : (ofString "a\r\nb\n").positionOf 5 = .ok ⟨2, 0⟩ := rfl
  obtain ⟨hback, horder⟩ := positionOf_display hsize
  obtain ⟨p, hp, -, hoffset⟩ := hback 2 (by decide)
  obtain rfl := Except.ok.inj (hinside.symm.trans hp)
  obtain ⟨q, hq, hparse, -⟩ := hback 5 (by decide)
  obtain rfl := Except.ok.inj (hend.symm.trans hq)
  obtain ⟨p, q, hp', hq', hlt⟩ := horder 2 5 (by decide) (by decide)
  obtain rfl := Except.ok.inj (hp.symm.trans hp')
  obtain rfl := Except.ok.inj (hq.symm.trans hq')
  exact ⟨hsize, hinside, hoffset, hend, hparse, hlt⟩

end Buffer
end BracketPaint
