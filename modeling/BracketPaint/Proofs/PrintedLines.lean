import BracketPaint.CommandLine.Command
import BracketPaint.Proofs.PaintedOnce
import BracketPaint.Proofs.Positions
import BracketPaint.Proofs.Scanned
/-!
# A plan is printed line by line

What a pass paints lies in the buffer, so that all of it can be printed: one line for each region, in
the order of the plan, with the text that stands in the region (`CommandLine.planLines_highlight`).

A bracket may reach out of the region that is examined, but not out of the buffer, since its whole
text is looked for there. A scope ends with its right bracket, its parts lie between its brackets,
and a stroke covers nothing but characters of parts. So the bound goes from the bracket that was
found to the stroke that is printed.

A printed line has four **cells**, with tabs between them. Neither tabs nor line feeds occur in a
cell, because those of the text are shown as escapes; so the print can be cut at its line feeds, and
each line at its tabs, whatever stands in the buffer.
-/

namespace BracketPaint

/-! ### Cells -/

namespace Text

/-- The characters keep to one cell of a line: there is no tab and no line feed among them. -/
def IsCell (cs : List Char) : Prop := ∀ c ∈ cs, c ≠ '\t' ∧ c ≠ '\n'

variable {as bs cs : List Char} {c : Char} {n : Nat}

theorem isCell_nil : IsCell [] := by simp [IsCell]

theorem isCell_cons : IsCell (c :: cs) ↔ (c ≠ '\t' ∧ c ≠ '\n') ∧ IsCell cs :=
  List.forall_mem_cons

theorem isCell_append : IsCell (as ++ bs) ↔ IsCell as ∧ IsCell bs :=
  List.forall_mem_append

theorem IsCell.tab_not_mem (h : IsCell cs) : '\t' ∉ cs := fun hmem => (h _ hmem).1 rfl

theorem IsCell.lineFeed_not_mem (h : IsCell cs) : '\n' ∉ cs := fun hmem => (h _ hmem).2 rfl

theorem isCell_toDigits (n : Nat) : IsCell (Nat.toDigits 10 n) := by
  intro c hc
  have hdigit := isDigit_of_mem_toDigits hc
  constructor
  · rintro rfl
    exact absurd hdigit (by decide)
  · rintro rfl
    exact absurd hdigit (by decide)

theorem isCell_hexPair (b : UInt8) : IsCell (hexPair b) := by
  have hdigit : ∀ m : Fin 16, hexDigit m ≠ '\t' ∧ hexDigit m ≠ '\n' := by decide
  have hlt := b.toNat_lt
  exact isCell_cons.mpr ⟨hdigit ⟨b.toNat / 16, by omega⟩,
    isCell_cons.mpr ⟨hdigit ⟨b.toNat % 16, by omega⟩, isCell_nil⟩⟩

theorem exists_digitChar_of_mem_hexLower (h : c ∈ hexLower n) :
    ∃ d : Fin 16, c = Nat.digitChar d := by
  induction n using Nat.strongRecOn with
  | ind n ih =>
      rw [hexLower, Nat.toDigits_eq_if (by decide)] at h
      by_cases hlt : n < 16
      · rw [if_pos hlt, List.mem_singleton] at h
        exact ⟨⟨n, hlt⟩, h⟩
      · rw [if_neg hlt, List.mem_append, List.mem_singleton] at h
        rcases h with h | h
        · exact ih (n / 16) (by omega) h
        · exact ⟨⟨n % 16, by omega⟩, h⟩

theorem isCell_hexLower (n : Nat) : IsCell (hexLower n) := by
  have hdigit : ∀ d : Fin 16, Nat.digitChar d ≠ '\t' ∧ Nat.digitChar d ≠ '\n' := by decide
  intro c hc
  obtain ⟨d, rfl⟩ := exists_digitChar_of_mem_hexLower hc
  exact hdigit d

theorem isCell_escapeLetter {letter : Char} (h : escapeLetter? c = some letter) :
    IsCell ['\\', letter] := by
  unfold escapeLetter? at h
  repeat' split at h
  all_goals simp_all [IsCell]
  all_goals subst h; decide

/-- A character that is shown as it is has no escape, so it is no tab and no line feed. -/
theorem isCell_quoteChar (c : Char) : IsCell (quoteChar c) := by
  unfold quoteChar
  cases hletter : escapeLetter? c with
  | some letter => exact isCell_escapeLetter hletter
  | none =>
      dsimp only
      split
      · refine isCell_cons.mpr ⟨⟨?_, ?_⟩, isCell_nil⟩
        · rintro rfl
          cases hletter
        · rintro rfl
          cases hletter
      · rw [List.cons_append, List.cons_append, List.cons_append, isCell_cons, isCell_cons,
          isCell_cons, isCell_append]
        exact ⟨by decide, by decide, by decide, isCell_hexLower _, by simp [IsCell]⟩

/-- A quoted text keeps to one cell, whatever the text. -/
theorem isCell_quote (cs : List Char) : IsCell (quote cs) := by
  rw [quote, List.cons_append, isCell_cons, isCell_append]
  refine ⟨by decide, ?_, by simp [IsCell]⟩
  intro c hc
  obtain ⟨d, -, hd⟩ := List.mem_flatMap.mp hc
  exact isCell_quoteChar d c hd

end Text

theorem Position.isCell_display (p : Position) : Text.IsCell p.display.toList := by
  rw [toList_display, Text.isCell_append, Text.isCell_cons]
  exact ⟨Text.isCell_toDigits _, by decide, Text.isCell_toDigits _⟩

theorem Region.isCell_display (r : Region) : Text.IsCell r.display.toList := by
  have hchars : r.display.toList =
      '[' :: Nat.toDigits 10 r.start ++ ',' :: ' ' :: Nat.toDigits 10 r.stop ++ [')'] := by
    simp [display, ToString.toString, Nat.repr]
  rw [hchars]
  simp only [Text.isCell_append, Text.isCell_cons, Text.isCell_toDigits, Text.isCell_nil]
  decide

theorem Rgb.isCell_digits (c : Rgb) : Text.IsCell c.digits := by
  rw [digits, Text.isCell_append, Text.isCell_append]
  exact ⟨⟨Text.isCell_hexPair _, Text.isCell_hexPair _⟩, Text.isCell_hexPair _⟩

theorem Shade.toList_scopeName (s : Shade) : s.scopeName.toList =
    "nestlight.".toList ++ s.foreground.digits ++ '.' :: s.background.digits :=
  String.toList_ofList

theorem Shade.isCell_scopeName (s : Shade) : Text.IsCell s.scopeName.toList := by
  have hname : Text.IsCell "nestlight.".toList := by simp [Text.IsCell]
  rw [toList_scopeName, Text.isCell_append, Text.isCell_append, Text.isCell_cons]
  exact ⟨⟨hname, s.foreground.isCell_digits⟩, by decide, s.background.isCell_digits⟩

/-! ### Lines -/

/-- What was put together from lines is cut at its line feeds into the lines. -/
theorem Text.splitOn_flatMap_lineFeed {lines : List (List Char)} (h : ∀ line ∈ lines, '\n' ∉ line) :
    (lines.flatMap (· ++ ['\n'])).splitOn '\n' = lines ++ [[]] := by
  have hjoined : lines.flatMap (· ++ ['\n']) = ['\n'].intercalate (lines ++ [[]]) := by
    clear h
    induction lines with
    | nil => rfl
    | cons line lines ih =>
        rw [List.flatMap_cons, ih, List.cons_append,
          List.intercalate_cons_of_ne_nil (by simp)]
  rw [hjoined, List.splitOn_intercalate '\n' _ (by simp)]
  intro line hline
  rcases List.mem_append.mp hline with hline | hline
  · exact h line hline
  · simp [List.mem_singleton.mp hline]

/-- What was put together from cells is cut at its tabs into the cells. -/
theorem Text.splitOn_intercalate_tab {cells : List (List Char)} (hne : cells ≠ [])
    (h : ∀ cell ∈ cells, IsCell cell) : (['\t'].intercalate cells).splitOn '\t' = cells :=
  List.splitOn_intercalate '\t' (fun cell hcell => (h cell hcell).tab_not_mem) hne

theorem Text.lineFeed_not_mem_intercalate {cells : List (List Char)}
    (h : ∀ cell ∈ cells, IsCell cell) : '\n' ∉ ['\t'].intercalate cells := by
  induction cells with
  | nil => simp
  | cons cell cells ih =>
      obtain ⟨hcell, hcells⟩ := List.forall_mem_cons.mp h
      cases cells with
      | nil =>
          rw [List.intercalate_singleton]
          exact hcell.lineFeed_not_mem
      | cons next cells =>
          rw [List.intercalate_cons_cons, List.mem_append, List.mem_append, not_or, not_or]
          exact ⟨⟨hcell.lineFeed_not_mem, by decide⟩, ih hcells⟩

namespace CommandLine

variable {b : Buffer} {stroke : Stroke} {plan : Plan}

/-- The line shows a stroke: cut at its tabs, it has the two positions of the region, its two
offsets, the name of the shade, and the text that stands there in quotes. -/
def Shows (b : Buffer) (stroke : Stroke) (line : List Char) : Prop :=
  ∃ p q text, b.positionOf stroke.1.start = .ok p ∧ b.positionOf stroke.1.stop = .ok q ∧
    b.slice stroke.1.start stroke.1.stop = .ok text ∧
    line.splitOn '\t' = [(p.display ++ "-" ++ q.display).toList, stroke.1.display.toList,
      stroke.2.scopeName.toList, Text.quote text.toList]

/-- A stroke in the buffer can be printed, on one line. -/
theorem exists_strokeLine (hstop : stroke.1.stop ≤ b.size) :
    ∃ line, strokeLine b stroke = .ok (String.ofList (line ++ ['\n'])) ∧ '\n' ∉ line ∧
      Shows b stroke line := by
  have hle := stroke.1.start_le_stop
  obtain ⟨p, hp, -⟩ := Buffer.exists_positionOf (hle.trans hstop)
  obtain ⟨q, hq, -⟩ := Buffer.exists_positionOf hstop
  obtain ⟨text, htext⟩ : ∃ text, b.slice stroke.1.start stroke.1.stop = .ok text :=
    ⟨_, if_pos ⟨hle, hstop⟩⟩
  have hcells : ∀ cell ∈ [(p.display ++ "-" ++ q.display).toList, stroke.1.display.toList,
      stroke.2.scopeName.toList, Text.quote text.toList], Text.IsCell cell := by
    simp only [List.forall_mem_cons, String.toList_append, Text.isCell_append]
    exact ⟨⟨⟨p.isCell_display, by simp [Text.IsCell]⟩, q.isCell_display⟩,
      stroke.1.isCell_display, stroke.2.isCell_scopeName, Text.isCell_quote _, by simp⟩
  refine ⟨_, ?_, Text.lineFeed_not_mem_intercalate hcells, p, q, text, hp, hq, htext,
    Text.splitOn_intercalate_tab (List.cons_ne_nil _ _) hcells⟩
  have hchars : ("\t".intercalate [p.display ++ "-" ++ q.display, stroke.1.display,
      stroke.2.scopeName, String.ofList (Text.quote text.toList)] ++ "\n").toList =
      ['\t'].intercalate [(p.display ++ "-" ++ q.display).toList, stroke.1.display.toList,
        stroke.2.scopeName.toList, Text.quote text.toList] ++ ['\n'] := by
    rw [String.toList_append, String.toList_intercalate]
    simp only [List.map_cons, List.map_nil, String.toList_ofList]
    rfl
  rw [strokeLine, hp, hq, htext, ← hchars, String.ofList_toList]
  rfl

theorem exists_strokeLines {strokes : List Stroke} (h : ∀ stroke ∈ strokes, stroke.1.stop ≤ b.size) :
    ∃ lines : List (List Char),
      strokes.mapM (strokeLine b) = .ok (lines.map fun line => String.ofList (line ++ ['\n'])) ∧
      List.Forall₂ (fun stroke line => '\n' ∉ line ∧ Shows b stroke line) strokes lines := by
  induction strokes with
  | nil => exact ⟨[], rfl, .nil⟩
  | cons stroke strokes ih =>
      obtain ⟨hstop, hstops⟩ := List.forall_mem_cons.mp h
      obtain ⟨line, hline, hshows⟩ := exists_strokeLine hstop
      obtain ⟨lines, hlines, hall⟩ := ih hstops
      refine ⟨line :: lines, ?_, .cons hshows hall⟩
      rw [List.mapM_cons, hline, hlines]
      rfl

/-- A plan in the buffer can be printed, one line for each stroke. -/
theorem exists_planLines (h : ∀ stroke ∈ plan.spans, stroke.1.stop ≤ b.size) :
    ∃ printed lines, planLines b plan = .ok printed ∧
      printed.toList.splitOn '\n' = lines ++ [[]] ∧ List.Forall₂ (Shows b) plan.spans lines := by
  obtain ⟨lines, hlines, hall⟩ := exists_strokeLines h
  refine ⟨_, lines, by rw [planLines, hlines]; rfl, ?_, hall.imp fun _ _ hshows => hshows.2⟩
  rw [String.toList_join, List.flatMap_map]
  simp only [String.toList_ofList]
  refine Text.splitOn_flatMap_lineFeed fun line hline => ?_
  obtain ⟨stroke, -, hfree, -⟩ := exists_of_mem_right hall hline
  exact hfree

end CommandLine

/-! ### What is painted lies in the buffer -/

namespace Buffer

variable {b : Buffer} {config : Configuration} {cursors : List Nat} {e : ExaminedRegion}
  {strokes : List Stroke}

/-- A stroke of an examined region ends inside the buffer, as its right bracket does. -/
theorem PaintsRegion.stop_le_size (hconfig : config.Sound) (hne : e.cursors ≠ [])
    (h : b.PaintsRegion config e strokes) : ∀ stroke ∈ strokes, stroke.1.stop ≤ b.size := by
  intro stroke hstroke
  obtain ⟨scopes, hscopes, hpaints⟩ := h
  obtain ⟨scopes', hscopes', hformed⟩ := b.exists_scopesIn hconfig hne
  rw [hscopes] at hscopes'
  cases hscopes'
  -- The last character of the stroke lies in a part of a scope.
  have hlast : stroke.1.stop - 1 ∈ stroke.1 := by
    have hle := stroke.1.start_le_stop
    have hnonempty := hpaints.nonempty stroke hstroke
    rw [Region.mem_def]
    omega
  obtain ⟨part, hpart, hmem⟩ := (hpaints.covers _).mp ⟨stroke, hstroke, hlast⟩
  obtain ⟨s, hs, hpart⟩ := mem_partsOf.mp hpart
  obtain ⟨hs, -, hright, -⟩ := hformed s hs
  have hstop := (hs.within_of_mem_parts hpart).2.2
  have hsize : s.right.region.stop ≤ b.size :=
    ((b.scanned_brackets _ _ _).decided _ hright).standsAt.le_size
  rw [Region.mem_def] at hmem
  omega

/-- The strokes of a pass are not empty, and they lie in the buffer. -/
theorem exists_highlight_within (hconfig : config.Sound) (hcursors : ∀ c ∈ cursors, c ≤ b.size) :
    ∃ plan, b.highlight config cursors = .ok plan ∧
      (∀ stroke ∈ plan.spans, stroke.1.start < stroke.1.stop ∧ stroke.1.stop ≤ b.size) ∧
      ∀ e ∈ plan.entries, ∀ r ∈ e.regions, r.start < r.stop ∧ r.stop ≤ b.size := by
  cases henabled : config.enabled with
  | false => exact ⟨{}, highlight_of_disabled henabled b cursors, by simp [Plan.spans], by simp⟩
  | true =>
      obtain ⟨strokes, hok, hpaints⟩ := exists_highlight hconfig henabled hcursors
      have hwithin : ∀ stroke ∈ strokes.flatten,
          stroke.1.start < stroke.1.stop ∧ stroke.1.stop ≤ b.size := by
        intro stroke hstroke
        obtain ⟨l, hl, hstroke⟩ := List.mem_flatten.mp hstroke
        obtain ⟨e, he, hregion⟩ := exists_of_mem_right hpaints hl
        have hle := stroke.1.start_le_stop
        have hnonempty := hregion.nonempty stroke hstroke
        have hsize := hregion.stop_le_size hconfig (cursors_ne_of_mem_examinedRegions he)
          stroke hstroke
        omega
      refine ⟨_, hok, fun stroke hstroke => ?_, fun e he r hr => ?_⟩
      · exact hwithin stroke ((Plan.spans_perm _).mem_iff.mp hstroke)
      · have hregion := (Plan.regions_perm strokes.flatten).mem_iff.mp
          (List.mem_flatMap.mpr ⟨e, he, hr⟩)
        obtain ⟨stroke, hstroke, rfl⟩ := List.mem_map.mp hregion
        exact hwithin stroke hstroke

end Buffer

/-- **What is painted can be printed.** With a configuration that settings resolve to and cursors in
the buffer, no painted region is empty, and all of them lie in the buffer. So the plan is printed,
in as many lines as it lists regions, and each line shows its region and the text that stands
there. -/
theorem CommandLine.planLines_highlight {b : Buffer} {config : Configuration} {cursors : List Nat}
    {s : Settings} {syntaxName : Option String} (h : s.resolve syntaxName = .ok config)
    (hcursors : ∀ c ∈ cursors, c ≤ b.size) :
    ∃ plan, b.highlight config cursors = .ok plan ∧
      (∀ e ∈ plan.entries, ∀ r ∈ e.regions, r.start < r.stop ∧ r.stop ≤ b.size) ∧
      ∃ printed lines, planLines b plan = .ok printed ∧
        printed.toList.splitOn '\n' = lines ++ [[]] ∧
        List.Forall₂ (Shows b) plan.spans lines := by
  obtain ⟨plan, hok, hspans, hregions⟩ :=
    Buffer.exists_highlight_within (Settings.sound_of_resolve h) hcursors
  exact ⟨plan, hok, hregions, exists_planLines fun stroke hstroke => (hspans stroke hstroke).2⟩

/-- A line feed stands between the brackets. It is painted, and shown on the second of two lines. -/
theorem CommandLine.planLines_highlight_lineFeed :
    ({} : Settings).resolve none = .ok .default ∧
      (∀ c ∈ [1], c ≤ (Buffer.ofString "(\n)").size) ∧
      ∃ plan printed line line', (Buffer.ofString "(\n)").highlight .default [1] = .ok plan ∧
        planLines (Buffer.ofString "(\n)") plan = .ok printed ∧
        printed.toList.splitOn '\n' = [line, line', []] ∧
        line'.splitOn '\t' = ["1:2-2:2".toList, "[1, 3)".toList,
          "nestlight.FFD700.3A3520".toList, "\"\\n)\"".toList] := by
  let innermost : Shade := ⟨⟨0xFF, 0xD7, 0x00⟩, ⟨0x3A, 0x35, 0x20⟩⟩
  let strokes : List Stroke := [(⟨0, 1, by decide⟩, innermost), (⟨1, 3, by decide⟩, innermost)]
  have h : ({} : Settings).resolve none = .ok .default := rfl
  have hcursors : ∀ c ∈ [1], c ≤ (Buffer.ofString "(\n)").size := by decide
  have hok : (Buffer.ofString "(\n)").highlight .default [1] = .ok (Plan.ofStrokes strokes) := by
    refine (Buffer.highlight_eq_ok_iff rfl).mpr ⟨hcursors, [strokes], ?_, rfl⟩
    have hexamined : (Buffer.ofString "(\n)").examined .default [1] =
        [⟨⟨0, 3, by decide⟩, [1]⟩] := by decide +kernel
    have hlines : currentLines (Buffer.ofString "(\n)") (normalizeCursors [1]) =
        [⟨0, 1, by decide⟩] := by decide +kernel
    rw [hexamined, hlines]
    refine .cons ((Buffer.strokesIn_of_partners [.primary, .primary] ?_).trans ?_) .nil
    all_goals decide +kernel
  have hspans : (Plan.ofStrokes strokes).spans = strokes :=
    Plan.spans_ofStrokes_of_pairwise (by decide)
  obtain ⟨plan, hok', -, printed, lines, hprinted, hcut, hshows⟩ :=
    planLines_highlight h hcursors
  rw [hok] at hok'
  cases hok'
  rw [hspans] at hshows
  obtain ⟨line, _, -, hrest, rfl⟩ := List.forall₂_cons_left_iff.mp hshows
  obtain ⟨line', _, ⟨p, q, text, hp, hq, htext, hcells⟩, hnil, rfl⟩ :=
    List.forall₂_cons_left_iff.mp hrest
  cases hnil
  refine ⟨h, hcursors, _, printed, line, line', hok, hprinted, hcut, ?_⟩
  obtain rfl : ⟨0, 1⟩ = p := Except.ok.inj hp
  obtain rfl : ⟨1, 1⟩ = q := Except.ok.inj hq
  obtain rfl : "\n)" = text := Except.ok.inj htext
  rw [hcells]
  decide +kernel

end BracketPaint
