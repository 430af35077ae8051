import BracketPaint.Vicinity
import BracketPaint.Proofs.Positions
import BracketPaint.Proofs.Runs
/-!
# Lines that follow each other

The lines that hold cursors are to be joined as far as they follow each other: one region for each
run of consecutive lines, from where its first line starts to where its last one stops
(`OneRegionPerRun`). The code does not compare the numbers of the lines. It joins a line to the one
before if it starts at most one character behind where that one stops, its newline being left out.

So the distance of two lines has to tell whether they follow each other, and it does not always. A
newline may be CR LF, which is two characters; and a break that is neither LF nor CR LF belongs to
its line, so that a line of one character may lie between two lines that are joined.
`oneRegionPerRun_iff` says that nothing else can go wrong.
-/

namespace BracketPaint

namespace Text

variable {line cs : List Char} {sizes : List Nat} {c : Char} {i j : Nat}

/-! ### Lines without their newlines -/

theorem length_withoutNewline_crLf (h : ['\r', '\n'] <:+ line) :
    (withoutNewline line).length + 2 = line.length := by
  obtain ⟨init, rfl⟩ := h
  simp [withoutNewline, withoutLast]

theorem length_withoutNewline_lf (h : line.getLast? = some '\n') (hcr : ¬ ['\r', '\n'] <:+ line) :
    (withoutNewline line).length + 1 = line.length := by
  obtain ⟨init, rfl⟩ := List.getLast?_eq_some_iff.mp h
  have hinit : init.getLast? ≠ some '\r' := by
    intro hlast
    obtain ⟨init', rfl⟩ := List.getLast?_eq_some_iff.mp hlast
    exact hcr ⟨init', by simp⟩
  simp [withoutNewline, withoutLast, hinit]

theorem withoutNewline_other (h : line.getLast? ≠ some '\n') : withoutNewline line = line :=
  if_neg h

/-- Every line but the last one has a character, its break. -/
theorem ne_nil_of_mem_dropLast_lines (h : line ∈ (lines cs).dropLast) : line ≠ [] := by
  fun_induction lines cs with
  | case1 => cases h
  | case2 cs ih =>
      rw [List.dropLast_cons_of_ne_nil (lines_ne_nil cs)] at h
      rcases List.mem_cons.mp h with rfl | h
      · exact List.cons_ne_nil _ _
      · exact ih h
  | case3 c cs _ _ ih =>
      rw [List.dropLast_cons_of_ne_nil (lines_ne_nil cs)] at h
      rcases List.mem_cons.mp h with rfl | h
      · exact List.cons_ne_nil _ _
      · exact ih h
  | case4 c cs _ _ ih =>
      -- The character is put in front of the first line.
      cases hlines : lines cs with
      | nil => exact absurd hlines (lines_ne_nil cs)
      | cons first rest =>
          rw [hlines, consFirst] at h
          by_cases hrest : rest = []
          · subst hrest
            cases h
          · rw [List.dropLast_cons_of_ne_nil hrest] at h
            rw [hlines, List.dropLast_cons_of_ne_nil hrest] at ih
            rcases List.mem_cons.mp h with rfl | h
            · exact List.cons_ne_nil _ _
            · exact ih (List.mem_cons_of_mem _ h)

/-! ### Where lines start -/

theorem startOf_succ {size : Nat} (h : sizes[i]? = some size) :
    startOf sizes (i + 1) = startOf sizes i + size := by
  induction sizes generalizing i with
  | nil => cases h
  | cons first sizes ih =>
      cases i with
      | zero =>
          obtain rfl := Option.some.inj h
          simp [startOf]
      | succ i =>
          rw [startOf, startOf, ih h, Nat.add_assoc]

end Text

namespace Buffer

variable {b : Buffer} {i j p q : Nat}

/-! ### The lines of a buffer -/

/-- A line with its break; there is none past the last one. -/
def line (b : Buffer) (i : Nat) : List Char := (b.lines[i]?).getD []

/-- Where a line starts. -/
def lineStart (b : Buffer) (i : Nat) : Nat := Text.startOf b.lineSizes i

/-- Where a line stops, its LF or CR LF being left out. -/
def lineStop (b : Buffer) (i : Nat) : Nat :=
  b.lineStart i + (Text.withoutNewline (b.line i)).length

/-- The number of the line around an offset. -/
def lineNumber (b : Buffer) (p : Nat) : Nat := (Text.locate b.lineSizes (min p b.size)).1

theorem lineNumber_lt (b : Buffer) (p : Nat) : b.lineNumber p < b.lineCount := by
  have hle : min p b.size ≤ Text.startOf b.lineSizes b.lineSizes.length := by
    rw [startOf_lineCount]
    exact Nat.min_le_right p b.size
  obtain ⟨size, hsize, -⟩ := Text.exists_size_locate b.lineSizes_ne_nil hle
  have hlt := (List.getElem?_eq_some_iff.mp hsize).1
  rwa [lineSizes, List.length_map] at hlt

theorem lineNumber_mono (h : p ≤ q) : b.lineNumber p ≤ b.lineNumber q := by
  rcases Nat.lt_or_eq_of_le (show min p b.size ≤ min q b.size by omega) with hlt | heq
  · rcases Text.locate_lt b.lineSizes hlt with hlt | ⟨heq, -⟩
    · exact Nat.le_of_lt hlt
    · exact Nat.le_of_eq heq
  · rw [lineNumber, lineNumber, heq]

theorem getElem?_lineSizes (h : i < b.lineCount) : b.lineSizes[i]? = some (b.line i).length := by
  have hline : b.lines[i]? = some b.lines[i] := List.getElem?_eq_getElem h
  rw [lineSizes, List.getElem?_map, line, hline]
  rfl

theorem lineStart_succ (h : i < b.lineCount) :
    b.lineStart (i + 1) = b.lineStart i + (b.line i).length :=
  Text.startOf_succ (getElem?_lineSizes h)

theorem length_line_pos (h : i + 1 < b.lineCount) : 0 < (b.line i).length := by
  have hi : i < b.lines.dropLast.length := by
    rw [List.length_dropLast]
    exact Nat.lt_sub_of_add_lt h
  have hline : b.line i = b.lines.dropLast[i] := by
    rw [List.getElem_dropLast, line, List.getElem?_eq_getElem, Option.getD_some]
  rw [hline]
  exact List.length_pos_iff.mpr (Text.ne_nil_of_mem_dropLast_lines (List.getElem_mem hi))

theorem lineStart_lt (hij : i < j) (hj : j < b.lineCount) : b.lineStart i < b.lineStart j := by
  induction j with
  | zero => omega
  | succ j ih =>
      have hpos := length_line_pos hj
      rw [lineStart_succ (by omega)]
      rcases Nat.lt_or_eq_of_le (Nat.le_of_lt_succ hij) with hlt | rfl
      · have := ih hlt (by omega)
        omega
      · omega

theorem lineStart_mono (hij : i ≤ j) (hj : j < b.lineCount) : b.lineStart i ≤ b.lineStart j := by
  rcases Nat.lt_or_eq_of_le hij with hlt | rfl
  · exact Nat.le_of_lt (lineStart_lt hlt hj)
  · exact Nat.le_refl _

theorem lineStart_inj (hi : i < b.lineCount) (hj : j < b.lineCount)
    (h : b.lineStart i = b.lineStart j) : i = j := by
  rcases Nat.lt_trichotomy i j with hlt | heq | hgt
  · exact absurd h (Nat.ne_of_lt (lineStart_lt hlt hj))
  · exact heq
  · exact absurd h (Nat.ne_of_gt (lineStart_lt hgt hi))

theorem lineStart_le_lineStop (b : Buffer) (i : Nat) : b.lineStart i ≤ b.lineStop i :=
  Nat.le_add_right _ _

theorem lineStop_le_lineStart (hij : i < j) (hj : j < b.lineCount) :
    b.lineStop i ≤ b.lineStart j := by
  have hstop : b.lineStop i ≤ b.lineStart (i + 1) := by
    rw [lineStart_succ (by omega)]
    exact Nat.add_le_add_left (Text.length_withoutNewline_le _) _
  rcases Nat.lt_or_eq_of_le (show i + 1 ≤ j from hij) with hlt | rfl
  · exact Nat.le_of_lt (Nat.lt_of_le_of_lt hstop (lineStart_lt hlt hj))
  · exact hstop

theorem lineStop_mono (hij : i ≤ j) (hj : j < b.lineCount) : b.lineStop i ≤ b.lineStop j := by
  rcases Nat.lt_or_eq_of_le hij with hlt | rfl
  · exact Nat.le_trans (lineStop_le_lineStart hlt hj) (b.lineStart_le_lineStop j)
  · exact Nat.le_refl _

/-- The code joins the two lines, if no cursor is between them. -/
def Meets (b : Buffer) (i j : Nat) : Prop := b.lineStart j ≤ b.lineStop i + 1

instance (b : Buffer) : DecidableRel b.Meets :=
  fun i j => inferInstanceAs (Decidable (b.lineStart j ≤ b.lineStop i + 1))

/-- A line meets the next one unless CR LF is between them. -/
theorem meets_succ_iff (h : i + 1 < b.lineCount) :
    b.Meets i (i + 1) ↔ ¬ ['\r', '\n'] <:+ b.line i := by
  rw [Meets, lineStop, lineStart_succ (by omega)]
  by_cases hcrLf : ['\r', '\n'] <:+ b.line i
  · have := Text.length_withoutNewline_crLf hcrLf
    refine iff_of_false ?_ (not_not_intro hcrLf)
    omega
  · refine iff_of_true ?_ hcrLf
    by_cases hlf : (b.line i).getLast? = some '\n'
    · have := Text.length_withoutNewline_lf hlf hcrLf
      omega
    · rw [Text.withoutNewline_other hlf]
      omega

/-- A line meets the next but one only if the line between them is one character long, and its own
break is not a newline. -/
theorem meets_add_two_iff (h : i + 2 < b.lineCount) :
    b.Meets i (i + 2) ↔ (b.line i).getLast? ≠ some '\n' ∧ (b.line (i + 1)).length = 1 := by
  have hpos : 0 < (b.line (i + 1)).length := length_line_pos h
  rw [Meets, lineStop, lineStart_succ (i := i + 1) (by omega), lineStart_succ (by omega)]
  by_cases hlf : (b.line i).getLast? = some '\n'
  · refine iff_of_false ?_ fun h => h.1 hlf
    by_cases hcrLf : ['\r', '\n'] <:+ b.line i
    · have := Text.length_withoutNewline_crLf hcrLf
      omega
    · have := Text.length_withoutNewline_lf hlf hcrLf
      omega
  · rw [Text.withoutNewline_other hlf, and_iff_right hlf]
    omega

theorem not_meets_of_lt (hij : i + 2 < j) (hj : j < b.lineCount) : ¬ b.Meets i j := by
  have hstop : b.lineStop i ≤ b.lineStart (i + 1) := lineStop_le_lineStart (by omega) (by omega)
  have hnext : b.lineStart (i + 1) < b.lineStart (i + 2) := lineStart_lt (by omega) (by omega)
  have hlast : b.lineStart (i + 2) < b.lineStart j := lineStart_lt hij hj
  rw [Meets]
  omega

theorem meets_self (b : Buffer) (i : Nat) : b.Meets i i :=
  Nat.le_succ_of_le (b.lineStart_le_lineStop i)

/-! ### Regions and runs of lines -/

/-- The region goes from where the first line starts to where the last one stops. -/
def Covers (b : Buffer) (region : Region) (run : Nat × Nat) : Prop :=
  region.start = b.lineStart run.1 ∧ region.stop = b.lineStop run.2

instance (b : Buffer) : ∀ region run, Decidable (b.Covers region run) :=
  fun region run =>
    inferInstanceAs (Decidable (region.start = b.lineStart run.1 ∧ region.stop = b.lineStop run.2))

theorem covers_lineExtent (b : Buffer) (p : Nat) :
    b.Covers (b.lineExtent p) (b.lineNumber p, b.lineNumber p) := ⟨rfl, rfl⟩

/-- Joining a line to the one before makes the run longer. -/
theorem Covers.hull {current line : Region} {first last : Nat}
    (hcurrent : b.Covers current (first, last)) (hline : b.Covers line (i, i))
    (hfirst : first ≤ i) (hlast : last ≤ i) (hi : i < b.lineCount) :
    b.Covers (current.hull line) (first, i) := by
  refine ⟨?_, ?_⟩
  · show min current.start line.start = b.lineStart first
    rw [hcurrent.1, hline.1]
    exact Nat.min_eq_left (lineStart_mono hfirst hi)
  · show max current.stop line.stop = b.lineStop i
    rw [hcurrent.2, hline.2]
    exact Nat.max_eq_right (lineStop_mono hlast hi)

/-- The lines are joined as they meet. -/
theorem covers_joinLines {current : Region} {first last : Nat} {cursors : List Nat}
    (hcurrent : b.Covers current (first, last)) (hle : first ≤ last)
    (hsorted : (last :: cursors.map b.lineNumber).Pairwise (· ≤ ·)) :
    List.Forall₂ b.Covers (joinLines current (cursors.map b.lineExtent))
      (runsFrom b.Meets first last (cursors.map b.lineNumber)) := by
  induction cursors generalizing current first last with
  | nil => exact List.Forall₂.cons hcurrent List.Forall₂.nil
  | cons p cursors ih =>
      obtain ⟨hlast, hrest⟩ := List.pairwise_cons.mp hsorted
      have hp : last ≤ b.lineNumber p := hlast _ List.mem_cons_self
      have hmeets : (b.lineExtent p).start ≤ current.stop + 1 ↔ b.Meets last (b.lineNumber p) := by
        rw [hcurrent.2]
        rfl
      rw [List.map_cons, List.map_cons, joinLines, runsFrom]
      by_cases hjoin : b.Meets last (b.lineNumber p)
      · rw [if_pos (hmeets.mpr hjoin), if_pos hjoin]
        have hfirst : first ≤ b.lineNumber p := Nat.le_trans hle hp
        exact ih (hcurrent.hull (b.covers_lineExtent p) hfirst hp (b.lineNumber_lt p)) hfirst hrest
      · rw [if_neg (mt hmeets.mp hjoin), if_neg hjoin]
        exact List.Forall₂.cons hcurrent
          (ih (b.covers_lineExtent p) (Nat.le_refl _) hrest)

/-- There is one region for each run of consecutive lines with cursors, in order. -/
def OneRegionPerRun (b : Buffer) (cursors : List Nat) : Prop :=
  ∃ runs : List (Nat × Nat),
    (runs.Pairwise fun r s => r.2 < s.1) ∧
    (∀ first last, (first, last) ∈ runs ↔ IsRun (· ∈ cursors.map b.lineNumber) first last) ∧
    List.Forall₂ b.Covers (currentLines b cursors) runs

/-- The distance of lines tells whether they follow each other: no CR LF is between two consecutive
ones, and where a line is left out between two, it is longer than one character or the first of the
two ends in a newline. -/
structure DistanceTells (b : Buffer) (lines : List Nat) : Prop where
  crLf : ∀ i ∈ lines, i + 1 ∈ lines → ¬ ['\r', '\n'] <:+ b.line i
  gap : ∀ i ∈ lines, i + 2 ∈ lines → i + 1 ∉ lines →
    (b.line i).getLast? = some '\n' ∨ (b.line (i + 1)).length ≠ 1

/-- Neighbours meet if and only if they follow each other, if the distance tells that. -/
theorem distanceTells_iff {lines : List Nat} (hlines : ∀ i ∈ lines, i < b.lineCount) :
    b.DistanceTells lines ↔ ∀ i ∈ lines, ∀ j ∈ lines, i < j →
      (∀ k ∈ lines, ¬ (i < k ∧ k < j)) → (b.Meets i j ↔ Follows i j) := by
  constructor
  · intro h i hi j hj hlt hnone
    have hcount : j < b.lineCount := hlines j hj
    rcases Nat.lt_or_ge (i + 1) j with hlt' | hge
    · rw [Follows, iff_false_right (by omega)]
      rcases Nat.lt_or_eq_of_le (show i + 2 ≤ j from hlt') with hfar | rfl
      · exact not_meets_of_lt hfar hcount
      · have hgap := h.gap i hi hj fun hk => hnone _ hk ⟨by omega, by omega⟩
        rw [meets_add_two_iff hcount, not_and_or, not_not]
        exact hgap
    · obtain rfl : j = i + 1 := by omega
      exact iff_of_true ((meets_succ_iff hcount).mpr (h.crLf i hi hj)) (Nat.le_refl _)
  · intro h
    refine ⟨fun i hi hj => ?_, fun i hi hj hnot => ?_⟩
    · rw [← meets_succ_iff (hlines _ hj)]
      exact (h i hi _ hj (by omega) fun k _ => by omega).mpr (Nat.le_refl _)
    · have hmeets : ¬ b.Meets i (i + 2) := by
        refine mt (h i hi _ hj (by omega) fun k hk hbetween => ?_).mp (by unfold Follows; omega)
        obtain rfl : k = i + 1 := by omega
        exact hnot hk
      rwa [meets_add_two_iff (hlines _ hj), not_and_or, not_not] at hmeets

/-! ### Current lines -/

/-- Regions that cover runs of lines tell where these start. -/
theorem map_fst_eq_of_covers {regions : List Region} {runs runs' : List (Nat × Nat)}
    (h : List.Forall₂ b.Covers regions runs) (h' : List.Forall₂ b.Covers regions runs')
    (hlines : ∀ run ∈ runs, run.1 < b.lineCount) (hlines' : ∀ run ∈ runs', run.1 < b.lineCount) :
    runs.map Prod.fst = runs'.map Prod.fst := by
  induction h generalizing runs' with
  | nil =>
      cases h'
      rfl
  | cons hrun _ ih =>
      cases h' with
      | cons hrun' hruns' =>
          obtain ⟨hline, hlines⟩ := List.forall_mem_cons.mp hlines
          obtain ⟨hline', hlines'⟩ := List.forall_mem_cons.mp hlines'
          rw [List.map_cons, List.map_cons, ih hruns' hlines hlines',
            lineStart_inj hline hline' (hrun.1.symm.trans hrun'.1)]

/-- The runs of lines with cursors are the parts into which their list is cut where they do not
follow each other. -/
theorem oneRegionPerRun_cons_iff {cursors : List Nat}
    (hlines : (b.lineNumber p :: cursors.map b.lineNumber).Pairwise (· ≤ ·)) :
    b.OneRegionPerRun (p :: cursors) ↔ List.Forall₂ b.Covers (currentLines b (p :: cursors))
      (runsFrom Follows (b.lineNumber p) (b.lineNumber p) (cursors.map b.lineNumber)) := by
  have hpairwise : (runsFrom Follows (b.lineNumber p) (b.lineNumber p)
      (cursors.map b.lineNumber)).Pairwise fun r s => r.2 < s.1 :=
    pairwise_runsFrom follows_self hlines
  have hmem : ∀ f l, (f, l) ∈ runsFrom Follows (b.lineNumber p) (b.lineNumber p)
      (cursors.map b.lineNumber) ↔ IsRun (· ∈ (p :: cursors).map b.lineNumber) f l := by
    intro f l
    rw [mem_runsFrom_follows_iff hlines (Nat.le_refl _)]
    refine isRun_congr fun i => ?_
    rw [List.map_cons, List.mem_cons, ← Nat.le_antisymm_iff, eq_comm]
  constructor
  · rintro ⟨runs, hrunsPairwise, hrunsMem, hregions⟩
    rwa [← eq_of_mem_iff_isRun hrunsPairwise hrunsMem hpairwise hmem]
  · exact fun hregions => ⟨_, hpairwise, hmem, hregions⟩

theorem oneRegionPerRun_nil (b : Buffer) : b.OneRegionPerRun [] := by
  refine ⟨[], List.Pairwise.nil, fun f l => ?_, List.Forall₂.nil⟩
  exact iff_of_false List.not_mem_nil fun h => List.not_mem_nil (h.holds f (Nat.le_refl f) h.le)

/-- **Current lines.** The lines of ascending cursors are one region for each run of consecutive
lines exactly if the distance of these lines tells whether they follow each other. -/
theorem oneRegionPerRun_iff (b : Buffer) {cursors : List Nat}
    (hsorted : cursors.Pairwise (· ≤ ·)) :
    b.OneRegionPerRun cursors ↔ b.DistanceTells (cursors.map b.lineNumber) := by
  have hlines : (cursors.map b.lineNumber).Pairwise (· ≤ ·) :=
    List.pairwise_map.mpr (hsorted.imp lineNumber_mono)
  have hcount : ∀ i ∈ cursors.map b.lineNumber, i < b.lineCount :=
    List.forall_mem_map.mpr fun p _ => b.lineNumber_lt p
  have hself : ∀ i, b.Meets i i ↔ Follows i i := fun i =>
    iff_of_true (b.meets_self i) (follows_self i)
  rw [distanceTells_iff hcount, ← isChain_iff_of_pairwise hself hlines]
  cases cursors with
  | nil => exact iff_of_true b.oneRegionPerRun_nil List.IsChain.nil
  | cons p cursors =>
      rw [List.map_cons] at hlines hcount ⊢
      have hcovers : List.Forall₂ b.Covers (currentLines b (p :: cursors))
          (runsFrom b.Meets (b.lineNumber p) (b.lineNumber p) (cursors.map b.lineNumber)) :=
        covers_joinLines (b.covers_lineExtent p) (Nat.le_refl _) hlines
      rw [oneRegionPerRun_cons_iff hlines]
      constructor
      · -- The regions tell where the runs start, and the starts tell the cuts.
        intro hcovers'
        have hstarts := map_fst_eq_of_covers hcovers hcovers'
          (fun run hrun => hcount _ (fst_mem_of_mem_runsFrom hrun))
          (fun run hrun => hcount _ (fst_mem_of_mem_runsFrom hrun))
        rw [map_fst_runsFrom, map_fst_runsFrom] at hstarts
        exact (startsFrom_eq_iff b.meets_self follows_self hlines).mp (List.cons.inj hstarts).2
      · intro hchain
        rwa [runsFrom_eq_of_isChain hchain] at hcovers

/-- Lines 0 and 1 of a text of four follow each other, line 3 is told apart from them. -/
theorem oneRegionPerRun_gap :
    [0, 2, 5].Pairwise (· ≤ ·) ∧ (ofString "a\nb\n\nc").OneRegionPerRun [0, 2, 5] :=
  ⟨by decide, (oneRegionPerRun_iff _ (by decide)).mpr ⟨by decide, by decide⟩⟩

/-- With CR LF between them two lines are not joined, and behind a vertical tab a line without a
cursor is left out between two that are. -/
theorem not_oneRegionPerRun :
    ¬ (ofString "a\r\nb").OneRegionPerRun [0, 3] ∧
      ¬ (ofString "a\x0b\nb").OneRegionPerRun [0, 3] := by
  constructor <;> rw [oneRegionPerRun_cons_iff (by decide)] <;> decide

end Buffer
end BracketPaint
