import BracketPaint.Proofs.Labels
/-!
# When the scan of a text ends

The scan for comments and strings goes from offset to offset, each time past one lexeme. It ends if
every turn of it moves forward, and a turn that does not move is made again and again. That happens
where a comment opens with the line feed that ends it, and nowhere else: the scan of a text ends if
and only if a reader who goes from character to character takes no line feed for a part of a comment
(`ends_iff`). Rules get through every text if and only if none of their comments opens with a line
feed.

The three ways in which the scan can go on are told apart once (`offset_induction`); all that is
said of a scan from some offset on goes along them.
-/

namespace BracketPaint

namespace LexicalRules

variable {rules : LexicalRules} {text : List Char} {c : Char} {cs : List Char} {i n : Nat}

/-- Where a turn of the scan leads from an offset: behind the lexeme there. At the end of the text
there are no more turns. -/
def next? (rules : LexicalRules) (text : List Char) (i : Nat) : Option Nat :=
  match text.drop i with
  | [] => none
  | c :: cs => some (i + (rules.lexemeOf c cs).size)

/-- Where a number of turns leads from an offset, if the scan does not end before. -/
def offsetAfter? (rules : LexicalRules) (text : List Char) : Nat → Nat → Option Nat
  | 0, i => some i
  | n + 1, i => (rules.next? text i).bind (rules.offsetAfter? text n)

/-- The scan ends, if it goes on from an offset. -/
def EndsFrom (rules : LexicalRules) (text : List Char) (i : Nat) : Prop :=
  ∃ n, rules.offsetAfter? text n i = none

/-- Each turn moves forward, if the scan goes on from an offset. -/
def AdvancesFrom (rules : LexicalRules) (text : List Char) (i : Nat) : Prop :=
  ∀ n j k, rules.offsetAfter? text n i = some j → rules.next? text j = some k → j < k

/-- No line feed is labelled as a part of a comment. -/
def LineFeedsApart (rules : LexicalRules) (text : List Char) : Prop :=
  ('\n', Label.comment) ∉ text.zip (rules.labels .code text)

/-! ### One turn -/

theorem next?_of_nil (h : text.drop i = []) : rules.next? text i = none := by
  rw [next?, h]

theorem next?_of_cons (h : text.drop i = c :: cs) :
    rules.next? text i = some (i + (rules.lexemeOf c cs).size) := by
  rw [next?, h]

/-- A comment that opens with a line feed is empty. -/
theorem size_lexemeOf_lineFeed (h : rules.Opens ('\n' :: cs)) :
    (rules.lexemeOf '\n' cs).size = 0 := by
  rw [lexemeOf, if_pos (opensComment_iff.mpr h)]
  rfl

/-- From every offset, the scan is at its end, or stands at a line feed that opens a comment, or
goes on behind a lexeme. -/
theorem offset_induction {motive : Nat → Prop} (rules : LexicalRules) (text : List Char)
    (atEnd : ∀ i, text.drop i = [] → motive i)
    (stays : ∀ i cs, text.drop i = '\n' :: cs → rules.Opens ('\n' :: cs) → motive i)
    (moves : ∀ i c cs, text.drop i = c :: cs → (rules.Opens (c :: cs) → c ≠ '\n') →
      motive (i + (rules.lexemeOf c cs).size) → motive i) (i : Nat) : motive i := by
  -- The induction is on what is left of the text, which each lexeme makes shorter.
  induction hleft : text.length - i using Nat.strongRecOn generalizing i with
  | ind left ih =>
      cases hcs : text.drop i with
      | nil => exact atEnd i hcs
      | cons c cs =>
          have hlt : i < text.length := by
            have := congrArg List.length hcs
            rw [List.length_drop, List.length_cons] at this
            omega
          by_cases hline : rules.Opens (c :: cs) → c ≠ '\n'
          · have hsize := size_lexemeOf_pos hline
            exact moves i c cs hcs hline (ih _ (by omega) _ rfl)
          · obtain ⟨hopens, rfl⟩ : rules.Opens (c :: cs) ∧ c = '\n' := by
              simpa using hline
            exact stays i cs hcs hopens

/-! ### Labels behind a lexeme -/

theorem lineFeedsApart_nil : rules.LineFeedsApart [] := by
  simp [LineFeedsApart]

/-- The line feed that opens a comment is labelled as a part of it. -/
theorem not_lineFeedsApart_of_opens (h : rules.Opens ('\n' :: cs)) :
    ¬ rules.LineFeedsApart ('\n' :: cs) := by
  intro hapart
  refine hapart ?_
  rw [labels, read, readCode, if_pos h, List.zip_cons_cons]
  exact List.mem_cons_self

/-- A lexeme that moves the scan forward holds no line feed of a comment. -/
theorem lineFeedsApart_iff (h : rules.Opens (c :: cs) → c ≠ '\n') :
    rules.LineFeedsApart (c :: cs) ↔
      rules.LineFeedsApart ((c :: cs).drop (rules.lexemeOf c cs).size) := by
  have hlabels := labels_lexemeOf h
  generalize hlexeme : rules.lexemeOf c cs = lexeme at hlabels
  -- The labels are as many as the characters, so the lexeme lies in the text.
  have hsize : lexeme.size ≤ (c :: cs).length := by
    have hlength := congrArg List.length hlabels
    rw [length_labels, List.length_append, List.length_replicate] at hlength
    omega
  have hzip : (c :: cs).zip (rules.labels .code (c :: cs)) =
      ((c :: cs).take lexeme.size).zip (List.replicate lexeme.size lexeme.label) ++
        ((c :: cs).drop lexeme.size).zip (rules.labels .code ((c :: cs).drop lexeme.size)) := by
    rw [← List.zip_append, List.take_append_drop, hlabels]
    rw [List.length_take, List.length_replicate, Nat.min_eq_left hsize]
  have hapart : ('\n', Label.comment) ∉
      ((c :: cs).take lexeme.size).zip (List.replicate lexeme.size lexeme.label) := by
    intro hmem
    obtain ⟨hfeed, hcomment⟩ := List.of_mem_zip hmem
    have hlabel := List.eq_of_mem_replicate hcomment
    subst hlexeme
    rcases lexemeOf_cases h with ⟨hopens, hlexeme⟩ | ⟨-, -, hlexeme⟩ | ⟨-, -, hlexeme⟩
    · have htake : (c :: cs).take (rules.lexemeOf c cs).size = (c :: cs).takeWhile (· ≠ '\n') := by
        rw [hlexeme, takeWhile_line (h hopens), Lexeme.size, List.take_succ_cons,
          ← List.prefix_iff_eq_take.mp (List.takeWhile_prefix _)]
      rw [htake] at hfeed
      simpa using List.all_eq_true.mp List.all_takeWhile _ hfeed
    · rw [hlexeme] at hlabel
      cases hlabel
    · rw [hlexeme] at hlabel
      cases hlabel
  rw [LineFeedsApart, hzip, List.mem_append, or_iff_right hapart]
  rfl

/-! ### The scan from an offset on -/

theorem offsetAfter?_of_stays (hcs : text.drop i = '\n' :: cs) (h : rules.Opens ('\n' :: cs))
    (n : Nat) : rules.offsetAfter? text n i = some i := by
  induction n with
  | zero => rfl
  | succ n ih =>
      rw [offsetAfter?, next?_of_cons hcs, size_lexemeOf_lineFeed h]
      exact ih

theorem endsFrom_of_nil (hcs : text.drop i = []) : rules.EndsFrom text i :=
  ⟨1, by rw [offsetAfter?, next?_of_nil hcs]; rfl⟩

theorem endsFrom_iff_of_cons (hcs : text.drop i = c :: cs) :
    rules.EndsFrom text i ↔ rules.EndsFrom text (i + (rules.lexemeOf c cs).size) := by
  constructor
  · rintro ⟨n, hn⟩
    cases n with
    | zero => cases hn
    | succ n =>
        rw [offsetAfter?, next?_of_cons hcs] at hn
        exact ⟨n, hn⟩
  · rintro ⟨n, hn⟩
    refine ⟨n + 1, ?_⟩
    rw [offsetAfter?, next?_of_cons hcs]
    exact hn

theorem advancesFrom_of_nil (hcs : text.drop i = []) : rules.AdvancesFrom text i := by
  intro n j k hj hk
  cases n with
  | zero =>
      obtain rfl := Option.some.inj hj
      rw [next?_of_nil hcs] at hk
      cases hk
  | succ n =>
      rw [offsetAfter?, next?_of_nil hcs] at hj
      cases hj

theorem advancesFrom_iff_of_cons (hcs : text.drop i = c :: cs)
    (hsize : 0 < (rules.lexemeOf c cs).size) :
    rules.AdvancesFrom text i ↔ rules.AdvancesFrom text (i + (rules.lexemeOf c cs).size) := by
  constructor
  · intro h n j k hj
    refine h (n + 1) j k ?_
    rw [offsetAfter?, next?_of_cons hcs]
    exact hj
  · intro h n j k hj hk
    cases n with
    | zero =>
        obtain rfl := Option.some.inj hj
        rw [next?_of_cons hcs] at hk
        obtain rfl := Option.some.inj hk
        omega
    | succ n =>
        rw [offsetAfter?, next?_of_cons hcs] at hj
        exact h n j k hj hk

/-- What is left of a text behind a lexeme. -/
theorem lineFeedsApart_drop_iff (hcs : text.drop i = c :: cs)
    (h : rules.Opens (c :: cs) → c ≠ '\n') :
    rules.LineFeedsApart (text.drop i) ↔
      rules.LineFeedsApart (text.drop (i + (rules.lexemeOf c cs).size)) := by
  rw [← List.drop_drop, hcs]
  exact lineFeedsApart_iff h

theorem endsFrom_iff (rules : LexicalRules) (text : List Char) (i : Nat) :
    rules.EndsFrom text i ↔ rules.LineFeedsApart (text.drop i) := by
  induction i using offset_induction rules text with
  | atEnd i hcs => exact iff_of_true (endsFrom_of_nil hcs) (hcs ▸ lineFeedsApart_nil)
  | stays i cs hcs hopens =>
      refine iff_of_false ?_ (hcs ▸ not_lineFeedsApart_of_opens hopens)
      rintro ⟨n, hn⟩
      rw [offsetAfter?_of_stays hcs hopens] at hn
      cases hn
  | moves i c cs hcs hline ih =>
      rw [endsFrom_iff_of_cons hcs, ih, lineFeedsApart_drop_iff hcs hline]

theorem advancesFrom_iff (rules : LexicalRules) (text : List Char) (i : Nat) :
    rules.AdvancesFrom text i ↔ rules.LineFeedsApart (text.drop i) := by
  induction i using offset_induction rules text with
  | atEnd i hcs => exact iff_of_true (advancesFrom_of_nil hcs) (hcs ▸ lineFeedsApart_nil)
  | stays i cs hcs hopens =>
      refine iff_of_false (fun h => ?_) (hcs ▸ not_lineFeedsApart_of_opens hopens)
      have := h 0 i _ rfl (next?_of_cons hcs)
      rw [size_lexemeOf_lineFeed hopens] at this
      omega
  | moves i c cs hcs hline ih =>
      rw [advancesFrom_iff_of_cons hcs (size_lexemeOf_pos hline), ih,
        lineFeedsApart_drop_iff hcs hline]

theorem isSome_scan_iff (rules : LexicalRules) (text : List Char) (i : Nat) (m : AnnotationMap) :
    (rules.scan i m (text.drop i)).isSome ↔ rules.LineFeedsApart (text.drop i) := by
  induction i using offset_induction rules text generalizing m with
  | atEnd i hcs =>
      rw [hcs, scan]
      exact iff_of_true rfl lineFeedsApart_nil
  | stays i cs hcs hopens =>
      refine iff_of_false ?_ (hcs ▸ not_lineFeedsApart_of_opens hopens)
      have hsize := size_lexemeOf_lineFeed hopens
      rw [hcs, scan]
      dsimp only
      split
      · exact Bool.false_ne_true
      · omega
  | moves i c cs hcs hline ih =>
      rw [lineFeedsApart_drop_iff hcs hline, ← ih, hcs, scan_cons hline, ← List.drop_drop, hcs]

/-- A comment that opens with a line feed stops the scan of its own opener. -/
theorem opensInLine_of_lineFeedsApart (h : ∀ text, rules.LineFeedsApart text) :
    rules.OpensInLine := by
  intro opener hopener hhead
  obtain ⟨cs, hcs⟩ : ∃ cs, opener.toList = '\n' :: cs := List.head?_eq_some_iff.mp hhead
  have hne : opener ≠ "" := by
    rintro rfl
    cases hcs
  have hopens : rules.Opens ('\n' :: cs) := ⟨opener, hopener, hne, hcs ▸ List.prefix_rfl⟩
  exact not_lineFeedsApart_of_opens hopens (h ('\n' :: cs))

theorem OpensInLine.lineFeedsApart (h : rules.OpensInLine) (text : List Char) :
    rules.LineFeedsApart text := by
  have hall : ∀ i, rules.LineFeedsApart (text.drop i) := by
    intro i
    induction i using offset_induction rules text with
    | atEnd i hcs => exact hcs ▸ lineFeedsApart_nil
    | stays i cs hcs hopens => exact absurd rfl (h.ne_of_opens hopens)
    | moves i c cs hcs hline ih => exact (lineFeedsApart_drop_iff hcs hline).mpr ih
  exact hall 0

/-- **When the scan ends.** The scan of a text ends if and only if it annotates the text, if and
only if each of its turns moves forward, if and only if no line feed is taken for a part of a
comment. It ends for every text if and only if no comment opens with a line feed. -/
theorem ends_iff (rules : LexicalRules) :
    (∀ text, (rules.EndsFrom text 0 ↔ (rules.annotate text).isSome) ∧
      (rules.EndsFrom text 0 ↔ rules.AdvancesFrom text 0) ∧
      (rules.EndsFrom text 0 ↔ rules.LineFeedsApart text)) ∧
    ((∀ text, rules.EndsFrom text 0) ↔ rules.OpensInLine) := by
  have hends : ∀ text, rules.EndsFrom text 0 ↔ rules.LineFeedsApart text := fun text =>
    endsFrom_iff rules text 0
  refine ⟨fun text => ⟨?_, ?_, hends text⟩, ?_⟩
  · exact (hends text).trans (isSome_scan_iff rules text 0 ∅).symm
  · exact (hends text).trans (advancesFrom_iff rules text 0).symm
  · simp only [hends]
    exact ⟨opensInLine_of_lineFeedsApart, OpensInLine.lineFeedsApart⟩

/-- Where a line feed opens a comment, the scan meets an empty one and stays there. -/
theorem not_ends_of_lineFeed :
    (∀ n, (⟨["\n"], []⟩ : LexicalRules).offsetAfter? ['\n'] n 0 = some 0) ∧
      ¬ (⟨["\n"], []⟩ : LexicalRules).EndsFrom ['\n'] 0 := by
  have hopens : (⟨["\n"], []⟩ : LexicalRules).Opens ['\n'] := by decide
  have hstays : ∀ n, (⟨["\n"], []⟩ : LexicalRules).offsetAfter? ['\n'] n 0 = some 0 :=
    offsetAfter?_of_stays rfl hopens
  refine ⟨hstays, ?_⟩
  rintro ⟨n, hn⟩
  rw [hstays] at hn
  cases hn

end LexicalRules
end BracketPaint
