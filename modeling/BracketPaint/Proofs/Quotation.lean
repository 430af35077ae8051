import Mathlib.Algebra.Group.Nat.Defs
import Mathlib.Data.Char
import BracketPaint.Toml.Writer
/-!
# Written texts

A written text is read back, whichever of the four ways to quote it is taken
(`quoted?_renderString`). What follows must not be a quote (`NoQuote`), which would be taken for
another one of the closing quotes.

Over several lines, quotes stand for themselves as long as no three are in a row. The reader takes
such a run at once, and the writer counts it as it goes along, so the statements about both are
about a text with some quotes before it.
-/

namespace BracketPaint

namespace Text

theorem length_hexPad (width n : Nat) : (hexPad width n).length = width := by
  induction width generalizing n with
  | zero => rfl
  | succ width ih => rw [hexPad, List.length_append, ih, List.length_singleton]

theorem hexNumber?_hexPad {width n : Nat} (h : n < 16 ^ width) :
    hexNumber? (hexPad width n) = some n := by
  induction width generalizing n with
  | zero => rw [hexPad, hexNumber?, List.foldl_nil, show n = 0 by omega]
  | succ width ih =>
      have hrest : n / 16 < 16 ^ width := by
        rw [Nat.pow_succ] at h
        omega
      have hlast : n % 16 < 16 := Nat.mod_lt _ (by decide)
      have ih' := ih hrest
      rw [hexNumber?] at ih' ⊢
      rw [hexPad, List.foldl_append, ih', List.foldl_cons, List.foldl_nil, hexValue?_hexDigit hlast]
      exact congrArg some (by omega)

end Text

namespace Toml

variable {c : Char} {cs rest : List Char}

/-! ### Characters -/

theorem numbered?_hexPad {width : Nat} (h : c.toNat < 16 ^ width) :
    numbered? width (Text.hexPad width c.toNat ++ rest) = some c := by
  rw [numbered?, List.take_left' (Text.length_hexPad _ _), Text.hexNumber?_hexPad h]
  show (if _ then _ else _) = _
  rw [if_pos ⟨Text.length_hexPad _ _, c.valid⟩, Char.ofNat_toNat]

theorem toNat_lt_of_needsEscape (h : needsEscape c) : c.toNat < 0x80 := by
  simp only [needsEscape, isPrintable, Bool.and_eq_true, Bool.not_eq_true', Bool.or_eq_false_iff,
    Bool.and_eq_false_iff, decide_eq_false_iff_not, bne_eq_false_iff_eq] at h
  omega

theorem isPrintable_of_not_needsEscape (h : ¬ needsEscape c) (hc : c ≠ '\n') : isPrintable c := by
  simpa [needsEscape, hc] using h

/-- A printable character is no break. -/
theorem afterNewline?_of_isPrintable (h : isPrintable c) : afterNewline? (c :: cs) = none := by
  unfold afterNewline?
  split
  · rename_i heq
    cases heq
    exact absurd h (by decide)
  · rename_i heq
    cases heq
    exact absurd h (by decide)
  · rfl

/-- A character is written as itself, or as an escape that is read back. -/
theorem escaped_cases (c : Char) :
    (escaped c = [c] ∧ isPrintable c ∧ c ≠ '"' ∧ c ≠ '\\') ∨
      ∃ e, escaped c = '\\' :: e ∧ ∀ more, escape? (e ++ more) = some (c, e.length) ∧
        afterNewline? ((e ++ more).dropWhile isSpace) = none := by
  unfold escaped
  split
  · subst c; exact Or.inr ⟨['b'], rfl, fun more => ⟨rfl, rfl⟩⟩
  split
  · subst c; exact Or.inr ⟨['t'], rfl, fun more => ⟨rfl, rfl⟩⟩
  split
  · subst c; exact Or.inr ⟨['n'], rfl, fun more => ⟨rfl, rfl⟩⟩
  split
  · subst c; exact Or.inr ⟨['f'], rfl, fun more => ⟨rfl, rfl⟩⟩
  split
  · subst c; exact Or.inr ⟨['r'], rfl, fun more => ⟨rfl, rfl⟩⟩
  split
  · subst c; exact Or.inr ⟨['"'], rfl, fun more => ⟨rfl, rfl⟩⟩
  split
  · subst c; exact Or.inr ⟨['\\'], rfl, fun more => ⟨rfl, rfl⟩⟩
  rename_i hnewline _ _ hquote hbackslash
  split
  · rename_i hneeds
    refine Or.inr ⟨'u' :: Text.hexPad 4 c.toNat, rfl, fun more => ⟨?_, rfl⟩⟩
    have hlt := toNat_lt_of_needsEscape hneeds
    rw [List.cons_append, escape?, numbered?_hexPad (by omega), List.length_cons,
      Text.length_hexPad]
    rfl
  · rename_i hneeds
    exact Or.inl ⟨rfl, isPrintable_of_not_needsEscape hneeds hnewline, hquote, hbackslash⟩

/-! ### Texts on one line -/

theorem basic?_escaped (c : Char) (cs : List Char) :
    basic? (escaped c ++ cs) = (basic? cs).map fun (text, rest) => (c :: text, rest) := by
  rcases escaped_cases c with ⟨heq, hprintable, hquote, hbackslash⟩ | ⟨e, heq, he⟩
  · rw [heq, List.singleton_append, basic?, if_neg hquote, if_neg hbackslash, if_pos hprintable]
  · rw [heq, List.cons_append, basic?, if_neg (by decide), if_pos rfl, (he cs).1]
    simp

/-- A text with escapes is read up to the quote behind it. -/
theorem basic?_flatMap_escaped (cs rest : List Char) :
    basic? (cs.flatMap escaped ++ '"' :: rest) = some (cs, rest) := by
  induction cs with
  | nil => rw [List.flatMap_nil, List.nil_append, basic?, if_pos rfl]
  | cons c cs ih =>
      rw [List.flatMap_cons, List.append_assoc, basic?_escaped, ih]
      rfl

/-- A literal text is read up to the quote behind it. -/
theorem literal?_append (hprintable : ∀ c ∈ cs, isPrintable c) (hquote : '\'' ∉ cs) :
    literal? (cs ++ '\'' :: rest) = some (cs, rest) := by
  induction cs with
  | nil => rw [List.nil_append, literal?, if_pos rfl]
  | cons c cs ih =>
      rw [List.mem_cons, not_or] at hquote
      rw [List.cons_append, literal?, if_neg (Ne.symm hquote.1),
        if_pos (hprintable c List.mem_cons_self),
        ih (fun d hd => hprintable d (List.mem_cons_of_mem _ hd)) hquote.2]
      rfl

/-! ### Texts over several lines -/

/-- A reader of texts over several lines takes a run of quotes at once. -/
theorem length_takeWhile_replicate {quote : Char} (hcs : cs.head? ≠ some quote) (run : Nat) :
    ((List.replicate run quote ++ cs).takeWhile (· = quote)).length = run := by
  have hnil : cs.takeWhile (· = quote) = [] := by
    cases cs with
    | nil => rfl
    | cons c cs =>
        rw [List.takeWhile_cons_of_neg]
        simpa using hcs
  rw [List.takeWhile_append_of_pos (by simp), hnil, List.append_nil, List.length_replicate]

/-- Up to two quotes in a row belong to the text. -/
theorem multiline?_run {quote : Char} {escapes : Bool} {run : Nat} (hrun : run ≤ 2)
    (hcs : cs.head? ≠ some quote) :
    multiline? quote escapes (List.replicate run quote ++ cs) =
      (multiline? quote escapes cs).map fun (text, rest) =>
        (List.replicate run quote ++ text, rest) := by
  cases run with
  | zero => simp
  | succ run =>
      rw [List.replicate_succ, List.cons_append, multiline?, if_pos rfl,
        length_takeWhile_replicate hcs, quotesInText, if_pos (by omega)]
      simp [List.replicate_succ]

/-- The closing quotes may have up to two others before them. -/
theorem multiline?_closing {quote : Char} {escapes : Bool} {run : Nat} (hrun : run ≤ 2)
    (hrest : rest.head? ≠ some quote) :
    multiline? quote escapes (List.replicate (run + 3) quote ++ rest) =
      some (List.replicate run quote, rest) := by
  rw [List.replicate_succ, List.cons_append, multiline?, if_pos rfl,
    length_takeWhile_replicate hrest, quotesInText, if_neg (by omega)]
  have hmin : min run 2 = run := by omega
  simp [hmin, List.drop_left']

theorem multiline?_printable {quote : Char} {escapes : Bool} (hquote : c ≠ quote)
    (hescape : ¬ (escapes ∧ c = '\\')) (hprintable : isPrintable c) :
    multiline? quote escapes (c :: cs) =
      (multiline? quote escapes cs).map fun (text, rest) => (c :: text, rest) := by
  rw [multiline?, if_neg hquote, if_neg hescape]
  split
  · rename_i hline
    rw [afterNewline?_of_isPrintable hprintable] at hline
    cases hline
  · rw [if_pos hprintable]

theorem multiline?_newline {quote : Char} {escapes : Bool} (hquote : quote ≠ '\n') :
    multiline? quote escapes ('\n' :: cs) =
      (multiline? quote escapes cs).map fun (text, rest) => ('\n' :: text, rest) := by
  rw [multiline?, if_neg (Ne.symm hquote), if_neg (by simp)]
  split
  · rename_i hline
    cases hline
    rfl
  · rename_i hline
    cases hline

theorem multiline?_escape {e : List Char} (he : escape? (e ++ cs) = some (c, e.length))
    (hline : afterNewline? ((e ++ cs).dropWhile isSpace) = none) :
    multiline? '"' true ('\\' :: (e ++ cs)) =
      (multiline? '"' true cs).map fun (text, rest) => (c :: text, rest) := by
  rw [multiline?, if_neg (by decide), if_pos (by simp)]
  split
  · rename_i hline'
    rw [hline] at hline'
    cases hline'
  · rw [he]
    simp

theorem multilineBody_cons (hquote : c ≠ '"') (run : Nat) :
    multilineBody run (c :: cs) = (if c = '\n' then ['\n'] else escaped c) ++ multilineBody 0 cs := by
  rw [multilineBody.eq_def]
  split
  · rename_i heq
    cases heq
  · rename_i heq
    cases heq
    exact absurd rfl hquote
  · rename_i heq
    cases heq
    rw [if_pos rfl]
    rfl
  · rename_i hnewline heq
    cases heq
    rw [if_neg fun h => hnewline h]

theorem head?_body_ne (hquote : c ≠ '"') :
    ((if c = '\n' then ['\n'] else escaped c) ++ cs).head? ≠ some '"' := by
  split
  · exact fun h => by cases h
  · rcases escaped_cases c with ⟨heq, -⟩ | ⟨e, heq, -⟩
    · rw [heq]
      exact fun h => hquote (Option.some.inj h)
    · rw [heq]
      exact fun h => by cases h

theorem multiline?_body (hquote : c ≠ '"') :
    multiline? '"' true ((if c = '\n' then ['\n'] else escaped c) ++ cs) =
      (multiline? '"' true cs).map fun (text, rest) => (c :: text, rest) := by
  split
  · rename_i hnewline
    subst hnewline
    exact multiline?_newline (by decide)
  · rcases escaped_cases c with ⟨heq, hprintable, -, hbackslash⟩ | ⟨e, heq, he⟩
    · rw [heq]
      exact multiline?_printable hquote (fun h => hbackslash h.2) hprintable
    · rw [heq, List.cons_append]
      exact multiline?_escape (he cs).1 (he cs).2

/-- A text over several lines is read up to the three quotes behind it. The quotes right before a
place go together with those behind it, so they are part of the statement. -/
theorem multiline?_multilineBody (hrest : rest.head? ≠ some '"') (run : Nat) (hrun : run ≤ 2) :
    multiline? '"' true (List.replicate run '"' ++ (multilineBody run cs ++
        (List.replicate 3 '"' ++ rest))) =
      some (List.replicate run '"' ++ cs, rest) := by
  induction cs generalizing run with
  | nil =>
      rw [multilineBody, List.nil_append, ← List.append_assoc, List.replicate_append_replicate,
        multiline?_closing hrun hrest, List.append_nil]
  | cons c cs ih =>
      by_cases hquote : c = '"'
      · subst hquote
        rw [multilineBody]
        split
        · have ih' := ih (run + 1) (by omega)
          rw [List.replicate_succ'] at ih'
          simpa using ih'
        · -- A third quote in a row is written with an escape.
          have ih' := ih 0 (by omega)
          have hescape : multiline? '"' true ('\\' :: (['"'] ++ (multilineBody 0 cs ++
              (List.replicate 3 '"' ++ rest)))) = _ := multiline?_escape rfl rfl
          rw [List.cons_append, List.cons_append, multiline?_run hrun (by simp)]
          simp only [List.replicate_zero, List.nil_append, List.singleton_append] at ih' hescape
          rw [hescape, ih']
          rfl
      · have ih' := ih 0 (by omega)
        rw [multilineBody_cons hquote, List.append_assoc, multiline?_run hrun (head?_body_ne hquote),
          multiline?_body hquote]
        rw [List.replicate_zero, List.nil_append, List.nil_append] at ih'
        rw [ih']
        rfl

/-- The greatest number of times that a character stands in a row, if it stood so often in a row
before, and stands so often in a row right before. -/
def longestFrom (quote : Char) (counts : Nat × Nat) (cs : List Char) : Nat :=
  (cs.foldl (fun (longest, run) d =>
    if d = quote then (max longest (run + 1), run + 1) else (longest, 0)) counts).1

theorem longestFrom_cons (quote : Char) (longest run : Nat) :
    longestFrom quote (longest, run) (c :: cs) =
      if c = quote then longestFrom quote (max longest (run + 1), run + 1) cs
      else longestFrom quote (longest, 0) cs := by
  by_cases h : c = quote
  · simp only [longestFrom, List.foldl_cons, if_pos h]
  · simp only [longestFrom, List.foldl_cons, if_neg h]

theorem longestRun_eq (quote : Char) (cs : List Char) :
    longestRun quote cs = longestFrom quote (0, 0) cs := rfl

theorem le_longestFrom (quote : Char) (longest run : Nat) :
    longest ≤ longestFrom quote (longest, run) cs := by
  induction cs generalizing longest run with
  | nil => exact Nat.le_refl _
  | cons c cs ih =>
      rw [longestFrom_cons]
      split
      · exact Nat.le_trans (Nat.le_max_left _ _) (ih _ _)
      · exact ih _ _

theorem not_mem_of_longestRun_eq_zero {quote : Char} (h : longestRun quote cs = 0) :
    quote ∉ cs := by
  have hpos : ∀ run, quote ∈ cs → 0 < longestFrom quote (0, run) cs := by
    clear h
    induction cs with
    | nil => exact fun _ h => by cases h
    | cons c cs ih =>
        intro run hmem
        rw [longestFrom_cons]
        split
        · exact Nat.lt_of_lt_of_le (by omega) (le_longestFrom _ _ _)
        · rename_i hne
          exact ih 0 ((List.mem_cons.mp hmem).resolve_left (Ne.symm hne))
  intro hmem
  have := hpos 0 hmem
  rw [← longestRun_eq] at this
  omega

/-- A literal text over several lines is read up to the three quotes behind it. -/
theorem multiline?_literal (hrest : rest.head? ≠ some '\'') (hshown : ∀ c ∈ cs, ¬ needsEscape c)
    (longest run : Nat) (hle : run ≤ longest)
    (hlongest : longestFrom '\'' (longest, run) cs ≤ 2) :
    multiline? '\'' false (List.replicate run '\'' ++ (cs ++ (List.replicate 3 '\'' ++ rest))) =
      some (List.replicate run '\'' ++ cs, rest) := by
  have hrun : run ≤ 2 := Nat.le_trans hle (Nat.le_trans (le_longestFrom _ _ _) hlongest)
  induction cs generalizing longest run with
  | nil =>
      rw [List.nil_append, ← List.append_assoc, List.replicate_append_replicate,
        multiline?_closing hrun hrest, List.append_nil]
  | cons c cs ih =>
      have hshown' : ∀ d ∈ cs, ¬ needsEscape d := fun d hd => hshown d (List.mem_cons_of_mem _ hd)
      rw [longestFrom_cons] at hlongest
      by_cases hquote : c = '\''
      · subst hquote
        rw [if_pos rfl] at hlongest
        have hle' : run + 1 ≤ max longest (run + 1) := Nat.le_max_right _ _
        have ih' := ih hshown' _ _ hle' hlongest
          (Nat.le_trans hle' (Nat.le_trans (le_longestFrom _ _ _) hlongest))
        rw [List.replicate_succ'] at ih'
        simpa using ih'
      · rw [if_neg hquote] at hlongest
        have ih' := ih hshown' _ _ (Nat.zero_le _) hlongest (Nat.zero_le _)
        rw [List.replicate_zero, List.nil_append, List.nil_append] at ih'
        rw [List.cons_append, multiline?_run hrun (by simpa using hquote)]
        have hstep : multiline? '\'' false (c :: (cs ++ (List.replicate 3 '\'' ++ rest))) =
            some (c :: cs, rest) := by
          by_cases hnewline : c = '\n'
          · rw [hnewline, multiline?_newline (by decide), ih']
            rfl
          · have hprintable := isPrintable_of_not_needsEscape (hshown c List.mem_cons_self) hnewline
            rw [multiline?_printable hquote (by simp) hprintable, ih']
            rfl
        rw [hstep]
        rfl

/-! ### All texts -/

/-- A text may end here: no quote follows. -/
def NoQuote (rest : List Char) : Prop := rest.head? ≠ some '"' ∧ rest.head? ≠ some '\''

theorem afterNewline?_multilineBody (hnewline : '\n' ∉ cs) :
    afterNewline? (multilineBody 0 cs ++ '"' :: rest) = none := by
  cases cs with
  | nil => rfl
  | cons c cs =>
      rw [List.mem_cons, not_or] at hnewline
      by_cases hquote : c = '"'
      · subst hquote
        rfl
      · rw [multilineBody_cons hquote, if_neg (Ne.symm hnewline.1)]
        rcases escaped_cases c with ⟨heq, hprintable, -⟩ | ⟨e, heq, -⟩
        · rw [heq]
          exact afterNewline?_of_isPrintable hprintable
        · rw [heq]
          rfl

theorem quoted?_basic (hrest : rest.head? ≠ some '"') (cs : List Char) :
    quoted? (enclose "\"" false (cs.flatMap escaped) ++ rest) = some (cs, rest) := by
  have henclose : enclose "\"" false (cs.flatMap escaped) ++ rest =
      '"' :: (cs.flatMap escaped ++ '"' :: rest) := by simp [enclose]
  rw [henclose, ← basic?_flatMap_escaped cs rest]
  unfold quoted?
  split
  · -- Two quotes in a row would be an empty text before a quote.
    rename_i more heq
    have htail := (List.cons.inj heq).2
    cases cs with
    | nil => exact absurd (congrArg List.head? (List.cons.inj htail).2) hrest
    | cons c cs =>
        rw [List.flatMap_cons, List.append_assoc] at htail
        rcases escaped_cases c with ⟨hself, -, hquote, -⟩ | ⟨e, hself, -⟩
        · rw [hself] at htail
          exact absurd (List.cons.inj htail).1 hquote
        · rw [hself] at htail
          cases htail
  · rename_i heq
    rw [(List.cons.inj heq).2]
  · rename_i heq; cases heq
  · rename_i heq; cases heq
  · rename_i h _ _
    exact (h _ rfl).elim

theorem quoted?_literal (hrest : rest.head? ≠ some '\'') (hprintable : ∀ c ∈ cs, isPrintable c)
    (hquote : '\'' ∉ cs) : quoted? (enclose "'" false cs ++ rest) = some (cs, rest) := by
  have henclose : enclose "'" false cs ++ rest = '\'' :: (cs ++ '\'' :: rest) := by simp [enclose]
  rw [henclose, ← literal?_append hprintable hquote]
  unfold quoted?
  split
  · rename_i heq; cases heq
  · rename_i heq; cases heq
  · rename_i more heq
    have htail := (List.cons.inj heq).2
    cases cs with
    | nil => exact absurd (congrArg List.head? (List.cons.inj htail).2) hrest
    | cons c cs => exact absurd (List.cons.inj htail).1 fun h => hquote (h ▸ List.mem_cons_self)
  · rename_i heq
    rw [(List.cons.inj heq).2]
  · rename_i h
    exact (h _ rfl).elim

/-- A text that does not start with a break needs none before it. -/
theorem withoutFirstNewline_append {newline : Bool}
    (h : newline = false → afterNewline? cs = none) :
    withoutFirstNewline ((if newline then ['\n'] else []) ++ cs) = cs := by
  cases newline with
  | true => rfl
  | false =>
      show withoutFirstNewline cs = cs
      rw [withoutFirstNewline, h rfl]
      rfl

theorem quoted?_multilineBody (hrest : rest.head? ≠ some '"') {newline : Bool}
    (hnewline : newline = false → '\n' ∉ cs) :
    quoted? (enclose "\"\"\"" newline (multilineBody 0 cs) ++ rest) = some (cs, rest) := by
  have henclose : enclose "\"\"\"" newline (multilineBody 0 cs) ++ rest =
      '"' :: '"' :: '"' :: ((if newline then ['\n'] else []) ++
        (multilineBody 0 cs ++ (List.replicate 3 '"' ++ rest))) := by
    simp [enclose, List.replicate]
  have hfirst : newline = false →
      afterNewline? (multilineBody 0 cs ++ (List.replicate 3 '"' ++ rest)) = none :=
    fun h => afterNewline?_multilineBody (hnewline h)
  rw [henclose, quoted?, withoutFirstNewline_append hfirst]
  exact multiline?_multilineBody hrest 0 (Nat.zero_le _)

theorem quoted?_multilineLiteral (hrest : rest.head? ≠ some '\'') {newline : Bool}
    (hnewline : newline = false → '\n' ∉ cs) (hshown : ∀ c ∈ cs, ¬ needsEscape c)
    (hlongest : longestRun '\'' cs ≤ 2) :
    quoted? (enclose "'''" newline cs ++ rest) = some (cs, rest) := by
  have henclose : enclose "'''" newline cs ++ rest =
      '\'' :: '\'' :: '\'' :: ((if newline then ['\n'] else []) ++
        (cs ++ (List.replicate 3 '\'' ++ rest))) := by
    simp [enclose, List.replicate]
  have hfirst : newline = false →
      afterNewline? (cs ++ (List.replicate 3 '\'' ++ rest)) = none := by
    intro h
    cases cs with
    | nil => rfl
    | cons c cs =>
        have hne : c ≠ '\n' := fun hc => hnewline h (hc ▸ List.mem_cons_self)
        exact afterNewline?_of_isPrintable
          (isPrintable_of_not_needsEscape (hshown c List.mem_cons_self) hne)
  rw [henclose, quoted?, withoutFirstNewline_append hfirst]
  exact multiline?_literal hrest hshown 0 0 (Nat.zero_le _) hlongest

/-- **Texts are read back.** Whichever way a text is quoted, what is read is the text. -/
theorem quoted?_renderString (text : String) (hrest : NoQuote rest) :
    quoted? (renderString text ++ rest) = some (text.toList, rest) := by
  rw [renderString]
  generalize text.toList = cs
  have hshown : cs.any needsEscape = false → ∀ c ∈ cs, ¬ needsEscape c := by simp
  split
  · exact quoted?_basic hrest.1 cs
  split
  · rename_i h
    simp only [Bool.and_eq_true, Bool.not_eq_true', beq_iff_eq, decide_eq_false_iff_not] at h
    obtain ⟨⟨hcontrol, hquotes⟩, hnewline⟩ := h
    refine quoted?_literal hrest.2 (fun c hc => ?_) (not_mem_of_longestRun_eq_zero hquotes)
    exact isPrintable_of_not_needsEscape (hshown hcontrol c hc) fun h => hnewline (h ▸ hc)
  split
  · exact quoted?_multilineBody hrest.1 (by simp)
  split
  · rename_i h
    simp only [Bool.and_eq_true, Bool.not_eq_true', decide_eq_true_eq] at h
    exact quoted?_multilineLiteral hrest.2 (by simp) (hshown h.1) h.2
  split
  · exact quoted?_multilineBody hrest.1 (by simp)
  · exact quoted?_basic hrest.1 cs

end Toml
end BracketPaint
