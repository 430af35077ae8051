import BracketPaint.LexicalRules
import BracketPaint.Proofs.Naming
/-!
# Comments and strings, character by character

The rules take a text lexeme by lexeme: a whole comment, a whole string, with two characters at once
behind a backslash. A reader who goes from character to character needs to remember no more than one
of four states, and gives each character a label. Both see the same (`annotate_eq_labels`): the name
of every offset is that of its label, as long as no comment opens with a line feed.

A lexeme is a run of characters with one label (`labels_lexemeOf`). So the annotations of a text grow
in front as its labels do, and always mark them (`Marks`).
-/

namespace BracketPaint

/-- What a character belongs to. -/
inductive Label where
  | code
  | comment
  | string
  deriving Repr, DecidableEq

namespace Label

/-- The name of an offset with the label. -/
def scopeName : Label → String
  | code => "source"
  | comment => "source comment.line"
  | string => "source string.quoted"

/-- The name of the annotation that marks characters with the label, if one does. -/
def name? : Label → Option String
  | code => none
  | comment => some "comment.line"
  | string => some "string.quoted"

theorem intercalate_name? (label : Label) :
    " ".intercalate (AnnotationMap.rootName :: label.name?.toList) = label.scopeName := by
  cases label <;> rfl

end Label

/-- What a reader remembers who goes from character to character. -/
inductive ReaderState where
  /-- The next character is code, if it does not open a comment or a string. -/
  | code
  /-- A comment is open, up to the end of the line. -/
  | comment
  /-- A string is open. -/
  | inString (delimiter : Char)
  /-- A string is open, and a backslash was read in it. -/
  | escaped (delimiter : Char)
  deriving Repr, DecidableEq

namespace LexicalRules

variable {rules : LexicalRules} {c d : Char} {cs : List Char}

/-- One of the texts that open a comment stands here; an empty one opens none. -/
def Opens (rules : LexicalRules) (cs : List Char) : Prop :=
  ∃ opener ∈ rules.lineComments, opener ≠ "" ∧ opener.toList <+: cs

instance : Decidable (rules.Opens cs) :=
  inferInstanceAs (Decidable (∃ opener ∈ rules.lineComments, opener ≠ "" ∧ opener.toList <+: cs))

/-- The label of a character outside of comments and strings, and what to remember behind it. -/
def readCode (rules : LexicalRules) (c : Char) (cs : List Char) : Label × ReaderState :=
  if rules.Opens (c :: cs) then (.comment, .comment)
  else if c ∈ rules.stringDelimiters then (.string, .inString c)
  else (.code, .code)

/-- The label of a character, and what to remember behind it. -/
def read (rules : LexicalRules) : ReaderState → Char → List Char → Label × ReaderState
  | .code, c, cs => rules.readCode c cs
  | .comment, c, cs => if c = '\n' then rules.readCode c cs else (.comment, .comment)
  | .inString delimiter, c, _ =>
    (.string, if c = delimiter then .code
      else if c = '\\' then .escaped delimiter else .inString delimiter)
  | .escaped delimiter, _, _ => (.string, .inString delimiter)

/-- The labels of the characters of a text. -/
def labels (rules : LexicalRules) : ReaderState → List Char → List Label
  | _, [] => []
  | state, c :: cs =>
    (rules.read state c cs).1 :: labels rules (rules.read state c cs).2 cs

/-- No comment opens with a line feed. -/
def OpensInLine (rules : LexicalRules) : Prop :=
  ∀ opener ∈ rules.lineComments, opener.toList.head? ≠ some '\n'

instance : Decidable rules.OpensInLine :=
  inferInstanceAs (Decidable (∀ opener ∈ rules.lineComments, opener.toList.head? ≠ some '\n'))

/-! ### Lexemes have one label -/

theorem opensComment_iff : rules.opensComment cs ↔ rules.Opens cs := by
  simp [opensComment, Opens]

theorem OpensInLine.ne_of_opens (h : rules.OpensInLine) (hopens : rules.Opens (c :: cs)) :
    c ≠ '\n' := by
  obtain ⟨opener, hmem, hne, hprefix⟩ := hopens
  have hhead := h opener hmem
  cases hopener : opener.toList with
  | nil => exact absurd (String.toList_eq_nil_iff.mp hopener) hne
  | cons d ds =>
      rw [hopener, List.cons_prefix_cons] at hprefix
      rw [hopener, List.head?_cons, hprefix.1] at hhead
      exact fun heq => hhead (congrArg some heq)

theorem length_labels (state : ReaderState) : (rules.labels state cs).length = cs.length := by
  induction cs generalizing state with
  | nil => rfl
  | cons c cs ih => rw [labels, List.length_cons, List.length_cons, ih]

theorem takeWhile_line (hc : c ≠ '\n') :
    (c :: cs).takeWhile (· ≠ '\n') = c :: cs.takeWhile (· ≠ '\n') :=
  List.takeWhile_cons_of_pos (decide_eq_true hc)

/-- What is left of a comment is labelled as one. -/
theorem labels_comment (cs : List Char) :
    rules.labels .comment cs = List.replicate (cs.takeWhile (· ≠ '\n')).length .comment ++
      rules.labels .code (cs.drop (cs.takeWhile (· ≠ '\n')).length) := by
  induction cs with
  | nil => rfl
  | cons c cs ih =>
      by_cases hc : c = '\n'
      · -- The line feed is read as code.
        subst hc
        rfl
      · rw [labels, read, if_neg hc, takeWhile_line hc, ih]
        rfl

/-- What is left of a string is labelled as one. -/
theorem labels_inString (cs : List Char) :
    rules.labels (.inString d) cs = List.replicate (restOfString d cs) .string ++
      rules.labels .code (cs.drop (restOfString d cs)) := by
  fun_induction restOfString d cs with
  | case1 => rfl
  | case2 cs => simp [labels, read]
  | case3 => rfl
  | case4 c cs hd ih =>
      -- The character behind a backslash closes nothing.
      have hstep : rules.labels (.inString d) ('\\' :: c :: cs) =
          .string :: .string :: rules.labels (.inString d) cs := by
        simp [labels, read, hd]
      rw [hstep, ih]
      rfl
  | case5 c cs hd hslash ih =>
      have hstep : rules.labels (.inString d) (c :: cs) =
          .string :: rules.labels (.inString d) cs := by
        simp [labels, read, hd, hslash]
      rw [hstep, ih]
      rfl

end LexicalRules

/-- The label of the characters of a lexeme. -/
def Lexeme.label : Lexeme → Label
  | code => .code
  | comment _ => .comment
  | string _ => .string

theorem Lexeme.name?_label (lexeme : Lexeme) : lexeme.label.name? = lexeme.name? := by
  cases lexeme <;> rfl

namespace LexicalRules

variable {rules : LexicalRules} {c d : Char} {cs : List Char}

/-- The three kinds of lexemes, and what they start with, unless a comment opens with the line feed
that ends it. -/
theorem lexemeOf_cases (h : rules.Opens (c :: cs) → c ≠ '\n') :
    (rules.Opens (c :: cs) ∧
      rules.lexemeOf c cs = .comment ((cs.takeWhile (· ≠ '\n')).length + 1)) ∨
    (¬ rules.Opens (c :: cs) ∧ c ∈ rules.stringDelimiters ∧
      rules.lexemeOf c cs = .string (restOfString c cs + 1)) ∨
    (¬ rules.Opens (c :: cs) ∧ c ∉ rules.stringDelimiters ∧ rules.lexemeOf c cs = .code) := by
  unfold lexemeOf
  by_cases hopens : rules.Opens (c :: cs)
  · rw [if_pos (opensComment_iff.mpr hopens), takeWhile_line (h hopens)]
    exact Or.inl ⟨hopens, rfl⟩
  · rw [if_neg (mt opensComment_iff.mp hopens)]
    by_cases hdelimiter : c ∈ rules.stringDelimiters
    · rw [if_pos hdelimiter]
      exact Or.inr (Or.inl ⟨hopens, hdelimiter, rfl⟩)
    · rw [if_neg hdelimiter]
      exact Or.inr (Or.inr ⟨hopens, hdelimiter, rfl⟩)

theorem size_lexemeOf_pos (h : rules.Opens (c :: cs) → c ≠ '\n') :
    0 < (rules.lexemeOf c cs).size := by
  rcases lexemeOf_cases h with ⟨-, hlexeme⟩ | ⟨-, -, hlexeme⟩ | ⟨-, -, hlexeme⟩ <;>
    rw [hlexeme] <;> exact Nat.succ_pos _

/-- The characters of a lexeme have one label, and what comes behind it is read as code. -/
theorem labels_lexemeOf (h : rules.Opens (c :: cs) → c ≠ '\n') :
    rules.labels .code (c :: cs) =
      List.replicate (rules.lexemeOf c cs).size (rules.lexemeOf c cs).label ++
        rules.labels .code ((c :: cs).drop (rules.lexemeOf c cs).size) := by
  rcases lexemeOf_cases h with
    ⟨hopens, hlexeme⟩ | ⟨hopens, hdelimiter, hlexeme⟩ | ⟨hopens, hdelimiter, hlexeme⟩
  · have hread : rules.labels .code (c :: cs) = .comment :: rules.labels .comment cs := by
      simp only [labels, read, readCode, if_pos hopens]
    rw [hlexeme, hread, labels_comment]
    rfl
  · have hread : rules.labels .code (c :: cs) = .string :: rules.labels (.inString c) cs := by
      simp only [labels, read, readCode, if_neg hopens, if_pos hdelimiter]
    rw [hlexeme, hread, labels_inString]
    rfl
  · have hread : rules.labels .code (c :: cs) = .code :: rules.labels .code cs := by
      simp only [labels, read, readCode, if_neg hopens, if_neg hdelimiter]
    rw [hlexeme, hread]
    rfl

end LexicalRules

/-! ### Annotations mark labels -/

/-- The annotation of a run of characters with one label, if they get one. -/
def mark (label : Label) (offset size : Nat) : List Annotation :=
  (label.name?.map fun name => ⟨⟨offset, offset + size, by omega⟩, name⟩).toList

/-- The annotations mark the labels of characters from an offset on. -/
structure Marks (offset : Nat) (labels : List Label) (as : List Annotation) : Prop where
  nonempty : ∀ a ∈ as, ¬ a.region.IsEmpty
  within : ∀ a ∈ as, offset ≤ a.region.start ∧ a.region.stop ≤ offset + labels.length
  apart : as.Pairwise fun a b => a.region.stop ≤ b.region.start
  names_eq : ∀ i label, labels[i]? = some label →
    (as.filter fun a => offset + i ∈ a.region).map (·.name) = label.name?.toList

variable {offset size : Nat} {label : Label} {labels : List Label} {as : List Annotation}

theorem marks_nil : Marks offset [] [] := ⟨by simp, by simp, List.Pairwise.nil, by simp⟩

theorem mem_mark {a : Annotation} : a ∈ mark label offset size ↔
    label.name? = some a.name ∧ a.region.start = offset ∧ a.region.stop = offset + size := by
  obtain ⟨region, name⟩ := a
  rw [mark, Option.mem_toList, Option.map_eq_some_iff]
  constructor
  · rintro ⟨name', hname, heq⟩
    obtain ⟨rfl, rfl⟩ := Annotation.mk.inj heq
    exact ⟨hname, rfl, rfl⟩
  · rintro ⟨hname, rfl, hstop⟩
    have hregion : region = ⟨region.start, region.start + size, by omega⟩ :=
      Region.ext rfl hstop
    exact ⟨name, hname, by rw [← hregion]⟩

theorem map_name_mark : (mark label offset size).map (·.name) = label.name?.toList := by
  cases label <;> rfl

theorem pairwise_mark {R : Annotation → Annotation → Prop} :
    (mark label offset size).Pairwise R := by
  cases label <;> simp [mark, Label.name?]

/-- Annotations that start behind an offset, or stop before it, do not hold it. -/
theorem filter_holding_eq_nil {p : Nat}
    (h : ∀ a ∈ as, p < a.region.start ∨ a.region.stop ≤ p) :
    as.filter (fun a => p ∈ a.region) = [] := by
  rw [List.filter_eq_nil_iff]
  intro a ha
  have := h a ha
  rw [decide_eq_true_eq, Region.mem_def]
  omega

/-- A run of characters with one label, in front of characters that are marked. -/
theorem Marks.cons (h : Marks (offset + size) labels as) (hsize : 0 < size) (label : Label) :
    Marks offset (List.replicate size label ++ labels) (mark label offset size ++ as) where
  nonempty a ha := by
    rcases List.mem_append.mp ha with ha | ha
    · have := mem_mark.mp ha
      omega
    · exact h.nonempty a ha
  within a ha := by
    rw [List.length_append, List.length_replicate]
    rcases List.mem_append.mp ha with ha | ha
    · have := mem_mark.mp ha
      omega
    · have := h.within a ha
      omega
  apart := by
    refine List.pairwise_append.mpr ⟨pairwise_mark, h.apart, fun a ha b hb => ?_⟩
    have := mem_mark.mp ha
    have := h.within b hb
    omega
  names_eq i l hl := by
    rw [List.filter_append, List.map_append]
    rcases Nat.lt_or_ge i size with hi | hi
    · -- The run: its own annotation holds it, and all others start behind it.
      have hown : (mark label offset size).filter (fun a => offset + i ∈ a.region) =
          mark label offset size := by
        rw [List.filter_eq_self]
        intro a ha
        have := mem_mark.mp ha
        rw [decide_eq_true_eq, Region.mem_def]
        omega
      have hothers : as.filter (fun a => offset + i ∈ a.region) = [] := by
        refine filter_holding_eq_nil fun a ha => ?_
        have := h.within a ha
        omega
      rw [List.getElem?_append_left (by rwa [List.length_replicate]),
        List.getElem?_replicate_of_lt hi] at hl
      rw [hown, hothers, map_name_mark, Option.some.inj hl]
      exact List.append_nil _
    · -- Behind the run, its annotation is over.
      have hown : (mark label offset size).filter (fun a => offset + i ∈ a.region) = [] := by
        refine filter_holding_eq_nil fun a ha => ?_
        have := mem_mark.mp ha
        omega
      have hplace : offset + size + (i - size) = offset + i := by omega
      rw [List.getElem?_append_right (by rwa [List.length_replicate]), List.length_replicate] at hl
      have hnames := h.names_eq (i - size) l hl
      rw [hplace] at hnames
      rw [hown, hnames]
      rfl

namespace LexicalRules

variable {rules : LexicalRules}

open AnnotationMap

/-- One step of the scan: the lexeme is marked, and the scan goes on behind it. -/
theorem scan_cons {c : Char} {cs : List Char} (h : rules.Opens (c :: cs) → c ≠ '\n')
    (offset : Nat) (m : AnnotationMap) : rules.scan offset m (c :: cs) =
      rules.scan (offset + (rules.lexemeOf c cs).size)
        ((mark (rules.lexemeOf c cs).label offset (rules.lexemeOf c cs).size).foldl push m)
        ((c :: cs).drop (rules.lexemeOf c cs).size) := by
  have hpos := size_lexemeOf_pos h
  have hname := (rules.lexemeOf c cs).name?_label
  rw [scan]
  generalize rules.lexemeOf c cs = lexeme at hpos hname
  dsimp only
  split
  · omega
  · rename_i size hsize
    rw [hsize, List.drop_succ_cons, mark, hname]
    cases lexeme.name? <;> rfl

/-- A whole scan: it gets through the text, and pushes annotations that mark it. -/
theorem exists_scan (h : rules.OpensInLine) (offset : Nat) (m : AnnotationMap) (cs : List Char) :
    ∃ as, rules.scan offset m cs = some (as.foldl push m) ∧
      Marks offset (rules.labels .code cs) as := by
  -- The induction is on what is left of the text, which each lexeme makes shorter.
  induction hn : cs.length using Nat.strongRecOn generalizing offset m cs with
  | ind n ih =>
      cases cs with
      | nil => exact ⟨[], by rw [scan]; rfl, marks_nil⟩
      | cons c cs =>
          have hline : rules.Opens (c :: cs) → c ≠ '\n' := h.ne_of_opens
          have hsize := size_lexemeOf_pos hline
          have hshorter : ((c :: cs).drop (rules.lexemeOf c cs).size).length < n := by
            rw [List.length_drop]
            rw [List.length_cons] at hn ⊢
            omega
          obtain ⟨as, hok, hmarks⟩ := ih _ hshorter (offset + (rules.lexemeOf c cs).size)
            ((mark (rules.lexemeOf c cs).label offset (rules.lexemeOf c cs).size).foldl push m)
            _ rfl
          refine ⟨mark (rules.lexemeOf c cs).label offset (rules.lexemeOf c cs).size ++ as, ?_, ?_⟩
          · rw [scan_cons hline, hok, List.foldl_append]
          · rw [labels_lexemeOf hline]
            exact hmarks.cons hsize _

/-- **Comments and strings.** Unless a comment opens with a line feed, the scan gets through the
text, and names every offset as a reader does who goes from character to character. The annotations
are not empty, lie in the text and stand one behind the other. -/
theorem annotate_eq_labels (h : rules.OpensInLine) (text : List Char) :
    ∃ m, rules.annotate text = some m ∧
      (List.range text.length).map m.nameAt = (rules.labels .code text).map Label.scopeName ∧
      (∀ a ∈ m.spans.toList, ¬ a.region.IsEmpty ∧ a.region.stop ≤ text.length) ∧
      m.spans.toList.Pairwise fun a b => a.region.stop ≤ b.region.start := by
  obtain ⟨as, hok, hmarks⟩ := exists_scan h 0 ∅ text
  have hordered : as.Pairwise fun a b => a.region.start ≤ b.region.start :=
    hmarks.apart.imp fun {a b} hle => Nat.le_trans a.region.start_le_stop hle
  have hspans : (ofList as).spans.toList = as := toList_spans_ofList hordered
  refine ⟨ofList as, hok, List.ext_getElem? fun i => ?_, ?_, ?_⟩
  · rw [List.getElem?_map, List.getElem?_map]
    rcases Nat.lt_or_ge i text.length with hi | hi
    · obtain ⟨label, hlabel⟩ : ∃ label, (rules.labels .code text)[i]? = some label :=
        ⟨_, List.getElem?_eq_getElem (by rwa [length_labels])⟩
      have hnames := hmarks.names_eq i label hlabel
      rw [Nat.zero_add] at hnames
      rw [List.getElem?_range hi, hlabel, Option.map_some, Option.map_some,
        (keeps_ofList as).nameAt_eq, hspans, hnames, label.intercalate_name?]
    · rw [List.getElem?_eq_none (by rwa [List.length_range]),
        List.getElem?_eq_none (by rwa [length_labels])]
      rfl
  · rw [hspans]
    intro a ha
    have := (hmarks.within a ha).2
    rw [length_labels] at this
    exact ⟨hmarks.nonempty a ha, by omega⟩
  · rw [hspans]
    exact hmarks.apart

/-- A quote in a comment opens no string, and one behind a backslash closes none. -/
theorem annotate_lisp_unterminated :
    lisp.OpensInLine ∧ ∃ m, lisp.annotate ['a', ';', '"', '\n', '"', '\\', '"', 'b'] = some m ∧
      (List.range 8).map m.nameAt =
        ["source", "source comment.line", "source comment.line", "source",
          "source string.quoted", "source string.quoted", "source string.quoted",
          "source string.quoted"] := by
  have h : lisp.OpensInLine := by decide
  obtain ⟨m, hok, hnames, -⟩ := annotate_eq_labels h ['a', ';', '"', '\n', '"', '\\', '"', 'b']
  exact ⟨h, m, hok, hnames⟩

end LexicalRules
end BracketPaint
