import Mathlib.Data.List.Basic
import Mathlib.Data.List.Induction
import BracketPaint.Color.Spec
/-!
# Texts of colours

A colour may be written as a word, or as three or six hexadecimal digits with or without a number
sign before them (`Color.IsColorText`). These texts are all read, but they are not all that is.

The digits are cut into three fields by their size in bytes, and each field is read as a number of
its own. So a field of two bytes may be a plus sign and one digit (`Color.HasSign`), and a cut may
fall inside a character of several bytes, which breaks a promise (`Color.CutsInside`).
`parse_text_iff` says that nothing else can go wrong.

The fields are followed one by one: a field in front of a text is read first, so that a text which
begins with fields is told by what comes behind them.
-/

namespace BracketPaint

/-! ### Hexadecimal digits -/

namespace Text

/-- The character is a hexadecimal digit, capital or small. -/
def IsHexDigit (c : Char) : Prop :=
  ('0' ≤ c ∧ c ≤ '9') ∨ ('A' ≤ c ∧ c ≤ 'F') ∨ ('a' ≤ c ∧ c ≤ 'f')

instance (c : Char) : Decidable (IsHexDigit c) :=
  inferInstanceAs (Decidable (_ ∨ _ ∨ _))

variable {c : Char} {cs : List Char}

theorem isHexDigit_iff_toNat :
    IsHexDigit c ↔ (48 ≤ c.toNat ∧ c.toNat ≤ 57) ∨ (65 ≤ c.toNat ∧ c.toNat ≤ 70) ∨
      (97 ≤ c.toNat ∧ c.toNat ≤ 102) :=
  Iff.rfl

theorem isSome_hexValue?_iff : (hexValue? c).isSome ↔ IsHexDigit c := by
  rw [isHexDigit_iff_toNat]
  unfold hexValue?
  grind

theorem hexNumber?_append_singleton (cs : List Char) (c : Char) :
    hexNumber? (cs ++ [c]) = do return 16 * (← hexNumber? cs) + (← hexValue? c) := by
  rw [hexNumber?, List.foldl_append]
  rfl

/-- A text is a number to the base sixteen if all its characters are digits. -/
theorem isSome_hexNumber?_iff : (hexNumber? cs).isSome ↔ ∀ c ∈ cs, IsHexDigit c := by
  induction cs using List.reverseRecOn with
  | nil => simp [hexNumber?]
  | append_singleton cs c ih =>
      rw [hexNumber?_append_singleton, List.forall_mem_append, List.forall_mem_singleton, ← ih,
        ← isSome_hexValue?_iff]
      cases hexNumber? cs <;> cases hexValue? c <;> simp

theorem IsHexDigit.utf8Size_eq (h : IsHexDigit c) : c.utf8Size = 1 := by
  rw [Char.utf8Size_eq_one_iff, UInt32.le_iff_toNat_le]
  have := isHexDigit_iff_toNat.mp h
  change c.toNat ≤ 127
  omega

end Text

namespace Color

open Text

/-! ### Cutting by bytes -/

variable {n width count : Nat} {cs field rest before after : List Char} {c : Char}

@[simp] theorem byteSize_cons (c : Char) (cs : List Char) :
    byteSize (c :: cs) = c.utf8Size + byteSize cs := rfl

@[simp] theorem byteSize_append (cs ds : List Char) :
    byteSize (cs ++ ds) = byteSize cs + byteSize ds := by
  induction cs with
  | nil => simp [byteSize]
  | cons c cs ih => simp [byteSize, ih, Nat.add_assoc]

/-- A cut after so many bytes falls inside a character. -/
def CutsCharacter (n : Nat) (cs : List Char) : Prop :=
  ∃ before c after, cs = before ++ c :: after ∧
    byteSize before < n ∧ n < byteSize before + c.utf8Size

theorem cutBytes?_append (field rest : List Char) :
    cutBytes? (byteSize field) (field ++ rest) = some (field, rest) := by
  induction field with
  | nil => simp [byteSize, cutBytes?]
  | cons c field ih =>
      have hpos := c.utf8Size_pos
      obtain ⟨n, hn⟩ : ∃ n, c.utf8Size + byteSize field = n + 1 :=
        ⟨c.utf8Size + byteSize field - 1, by omega⟩
      have hrest : n + 1 - c.utf8Size = byteSize field := by omega
      rw [byteSize, hn, List.cons_append, cutBytes?, if_pos (by omega), hrest, ih]
      rfl

theorem cutBytes?_eq_some_iff :
    cutBytes? n cs = some (field, rest) ↔ cs = field ++ rest ∧ byteSize field = n := by
  constructor
  · intro h
    fun_induction cutBytes? n cs generalizing field with
    | case1 cs => cases h; exact ⟨rfl, rfl⟩
    | case2 n => cases h
    | case3 n c cs hle ih =>
        obtain ⟨⟨field', rest'⟩, hcut, heq⟩ := Option.map_eq_some_iff.mp h
        cases heq
        obtain ⟨rfl, hsize⟩ := ih hcut
        refine ⟨rfl, ?_⟩
        rw [byteSize]
        omega
    | case4 n c cs hle => cases h
  · rintro ⟨rfl, rfl⟩
    exact cutBytes?_append field rest

theorem cutBytes?_eq_none_iff (hn : n ≤ byteSize cs) :
    cutBytes? n cs = none ↔ CutsCharacter n cs := by
  constructor
  · intro h
    fun_induction cutBytes? n cs with
    | case1 cs => cases h
    | case2 n => cases hn
    | case3 n c cs hle ih =>
        rw [byteSize] at hn
        obtain ⟨before, d, after, rfl, hbefore, hafter⟩ :=
          ih (by omega) (Option.map_eq_none_iff.mp h)
        refine ⟨c :: before, d, after, rfl, ?_, ?_⟩ <;> rw [byteSize] <;> omega
    | case4 n c cs hle =>
        refine ⟨[], c, cs, rfl, ?_, ?_⟩ <;> rw [byteSize] <;> omega
  · rintro ⟨before, c, after, hcs, hbefore, hafter⟩
    rw [Option.eq_none_iff_forall_ne_some]
    rintro ⟨field, rest⟩ hcut
    obtain ⟨heq, rfl⟩ := cutBytes?_eq_some_iff.mp hcut
    -- The field stops before the character, or else it holds the character.
    rcases List.append_eq_append_iff.mp (hcs.symm.trans heq) with ⟨mid, rfl, hmid⟩ | ⟨mid, rfl, -⟩
    · cases mid with
      | nil => simp at hbefore
      | cons d mid =>
          obtain ⟨rfl, -⟩ := List.cons.inj hmid
          rw [byteSize_append, byteSize_cons] at hafter
          omega
    · rw [byteSize_append] at hbefore
      omega

/-! ### Fields -/

/-- A field of a colour: one digit, or two, the first of which may be a plus sign instead. -/
inductive IsField : Nat → List Char → Prop
  | digit {c : Char} (h : IsHexDigit c) : IsField 1 [c]
  | digits {c d : Char} (hc : IsHexDigit c) (hd : IsHexDigit d) : IsField 2 [c, d]
  | signed {d : Char} (h : IsHexDigit d) : IsField 2 ['+', d]

theorem isSome_fieldValue?_iff :
    (fieldValue? field).isSome ↔ field ≠ [] ∧ (∀ c ∈ field, IsHexDigit c) ∨
      ∃ digits, digits ≠ [] ∧ field = '+' :: digits ∧ ∀ c ∈ digits, IsHexDigit c := by
  have hplus : ¬ IsHexDigit '+' := by decide
  unfold fieldValue?
  split <;> simp_all [isSome_hexNumber?_iff]

theorem byteSize_of_isHexDigit (h : ∀ c ∈ cs, IsHexDigit c) : byteSize cs = cs.length := by
  induction cs with
  | nil => rfl
  | cons c cs ih =>
      obtain ⟨hc, hcs⟩ := List.forall_mem_cons.mp h
      rw [byteSize_cons, hc.utf8Size_eq, ih hcs, List.length_cons, Nat.add_comm]

theorem IsField.byteSize_eq (h : IsField width field) : byteSize field = width := by
  cases h with
  | digit h => simp [byteSize, h.utf8Size_eq]
  | digits hc hd => simp [byteSize, hc.utf8Size_eq, hd.utf8Size_eq]
  | signed h => simp [byteSize, h.utf8Size_eq, show '+'.utf8Size = 1 from rfl]

theorem IsField.isSome_fieldValue? (h : IsField width field) : (fieldValue? field).isSome := by
  rw [isSome_fieldValue?_iff]
  cases h with
  | digit h => simp [h]
  | digits hc hd => simp [hc, hd]
  | signed h => simp [h]

/-- What reads as a field of one or two bytes is a field. -/
theorem isField_of_isSome_fieldValue? (h : (fieldValue? field).isSome)
    (hwidth : byteSize field = 1 ∨ byteSize field = 2) : IsField (byteSize field) field := by
  rcases isSome_fieldValue?_iff.mp h with ⟨hne, hdigits⟩ | ⟨digits, hne, rfl, hdigits⟩
  · rw [byteSize_of_isHexDigit hdigits] at hwidth ⊢
    match field, hwidth with
    | [c], _ => exact .digit (by simpa using hdigits)
    | [c, d], _ => exact .digits (hdigits c (by simp)) (hdigits d (by simp))
  · rw [byteSize_cons, byteSize_of_isHexDigit hdigits] at hwidth ⊢
    match digits, hwidth with
    | [], _ => exact absurd rfl hne
    | [d], _ => exact .signed (by simpa using hdigits)
    | [c, d], h => simp [show '+'.utf8Size = 1 from rfl] at h

/-! ### Reading fields -/

variable {fields : List (List Char)}

/-- A number in front of a text is read first. -/
theorem readFields_append_of_value {value : Nat} (hsize : byteSize field = width)
    (hvalue : fieldValue? field = some value) (count : Nat) (rest : List Char) :
    readFields width (count + 1) (field ++ rest) =
      (readFields width count rest).map fun values? => values?.map (value :: ·) := by
  have hcut : cutBytes? width (field ++ rest) = some (field, rest) :=
    cutBytes?_eq_some_iff.mpr ⟨rfl, hsize⟩
  simp [readFields, hcut, hvalue]

/-- A field in front of a text is read first. -/
theorem readFields_append (h : IsField width field) (count : Nat) (rest : List Char) :
    ∃ value, readFields width (count + 1) (field ++ rest) =
      (readFields width count rest).map fun values? => values?.map (value :: ·) := by
  obtain ⟨value, hvalue⟩ := Option.isSome_iff_exists.mp h.isSome_fieldValue?
  exact ⟨value, readFields_append_of_value h.byteSize_eq hvalue count rest⟩

theorem exists_readFields (hfields : ∀ field ∈ fields, IsField width field) (rest : List Char) :
    ∃ values, values.length = fields.length ∧
      readFields width fields.length (fields.flatten ++ rest) = .ok (some values) := by
  induction fields with
  | nil => exact ⟨[], rfl, rfl⟩
  | cons field fields ih =>
      obtain ⟨hfield, hfields⟩ := List.forall_mem_cons.mp hfields
      obtain ⟨values, hlength, hvalues⟩ := ih hfields
      obtain ⟨value, hvalue⟩ :=
        readFields_append hfield fields.length (fields.flatten ++ rest)
      refine ⟨value :: values, by simp [hlength], ?_⟩
      rw [List.flatten_cons, List.append_assoc, List.length_cons, hvalue, hvalues]
      rfl

theorem readFields_of_cutBytes?_eq_none (hfields : ∀ field ∈ fields, IsField width field)
    (hcut : cutBytes? width rest = none) (hcount : fields.length < count) :
    readFields width count (fields.flatten ++ rest) = .error .splitCharacter := by
  induction fields generalizing count with
  | nil =>
      obtain ⟨count, rfl⟩ := Nat.exists_eq_add_one.mpr hcount
      simp [readFields, hcut]
  | cons field fields ih =>
      obtain ⟨hfield, hfields⟩ := List.forall_mem_cons.mp hfields
      obtain ⟨count, rfl⟩ := Nat.exists_eq_add_one.mpr (Nat.zero_lt_of_lt hcount)
      obtain ⟨value, hvalue⟩ := readFields_append hfield count (fields.flatten ++ rest)
      rw [List.flatten_cons, List.append_assoc, hvalue, ih hfields (Nat.lt_of_succ_lt_succ hcount)]
      rfl

/-- A text begins with the fields that are to be read, or there is no cut behind some fields, or
what is cut off behind some is no number. -/
theorem readFields_cases (hwidth : width = 1 ∨ width = 2) (count : Nat) (cs : List Char) :
    (∃ (fields : List (List Char)) (rest : List Char), cs = fields.flatten ++ rest ∧
      fields.length = count ∧ ∀ field ∈ fields, IsField width field) ∨
    (∃ (fields : List (List Char)) (rest : List Char), cs = fields.flatten ++ rest ∧
      fields.length < count ∧ (∀ field ∈ fields, IsField width field) ∧
      cutBytes? width rest = none) ∨
    readFields width count cs = .ok none := by
  induction count generalizing cs with
  | zero => exact Or.inl ⟨[], cs, rfl, rfl, nofun⟩
  | succ count ih =>
      cases hcut : cutBytes? width cs with
      | none => exact Or.inr (Or.inl ⟨[], cs, rfl, Nat.succ_pos _, nofun, hcut⟩)
      | some parts =>
          obtain ⟨field, rest⟩ := parts
          cases hvalue : fieldValue? field with
          | none => exact Or.inr (Or.inr (by simp [readFields, hcut, hvalue]))
          | some value =>
              obtain ⟨rfl, rfl⟩ := cutBytes?_eq_some_iff.mp hcut
              have hfield : IsField (byteSize field) field :=
                isField_of_isSome_fieldValue? (by simp [hvalue]) hwidth
              -- The field that is read stands in front of what the rest begins with.
              rcases ih rest with ⟨fields, rest', rfl, hlength, hfields⟩ |
                  ⟨fields, rest', rfl, hlength, hfields, hnone⟩ | hrest
              · exact Or.inl ⟨field :: fields, rest', by simp, by simp [hlength],
                  List.forall_mem_cons.mpr ⟨hfield, hfields⟩⟩
              · exact Or.inr (Or.inl ⟨field :: fields, rest', by simp, by simpa using hlength,
                  List.forall_mem_cons.mpr ⟨hfield, hfields⟩, hnone⟩)
              · refine Or.inr (Or.inr ?_)
                obtain ⟨value', hvalue'⟩ := readFields_append hfield count rest
                rw [hvalue', hrest]
                rfl

theorem byteSize_flatten (hfields : ∀ field ∈ fields, IsField width field) :
    byteSize fields.flatten = width * fields.length := by
  induction fields with
  | nil => rfl
  | cons field fields ih =>
      obtain ⟨hfield, hfields⟩ := List.forall_mem_cons.mp hfields
      rw [List.flatten_cons, byteSize_append, hfield.byteSize_eq, ih hfields, List.length_cons,
        Nat.mul_succ, Nat.add_comm]

/-! ### Hexadecimal colours -/

/-- The text is three fields of one size. -/
def IsThreeFields (cs : List Char) : Prop :=
  ∃ (width : Nat) (fields : List (List Char)), cs = fields.flatten ∧ fields.length = 3 ∧
    ∀ field ∈ fields, IsField width field

/-- The text has the size of three fields, but behind some a cut falls inside a character. -/
def CutsInside (cs : List Char) : Prop :=
  ∃ (width : Nat) (fields : List (List Char)) (rest : List Char),
    (width = 1 ∨ width = 2) ∧ byteSize cs = 3 * width ∧ cs = fields.flatten ++ rest ∧
      (∀ field ∈ fields, IsField width field) ∧ CutsCharacter width rest

theorem IsField.width_eq (h : IsField width field) : width = 1 ∨ width = 2 := by
  cases h <;> simp

theorem width_eq_of_length (hlength : fields.length = 3)
    (hfields : ∀ field ∈ fields, IsField width field) : width = 1 ∨ width = 2 := by
  obtain ⟨field, hfield⟩ := List.exists_mem_of_length_pos (by omega : 0 < fields.length)
  exact (hfields field hfield).width_eq

theorem exists_ofHex (h : IsThreeFields (hexPart cs)) : ∃ c, ofHex cs = .ok (some c) := by
  obtain ⟨width, fields, heq, hlength, hfields⟩ := h
  obtain ⟨values, hvalues, hread⟩ := exists_readFields hfields []
  have hsize := byteSize_flatten hfields
  rw [List.append_nil, ← heq, hlength] at hread
  rw [← heq, hlength] at hsize
  rw [hlength] at hvalues
  obtain ⟨r, g, b, rfl⟩ := List.length_eq_three.mp hvalues
  rcases width_eq_of_length hlength hfields with rfl | rfl
  · simp [ofHex, hsize, hread, ofChannels?, Except.map]
  · simp [ofHex, hsize, hread, ofChannels?, Except.map]

theorem CutsCharacter.lt_byteSize (h : CutsCharacter n cs) : n < byteSize cs := by
  obtain ⟨before, c, after, rfl, -, hlt⟩ := h
  rw [byteSize_append, byteSize_cons]
  omega

theorem ofHex_of_cutsInside (h : CutsInside (hexPart cs)) : ofHex cs = .error .splitCharacter := by
  obtain ⟨width, fields, rest, hwidth, hsize, heq, hfields, hcuts⟩ := h
  have hrest := hcuts.lt_byteSize
  have hcut : cutBytes? width rest = none := (cutBytes?_eq_none_iff (Nat.le_of_lt hrest)).mpr hcuts
  have hcount : fields.length < 3 := by
    rw [heq, byteSize_append, byteSize_flatten hfields] at hsize
    rcases hwidth with rfl | rfl <;> omega
  have hread := readFields_of_cutBytes?_eq_none hfields hcut hcount
  rw [← heq] at hread
  rcases hwidth with rfl | rfl <;> simp [ofHex, hsize, hread, Except.map]

/-- A text of the right size that is not three fields has a cut inside a character, or no colour. -/
theorem readFields_three_cases (hwidth : width = 1 ∨ width = 2) (hsize : byteSize cs = 3 * width) :
    IsThreeFields cs ∨ CutsInside cs ∨ readFields width 3 cs = .ok none := by
  rcases readFields_cases hwidth 3 cs with ⟨fields, rest, heq, hlength, hfields⟩ |
      ⟨fields, rest, heq, hlength, hfields, hcut⟩ | hnone
  · have hrest : rest = [] := by
      rw [heq, byteSize_append, byteSize_flatten hfields, hlength] at hsize
      cases rest with
      | nil => rfl
      | cons c rest =>
          have := c.utf8Size_pos
          rw [byteSize_cons] at hsize
          omega
    exact Or.inl ⟨width, fields, by rw [heq, hrest, List.append_nil], hlength, hfields⟩
  · have hle : width ≤ byteSize rest := by
      rw [heq, byteSize_append, byteSize_flatten hfields] at hsize
      rcases hwidth with rfl | rfl <;> omega
    exact Or.inr (Or.inl ⟨width, fields, rest, hwidth, hsize, heq, hfields,
      (cutBytes?_eq_none_iff hle).mp hcut⟩)
  · exact Or.inr (Or.inr hnone)

theorem ofHex_cases (cs : List Char) :
    IsThreeFields (hexPart cs) ∨ CutsInside (hexPart cs) ∨ ofHex cs = .ok none := by
  unfold ofHex
  split
  · rename_i hsize
    have := readFields_three_cases (Or.inl rfl) hsize
    refine this.imp_right (Or.imp_right fun hnone => ?_)
    rw [hnone]
    rfl
  · rename_i hsize
    have := readFields_three_cases (Or.inr rfl) hsize
    refine this.imp_right (Or.imp_right fun hnone => ?_)
    rw [hnone]
    rfl
  · exact Or.inr (Or.inr rfl)

/-! ### The documented texts -/

/-- The digits of a hexadecimal colour, three or six of them. -/
def IsHexColor (digits : List Char) : Prop :=
  (digits.length = 3 ∨ digits.length = 6) ∧ ∀ c ∈ digits, IsHexDigit c

/-- The text is a keyword, or one of the words for the transparent colour. -/
def IsWord (cs : List Char) : Prop :=
  cs = "transparent".toList ∨ cs = "none".toList ∨ ∃ entry ∈ keywords, cs = entry.1.toList

/-- The text, in lower case, is a word, or three or six digits with or without a number sign
before them. -/
def IsColorText (cs : List Char) : Prop :=
  IsWord cs ∨ ∃ digits, (cs = digits ∨ cs = '#' :: digits) ∧ IsHexColor digits

/-- The text is three fields of two characters, with a plus sign in place of a digit in some. -/
def HasSign (cs : List Char) : Prop :=
  '+' ∈ cs ∧ ∃ fields : List (List Char), cs = fields.flatten ∧ fields.length = 3 ∧
    ∀ field ∈ fields, IsField 2 field

theorem mem_of_mem_hexPart (h : c ∈ hexPart cs) : c ∈ cs := by
  unfold hexPart at h
  split at h
  · exact List.mem_cons_of_mem _ h
  · exact h

theorem isHexColor_hexPart_iff :
    IsHexColor (hexPart cs) ↔ ∃ digits, (cs = digits ∨ cs = '#' :: digits) ∧ IsHexColor digits := by
  constructor
  · intro h
    unfold hexPart at h
    split at h
    · exact ⟨_, Or.inr rfl, h⟩
    · exact ⟨cs, Or.inl rfl, h⟩
  · rintro ⟨digits, rfl | rfl, h⟩
    · unfold hexPart
      split
      · exact absurd (h.2 '#' List.mem_cons_self) (by decide)
      · exact h
    · exact h

theorem IsField.isHexDigit (h : IsField width field) (hplus : '+' ∉ field) :
    ∀ c ∈ field, IsHexDigit c := by
  cases h with
  | digit h => simpa using h
  | digits hc hd => simp [hc, hd]
  | signed h => simp at hplus

theorem IsField.width_eq_two (h : IsField width field) (hplus : '+' ∈ field) : width = 2 := by
  cases h with
  | digit h =>
      obtain rfl := List.mem_singleton.mp hplus
      exact absurd h (by decide)
  | digits hc hd => rfl
  | signed h => rfl

/-- Three fields are the digits of a colour, unless there is a sign in them. -/
theorem isThreeFields_iff : IsThreeFields cs ↔ IsHexColor cs ∨ HasSign cs := by
  constructor
  · rintro ⟨width, fields, rfl, hlength, hfields⟩
    by_cases hplus : '+' ∈ fields.flatten
    · obtain ⟨field, hfield, hmem⟩ := List.mem_flatten.mp hplus
      obtain rfl := (hfields field hfield).width_eq_two hmem
      exact Or.inr ⟨hplus, fields, rfl, hlength, hfields⟩
    · have hdigits : ∀ c ∈ fields.flatten, IsHexDigit c := by
        intro c hc
        obtain ⟨field, hfield, hmem⟩ := List.mem_flatten.mp hc
        refine (hfields field hfield).isHexDigit (fun h => hplus ?_) c hmem
        exact List.mem_flatten.mpr ⟨field, hfield, h⟩
      have hsize := byteSize_flatten hfields
      rw [byteSize_of_isHexDigit hdigits, hlength] at hsize
      have hwidth := width_eq_of_length hlength hfields
      exact Or.inl ⟨by omega, hdigits⟩
  · rintro (⟨hlength, hdigits⟩ | ⟨-, fields, rfl, hlength, hfields⟩)
    · match cs, hlength with
      | [a, b, c], _ =>
          refine ⟨1, [[a], [b], [c]], rfl, rfl, ?_⟩
          simp only [List.forall_mem_cons] at hdigits ⊢
          exact ⟨.digit hdigits.1, .digit hdigits.2.1, .digit hdigits.2.2.1, nofun⟩
      | [a, a', b, b', c, c'], _ =>
          refine ⟨2, [[a, a'], [b, b'], [c, c']], rfl, rfl, ?_⟩
          simp only [List.forall_mem_cons] at hdigits ⊢
          obtain ⟨ha, ha', hb, hb', hc, hc', -⟩ := hdigits
          exact ⟨.digits ha ha', .digits hb hb', .digits hc hc', nofun⟩
    · exact ⟨2, fields, rfl, hlength, hfields⟩

/-! ### Words -/

theorem all_of_mem_keywords :
    ∀ entry ∈ keywords, entry.1.toList.all fun c => c.utf8Size = 1 ∧ c ≠ '+' := by
  decide +kernel

/-- There are no plus signs in words, and no characters of several bytes. -/
theorem IsWord.forall_mem (h : IsWord cs) : ∀ c ∈ cs, c.utf8Size = 1 ∧ c ≠ '+' := by
  suffices hall : cs.all fun c => c.utf8Size = 1 ∧ c ≠ '+' by simpa using hall
  rcases h with rfl | rfl | ⟨entry, hentry, rfl⟩
  · decide
  · decide
  · exact all_of_mem_keywords entry hentry

theorem isSome_ofKeyword?_iff :
    (ofKeyword? (String.ofList cs)).isSome ↔ ∃ entry ∈ keywords, cs = entry.1.toList := by
  simp only [ofKeyword?, Option.isSome_map, List.lookup_isSome_iff, beq_iff_eq,
    ← String.toList_inj, String.toList_ofList]

/-- A cut inside a character is in one of more than one byte. -/
theorem CutsInside.exists_mem (h : CutsInside (hexPart cs)) : ∃ c ∈ cs, c.utf8Size ≠ 1 := by
  obtain ⟨width, fields, rest, -, -, heq, -, before, c, after, rfl, hbefore, hafter⟩ := h
  refine ⟨c, mem_of_mem_hexPart (by simp [heq]), ?_⟩
  omega

theorem not_isColorText_of_cutsInside (h : CutsInside (hexPart cs)) : ¬ IsColorText cs := by
  obtain ⟨c, hc, hsize⟩ := h.exists_mem
  rintro (hword | ⟨digits, rfl | rfl, -, hdigits⟩)
  · exact hsize (hword.forall_mem c hc).1
  · exact hsize (hdigits c hc).utf8Size_eq
  · rcases List.mem_cons.mp hc with rfl | hc
    · exact hsize rfl
    · exact hsize (hdigits c hc).utf8Size_eq

theorem not_isColorText_of_hasSign (h : HasSign (hexPart cs)) : ¬ IsColorText cs := by
  rintro (hword | hdigits)
  · exact (hword.forall_mem '+' (mem_of_mem_hexPart h.1)).2 rfl
  · exact absurd ((isHexColor_hexPart_iff.mpr hdigits).2 '+' h.1) (by decide)

/-- Text is read as three fields exactly if it is digits or has a sign. -/
theorem isThreeFields_hexPart_iff :
    IsThreeFields (hexPart cs) ↔
      (∃ digits, (cs = digits ∨ cs = '#' :: digits) ∧ IsHexColor digits) ∨
        HasSign (hexPart cs) := by
  rw [isThreeFields_iff, isHexColor_hexPart_iff]

theorem not_hasSign_of_cutsInside (h : CutsInside (hexPart cs)) : ¬ HasSign (hexPart cs) := by
  intro hsign
  obtain ⟨c, hc⟩ := exists_ofHex (isThreeFields_hexPart_iff.mpr (Or.inr hsign))
  rw [ofHex_of_cutsInside h] at hc
  cases hc

end Color

/-! ### Reading a text -/

open Color

/-- What is read of a text: the white space at its ends is left out and capital letters of ASCII
are made small. -/
def lowered (written : String) : List Char := (Text.trim written.toList).map Char.toLower

/-- The text is read as it is documented: the colours are read, all else is refused. -/
def ReadAsDocumented (written : String) : Prop :=
  (IsColorText (lowered written) → ∃ color, (ColorSpec.text written).parse = .ok color) ∧
  (¬ IsColorText (lowered written) →
    (ColorSpec.text written).parse = .error (.invalid written))

/-- A text is read, or it is cut inside a character, or it is refused. -/
theorem parse_text_cases (written : String) :
    (IsColorText (lowered written) ∨ HasSign (hexPart (lowered written))) ∧
      (∃ color, (ColorSpec.text written).parse = .ok color) ∨
    CutsInside (hexPart (lowered written)) ∧
      (ColorSpec.text written).parse = .error (.fault .splitCharacter) ∨
    (¬ IsColorText (lowered written) ∧ ¬ HasSign (hexPart (lowered written)) ∧
      ¬ CutsInside (hexPart (lowered written))) ∧
      (ColorSpec.text written).parse = .error (.invalid written) := by
  rw [ColorSpec.parse, ofText, ← lowered]
  by_cases hclear : lowered written = "transparent".toList ∨ lowered written = "none".toList
  · rw [if_pos hclear]
    exact Or.inl ⟨Or.inl (Or.inl (hclear.imp_right Or.inl)), _, rfl⟩
  · rw [if_neg hclear]
    rcases ofHex_cases (lowered written) with hfields | hcuts | hnone
    · obtain ⟨c, hc⟩ := exists_ofHex hfields
      rw [hc]
      exact Or.inl ⟨(isThreeFields_hexPart_iff.mp hfields).imp_left Or.inr, _, rfl⟩
    · rw [ofHex_of_cutsInside hcuts]
      exact Or.inr (Or.inl ⟨hcuts, rfl⟩)
    · rw [hnone]
      cases hkeyword : ofKeyword? (String.ofList (lowered written)) with
      | some c =>
          have hentry := isSome_ofKeyword?_iff.mp (Option.isSome_of_eq_some hkeyword)
          exact Or.inl ⟨Or.inl (Or.inl (Or.inr (Or.inr hentry))), _, rfl⟩
      | none =>
          have hfields : ¬ IsThreeFields (hexPart (lowered written)) := by
            intro hfields
            obtain ⟨c, hc⟩ := exists_ofHex hfields
            rw [hnone] at hc
            cases hc
          rw [isThreeFields_hexPart_iff, not_or] at hfields
          refine Or.inr (Or.inr ⟨⟨?_, hfields.2, fun hcuts => ?_⟩, rfl⟩)
          · rintro ((htransparent | hempty | hentry) | hdigits)
            · exact hclear (Or.inl htransparent)
            · exact hclear (Or.inr hempty)
            · have := isSome_ofKeyword?_iff.mpr hentry
              rw [hkeyword] at this
              cases this
            · exact hfields.1 hdigits
          · rw [ofHex_of_cutsInside hcuts] at hnone
            cases hnone

/-- **Texts of colours.** A text is a colour exactly if it is documented as one or has a sign in it,
and it breaks a promise exactly if a cut falls inside a character. Every other text is refused, so
that it is read as documented without a sign and without such a cut, and only then. -/
theorem parse_text_iff (written : String) :
    ((∃ color, (ColorSpec.text written).parse = .ok color) ↔
      IsColorText (lowered written) ∨ HasSign (hexPart (lowered written))) ∧
    ((ColorSpec.text written).parse = .error (.fault .splitCharacter) ↔
      CutsInside (hexPart (lowered written))) ∧
    ((ColorSpec.text written).parse = .error (.invalid written) ↔
      ¬ IsColorText (lowered written) ∧ ¬ HasSign (hexPart (lowered written)) ∧
        ¬ CutsInside (hexPart (lowered written))) ∧
    (ReadAsDocumented written ↔
      ¬ HasSign (hexPart (lowered written)) ∧ ¬ CutsInside (hexPart (lowered written))) := by
  have hsign : HasSign (hexPart (lowered written)) → ¬ IsColorText (lowered written) :=
    not_isColorText_of_hasSign
  have hcuts : CutsInside (hexPart (lowered written)) → ¬ IsColorText (lowered written) ∧
      ¬ HasSign (hexPart (lowered written)) := fun h =>
    ⟨not_isColorText_of_cutsInside h, not_hasSign_of_cutsInside h⟩
  unfold ReadAsDocumented
  rcases parse_text_cases written with ⟨htext, color, hok⟩ | ⟨htext, hfault⟩ | ⟨htext, hinvalid⟩
  · simp only [hok, Except.ok.injEq, exists_eq', reduceCtorEq]
    tauto
  · simp only [hfault, reduceCtorEq, exists_false, Except.error.injEq]
    tauto
  · simp only [hinvalid, reduceCtorEq, exists_false, Except.error.injEq]
    tauto

/-- Three fields with a sign are a colour, and two characters of three bytes are cut inside the
first one. -/
theorem parse_text_undocumented :
    (¬ IsColorText (lowered "+f+f+f") ∧
      (ColorSpec.text "+f+f+f").parse = .ok (.ofNat 0x0F0F0F)) ∧
    ¬ IsColorText (lowered "é1") ∧
      (ColorSpec.text "é1").parse = .error (.fault .splitCharacter) := by
  have hsign : HasSign (hexPart (lowered "+f+f+f")) := by
    refine ⟨by decide, [['+', 'f'], ['+', 'f'], ['+', 'f']], by decide, rfl, ?_⟩
    have hfield : IsField 2 ['+', 'f'] := .signed (by decide)
    simp [hfield]
  have hcuts : CutsInside (hexPart (lowered "é1")) :=
    ⟨1, [], ['é', '1'], Or.inl rfl, by decide, by decide, nofun, [], 'é', ['1'], rfl, by decide,
      by decide⟩
  exact ⟨⟨not_isColorText_of_hasSign hsign, by decide⟩,
    not_isColorText_of_cutsInside hcuts, by decide⟩

end BracketPaint
