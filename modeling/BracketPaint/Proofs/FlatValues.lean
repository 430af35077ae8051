import BracketPaint.Proofs.Numerals
import BracketPaint.Proofs.Quotation
/-!
# Written values

A value without tables is read back (`value?_renderValue`), whatever follows it, as long as what
follows cannot be taken for a part of it (`EndsValue`). Behind a value stands the end of its line, a
comma, or the bracket that closes the array around it.

An array of two and more items takes a line for each, so the reader has breaks and blanks to skip.
It skips nothing else, since every item starts with a character that is no blank and starts no
comment (`StartsItem`).
-/

namespace BracketPaint.Toml

variable {α : Type} {c : Char} {cs rest : List Char} {item : List Char → Option (α × List Char)}

/-- The character starts something: it is no blank and no break, and starts no comment. -/
def IsSolid (c : Char) : Prop := isSpace c = false ∧ c ≠ '\n' ∧ c ≠ '\r' ∧ c ≠ '#'

instance (c : Char) : Decidable (IsSolid c) := inferInstanceAs (Decidable (_ ∧ _ ∧ _ ∧ _))

theorem skipLines_of_isSolid (h : IsSolid c) : skipLines (c :: cs) = c :: cs := by
  obtain ⟨hspace, hnewline, hreturn, -⟩ := h
  rw [skipLines.eq_def]
  split
  · rename_i heq
    cases heq
    exact absurd rfl hreturn
  · rename_i heq
    cases heq
    rw [if_neg (by simp [hspace, hnewline])]
  · rename_i heq
    cases heq

theorem skipLines_cons (h : isSpace c || c == '\n') : skipLines (c :: cs) = skipLines cs := by
  have hreturn : c ≠ '\r' := by
    rintro rfl
    exact absurd h (by decide)
  rw [skipLines.eq_def]
  split
  · rename_i heq
    cases heq
    exact absurd rfl hreturn
  · rename_i heq
    cases heq
    rw [if_pos h]
  · rename_i heq
    cases heq

theorem skipTrivia_eq (cs : List Char) : skipTrivia cs =
    match skipLines cs with
    | '#' :: rest => skipTrivia (rest.dropWhile isPrintable)
    | rest => rest := by
  rw [skipTrivia]
  split
  · rename_i hrest
    simp only [hrest]
  · split
    · rename_i hno _ _ heq
      exact (hno _ heq).elim
    · rfl

theorem skipTrivia_of_isSolid (h : IsSolid c) : skipTrivia (c :: cs) = c :: cs := by
  rw [skipTrivia_eq]
  split
  · rename_i hrest
    rw [skipLines_of_isSolid h] at hrest
    cases hrest
    exact absurd rfl h.2.2.2
  · exact skipLines_of_isSolid h

theorem skipTrivia_cons (h : isSpace c || c == '\n') : skipTrivia (c :: cs) = skipTrivia cs := by
  rw [skipTrivia_eq, skipLines_cons h, ← skipTrivia_eq]

theorem skipSpaces_of_isSolid (h : IsSolid c) : skipSpaces (c :: cs) = c :: cs :=
  List.dropWhile_cons_of_neg (by simp [h.1])

/-! ### Arrays -/

theorem items?_nil (hskip : skipTrivia cs = ']' :: rest) : items? item cs = some ([], rest) := by
  rw [items?, hskip]
  rfl

/-- The text starts with something that is not the end of a list. -/
def StartsItem (cs : List Char) : Prop := ∃ c more, cs = c :: more ∧ IsSolid c ∧ c ≠ ']'

theorem StartsItem.append (h : StartsItem cs) (more : List Char) : StartsItem (cs ++ more) := by
  obtain ⟨c, cs, rfl, hc⟩ := h
  exact ⟨c, cs ++ more, rfl, hc⟩

theorem StartsItem.skipTrivia_eq (h : StartsItem cs) : skipTrivia cs = cs := by
  obtain ⟨c, cs, rfl, hsolid, -⟩ := h
  exact skipTrivia_of_isSolid hsolid

/-- An item before the closing bracket. -/
theorem items?_last {a : α} (hstarts : StartsItem cs) (hitem : item cs = some (a, ']' :: rest)) :
    items? item cs = some ([a], rest) := by
  rw [items?, hstarts.skipTrivia_eq]
  obtain ⟨c, cs, rfl, -, hbracket⟩ := hstarts
  split
  · rename_i heq
    cases heq
    exact absurd rfl hbracket
  · rw [hitem]
    simp only [skipTrivia_of_isSolid (show IsSolid ']' by decide)]

/-- An item before a comma. -/
theorem items?_cons {a : α} {cs' : List Char} (hskip : skipTrivia cs = cs') (hstarts : StartsItem cs')
    (hitem : item cs' = some (a, ',' :: rest)) (hlt : rest.length < cs.length) :
    items? item cs = (items? item rest).map fun (as, rest) => (a :: as, rest) := by
  rw [items?, hskip]
  obtain ⟨c, cs', rfl, -, hbracket⟩ := hstarts
  split
  · rename_i heq
    cases heq
    exact absurd rfl hbracket
  · rw [hitem]
    simp only [skipTrivia_of_isSolid (show IsSolid ',' by decide)]
    rw [dif_pos hlt]

/-- Items on lines of their own, each with a comma behind it. -/
def itemLines (items : List (List Char)) : List Char :=
  items.flatMap fun item => "    ".toList ++ item ++ [',', '\n']

theorem items?_itemLines {write : α → List Char} {as : List α}
    (hstarts : ∀ a ∈ as, StartsItem (write a))
    (hitem : ∀ a ∈ as, ∀ rest, item (write a ++ ',' :: rest) = some (a, ',' :: rest)) :
    items? item ('\n' :: (itemLines (as.map write) ++ ']' :: rest)) = some (as, rest) := by
  induction as with
  | nil => exact items?_nil (by rw [skipTrivia_cons rfl]; exact skipTrivia_of_isSolid (by decide))
  | cons a as ih =>
      have hlines : '\n' :: (itemLines ((a :: as).map write) ++ ']' :: rest) =
          '\n' :: ' ' :: ' ' :: ' ' :: ' ' ::
            (write a ++ ',' :: '\n' :: (itemLines (as.map write) ++ ']' :: rest)) := by
        simp [itemLines]
      have ih' := ih (fun b hb => hstarts b (List.mem_cons_of_mem _ hb))
        fun b hb => hitem b (List.mem_cons_of_mem _ hb)
      rw [hlines]
      generalize '\n' :: (itemLines (as.map write) ++ ']' :: rest) = more at ih' ⊢
      have hstarts' := (hstarts a List.mem_cons_self).append (',' :: more)
      have hskip : skipTrivia ('\n' :: ' ' :: ' ' :: ' ' :: ' ' :: (write a ++ ',' :: more)) =
          write a ++ ',' :: more := by
        rw [skipTrivia_cons rfl, skipTrivia_cons rfl, skipTrivia_cons rfl, skipTrivia_cons rfl,
          skipTrivia_cons rfl, hstarts'.skipTrivia_eq]
      rw [items?_cons hskip hstarts' (hitem a List.mem_cons_self _) (by simp; omega), ih']
      rfl

/-- The items of a list are read back if each of them is. -/
theorem items?_renderItems {write : α → List Char} {as : List α}
    (hstarts : ∀ a ∈ as, StartsItem (write a))
    (hcomma : ∀ a ∈ as, ∀ rest, item (write a ++ ',' :: rest) = some (a, ',' :: rest))
    (hbracket : ∀ a ∈ as, ∀ rest, item (write a ++ ']' :: rest) = some (a, ']' :: rest)) :
    ∃ more, renderItems (as.map write) ++ rest = '[' :: more ∧ items? item more = some (as, rest) := by
  cases as with
  | nil => exact ⟨']' :: rest, rfl, items?_nil (skipTrivia_of_isSolid (by decide))⟩
  | cons a as =>
      cases as with
      | nil =>
          refine ⟨write a ++ ']' :: rest, by simp [renderItems], ?_⟩
          exact items?_last ((hstarts a List.mem_cons_self).append _) (hbracket a List.mem_cons_self _)
      | cons b as =>
          refine ⟨'\n' :: (itemLines ((a :: b :: as).map write) ++ ']' :: rest), ?_,
            items?_itemLines hstarts hcomma⟩
          simp [renderItems, itemLines]

/-! ### Values -/

/-- The value holds no tables, and no more arrays one in the other than the given number. -/
inductive Value.Flat : Nat → Value → Prop
  | string (depth : Nat) (text : String) : Flat depth (.string text)
  | integer (depth : Nat) {k : Int} (h : fits k) : Flat depth (.integer k)
  | boolean (depth : Nat) (b : Bool) : Flat depth (.boolean b)
  | array {depth : Nat} {items : List Value} (h : ∀ v ∈ items, Flat depth v) :
      Flat (depth + 1) (.array items)

/-- What may stand behind a value: the end of the line or of the item, or the closing bracket. -/
def EndsValue (rest : List Char) : Prop :=
  ∃ c more, rest = c :: more ∧ (c = '\n' ∨ c = ',' ∨ c = ']')

theorem EndsValue.noQuote (h : EndsValue rest) : NoQuote rest := by
  obtain ⟨c, more, rfl, rfl | rfl | rfl⟩ := h <;> exact ⟨by simp, by simp⟩

theorem EndsValue.not_isScalarChar (h : EndsValue rest) :
    rest.head?.all (!isScalarChar ·) := by
  obtain ⟨c, more, rfl, rfl | rfl | rfl⟩ := h <;> rfl

theorem value?_quoted {quote : Char} (depth : Nat) (h : quote = '"' ∨ quote = '\'') :
    value? depth (quote :: cs) =
      (quoted? (quote :: cs)).map fun (text, rest) => (.string (String.ofList text), rest) := by
  rcases h with rfl | rfl <;> rw [value?.eq_def] <;> rfl

theorem value?_array (depth : Nat) :
    value? (depth + 1) ('[' :: cs) =
      (items? (value? depth) cs).map fun (items, rest) => (.array items, rest) := by
  rw [value?.eq_def]
  rfl

theorem value?_scalar (depth : Nat) (h : isScalarChar c) :
    value? depth (c :: cs) = (scalar? (scalarRun (c :: cs)).1).map (·, (scalarRun (c :: cs)).2) := by
  rw [value?.eq_def]
  dsimp only
  split
  · rename_i heq
    cases heq
    exact absurd h (by decide)
  · rename_i heq
    cases heq
    exact absurd h (by decide)
  · rename_i heq
    cases heq
    exact absurd h (by decide)
  · rename_i heq
    cases heq
    exact absurd h (by decide)
  · rfl

theorem exists_renderString (text : String) :
    ∃ quote more, renderString text = quote :: more ∧ (quote = '"' ∨ quote = '\'') := by
  rw [renderString]
  repeat' split
  all_goals first | exact ⟨'"', _, rfl, Or.inl rfl⟩ | exact ⟨'\'', _, rfl, Or.inr rfl⟩

theorem renderValues_eq_map (vs : List Value) : renderValues vs = vs.map renderValue := by
  induction vs with
  | nil => rw [renderValues, List.map_nil]
  | cons v vs ih => rw [renderValues, ih, List.map_cons]

theorem exists_renderItems (items : List (List Char)) : ∃ more, renderItems items = '[' :: more := by
  unfold renderItems
  split
  · exact ⟨_, rfl⟩
  · exact ⟨_, rfl⟩
  · exact ⟨_, rfl⟩

theorem isSolid_of_isScalarChar (h : isScalarChar c) : IsSolid c ∧ c ≠ ']' := by
  refine ⟨⟨?_, ?_, ?_, ?_⟩, ?_⟩
  · rw [isSpace, Bool.or_eq_false_iff, beq_eq_false_iff_ne, beq_eq_false_iff_ne]
    constructor <;> rintro rfl <;> exact absurd h (by decide)
  all_goals
    rintro rfl
    exact absurd h (by decide)

variable {v : Value} {depth : Nat}

/-- A scalar without quotes is read up to the end of its run of characters. -/
theorem value?_scalar_append (hne : cs ≠ []) (hscalar : ∀ c ∈ cs, isScalarChar c)
    (hdate : afterDate? cs = none) (hvalue : scalar? cs = some v) (hrest : EndsValue rest) :
    value? depth (cs ++ rest) = some (v, rest) := by
  have hrun := scalarRun_append hscalar hrest.not_isScalarChar hdate
  cases cs with
  | nil => exact absurd rfl hne
  | cons c cs =>
      rw [List.cons_append] at hrun ⊢
      rw [value?_scalar depth (hscalar c List.mem_cons_self), hrun, hvalue]
      rfl

theorem Value.Flat.startsItem (h : v.Flat depth) : StartsItem (renderValue v) := by
  cases h with
  | string depth text =>
      obtain ⟨quote, more, heq, rfl | rfl⟩ := exists_renderString text
      · rw [renderValue, heq]
        exact ⟨_, _, rfl, by decide, by decide⟩
      · rw [renderValue, heq]
        exact ⟨_, _, rfl, by decide, by decide⟩
  | @integer depth k h =>
      have hdecimal := isDecimal_toString k
      obtain ⟨c, more, heq⟩ := List.exists_cons_of_ne_nil hdecimal.ne_nil
      rw [renderValue, heq]
      exact ⟨c, more, rfl, isSolid_of_isScalarChar <|
        hdecimal.isScalarChar c (heq ▸ List.mem_cons_self)⟩
  | boolean depth b =>
      rw [renderValue]
      cases b with
      | true => exact ⟨'t', _, rfl, by decide, by decide⟩
      | false => exact ⟨'f', _, rfl, by decide, by decide⟩
  | array h =>
      obtain ⟨more, heq⟩ := exists_renderItems (renderValues _)
      rw [renderValue, heq]
      exact ⟨'[', more, rfl, by decide, by decide⟩

/-- **Values without tables are read back.** -/
theorem value?_renderValue (h : v.Flat depth) (hrest : EndsValue rest) :
    value? depth (renderValue v ++ rest) = some (v, rest) := by
  induction h generalizing rest with
  | string depth text =>
      have hquoted := quoted?_renderString text hrest.noQuote
      obtain ⟨quote, more, heq, hquote⟩ := exists_renderString text
      rw [renderValue, heq, List.cons_append, value?_quoted depth hquote]
      rw [heq, List.cons_append] at hquoted
      simp [hquoted]
  | @integer depth k h =>
      have hdecimal := isDecimal_toString k
      rw [renderValue]
      exact value?_scalar_append hdecimal.ne_nil hdecimal.isScalarChar
        hdecimal.afterDate?_eq_none (scalar?_toString h) hrest
  | boolean depth b =>
      have hscalar : (toString b).toList.all isScalarChar := by cases b <;> decide
      have hdate : afterDate? (toString b).toList = none := by cases b <;> decide
      have hvalue : scalar? (toString b).toList = some (.boolean b) := by cases b <;> rfl
      have hne : (toString b).toList ≠ [] := by cases b <;> decide
      rw [renderValue]
      exact value?_scalar_append hne (List.all_eq_true.mp hscalar) hdate hvalue hrest
  | @array depth items h ih =>
      have hread : ∀ c, c = ',' ∨ c = ']' → ∀ v ∈ items, ∀ rest,
          value? depth (renderValue v ++ c :: rest) = some (v, c :: rest) :=
        fun c hc v hv rest => ih v hv ⟨c, rest, rfl, Or.inr hc⟩
      obtain ⟨more, heq, hitems⟩ := items?_renderItems (fun v hv => (h v hv).startsItem)
        (hread ',' (Or.inl rfl)) (hread ']' (Or.inr rfl))
      rw [renderValue, renderValues_eq_map, heq, value?_array, hitems]
      rfl

end BracketPaint.Toml
