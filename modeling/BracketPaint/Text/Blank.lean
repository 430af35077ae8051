/-!
# White space

The characters that count as white space at the ends of a text: those that Unicode lists under the
property `White_Space`. `trim` takes them off both ends and leaves the inner ones alone. So a text
is what is left of it with white space around (`padded_trim`). A text that holds no white space is
what is left if it is put into white space (`Padded.trim_eq`).
-/

namespace BracketPaint.Text

/-- The character has the Unicode property `White_Space`. -/
def isBlank (c : Char) : Bool :=
  let n := c.toNat
  (0x09 ≤ n && n ≤ 0x0D) || n == 0x20 || n == 0x85 || n == 0xA0 || n == 0x1680 ||
    (0x2000 ≤ n && n ≤ 0x200A) || n == 0x2028 || n == 0x2029 || n == 0x202F || n == 0x205F ||
    n == 0x3000

/-- The text without the white space at its end. -/
def trimEnd (cs : List Char) : List Char := (cs.reverse.dropWhile isBlank).reverse

/-- The text without the white space at its two ends. -/
def trim (cs : List Char) : List Char := trimEnd (cs.dropWhile isBlank)

/-- The text is the given one with white space around it. -/
def Padded (body cs : List Char) : Prop :=
  ∃ before after, cs = before ++ body ++ after ∧
    (∀ c ∈ before, isBlank c) ∧ ∀ c ∈ after, isBlank c

variable {before after body cs : List Char}

@[simp] theorem trim_nil : trim [] = [] := rfl

/-- White space before a text is taken off. -/
theorem trim_append_left (hbefore : ∀ c ∈ before, isBlank c) (cs : List Char) :
    trim (before ++ cs) = trim cs := by
  rw [trim, List.dropWhile_append_of_pos hbefore, trim]

theorem trimEnd_append (hafter : ∀ c ∈ after, isBlank c) (cs : List Char) :
    trimEnd (cs ++ after) = trimEnd cs := by
  rw [trimEnd, List.reverse_append, List.dropWhile_append_of_pos (by simpa using hafter), trimEnd]

/-- White space behind a text is taken off. -/
theorem trim_append_right (hafter : ∀ c ∈ after, isBlank c) (cs : List Char) :
    trim (cs ++ after) = trim cs := by
  rw [trim, List.dropWhile_append, trim]
  split
  · rename_i hblank
    have hrest : after.dropWhile isBlank = [] := by
      rw [← List.append_nil after, List.dropWhile_append_of_pos hafter, List.dropWhile_nil]
    rw [hrest, List.isEmpty_iff.mp hblank]
  · exact trimEnd_append hafter _

/-- A text is what is left of it, with white space around. -/
theorem padded_trim (cs : List Char) : Padded (trim cs) cs := by
  refine ⟨cs.takeWhile isBlank, ((cs.dropWhile isBlank).reverse.takeWhile isBlank).reverse, ?_,
    List.all_eq_true.mp List.all_takeWhile, fun c hc => ?_⟩
  · rw [trim, trimEnd, List.append_assoc, ← List.reverse_append, List.takeWhile_append_dropWhile,
      List.reverse_reverse, List.takeWhile_append_dropWhile]
  · exact List.all_eq_true.mp List.all_takeWhile c (List.mem_reverse.mp hc)

/-- A text that neither begins nor ends with white space is trimmed already. -/
theorem trim_eq_self {cs : List Char} (hhead : ∀ c, cs.head? = some c → isBlank c = false)
    (hlast : ∀ c, cs.getLast? = some c → isBlank c = false) : trim cs = cs := by
  have key : ∀ {l : List Char}, (∀ c, l.head? = some c → isBlank c = false) →
      l.dropWhile isBlank = l := by
    intro l hl
    cases l with
    | nil => rfl
    | cons c cs => simp [List.dropWhile, hl c rfl]
  rw [trim, key hhead, trimEnd, key (by simpa using hlast), List.reverse_reverse]

/-- Nothing else than the white space around a text is taken off, if it holds none itself. -/
theorem Padded.trim_eq (h : Padded body cs) (hbody : ∀ c ∈ body, isBlank c = false) :
    trim cs = body := by
  obtain ⟨before, after, rfl, hbefore, hafter⟩ := h
  rw [List.append_assoc, trim_append_left hbefore, trim_append_right hafter]
  exact trim_eq_self (fun c hc => hbody c (List.mem_of_head? hc))
    fun c hc => hbody c (List.mem_of_getLast? hc)

end BracketPaint.Text
