/-!
# Lines of a text

A text is cut into **lines**, each with the break that ends it; the last line has none and may be
empty. A break is one of LF, VT, FF, CR, NEL, LS and PS, or the pair CR LF, which counts once.
Lines put together give the text back (`flatten_lines`), so an offset is a line and a column in it.

All questions about lines are answered from the list of their sizes, breaks included: where a line
starts (`startOf`) and which line and column an offset falls on (`locate`).
-/

namespace BracketPaint.Text

/-- The character ends a line by itself. -/
def isBreak (c : Char) : Bool :=
  let n := c.toNat
  (0x0A ≤ n && n ≤ 0x0D) || n == 0x85 || n == 0x2028 || n == 0x2029

/-- Puts a character in front of the first line. -/
def consFirst (c : Char) : List (List Char) → List (List Char)
  | [] => [[c]]
  | line :: rest => (c :: line) :: rest

/-- The lines of a text, each with its break; there is always a last line. -/
def lines : List Char → List (List Char)
  | [] => [[]]
  | '\r' :: '\n' :: cs => ['\r', '\n'] :: lines cs
  | c :: cs => if isBreak c then [c] :: lines cs else consFirst c (lines cs)

@[simp] theorem flatten_consFirst (c : Char) (ls : List (List Char)) :
    (consFirst c ls).flatten = c :: ls.flatten := by
  cases ls <;> simp [consFirst]

/-- The lines put together give the text back. -/
@[simp] theorem flatten_lines (cs : List Char) : (lines cs).flatten = cs := by
  fun_induction lines cs <;> simp_all

theorem lines_ne_nil (cs : List Char) : lines cs ≠ [] := by
  fun_induction lines cs with
  | case4 c cs _ _ ih => cases h : lines cs <;> simp [consFirst]
  | _ => simp

/-- Where a line starts: the sum of the sizes before it. -/
def startOf : (sizes : List Nat) → (line : Nat) → Nat
  | size :: sizes, line + 1 => size + startOf sizes line
  | _, _ => 0

/-- The line and the column of an offset. An offset at or past the end belongs to the last line. -/
def locate : (sizes : List Nat) → (offset : Nat) → Nat × Nat
  | size :: next :: sizes, offset =>
    if offset < size then (0, offset)
    else
      let place := locate (next :: sizes) (offset - size)
      (place.1 + 1, place.2)
  | _, offset => (0, offset)

/-- The column counts from the start of the line. -/
theorem startOf_locate (sizes : List Nat) (offset : Nat) :
    startOf sizes (locate sizes offset).1 + (locate sizes offset).2 = offset := by
  fun_induction locate sizes offset with
  | case1 => simp [startOf]
  | case2 size next sizes offset h place ih =>
    have hstart : startOf (size :: next :: sizes) (place.1 + 1) =
        size + startOf (next :: sizes) place.1 := rfl
    rw [show locate (next :: sizes) (offset - size) = place from rfl] at ih
    change startOf _ (place.1 + 1) + place.2 = offset
    omega
  | case3 => simp [startOf]

/-- A text without a given character at its end. -/
def withoutLast (c : Char) (cs : List Char) : List Char :=
  if cs.getLast? = some c then cs.dropLast else cs

/-- A line without the break LF or CR LF at its end; other breaks stay. -/
def withoutNewline (line : List Char) : List Char :=
  if line.getLast? = some '\n' then withoutLast '\r' line.dropLast else line

theorem length_withoutLast_le (c : Char) (cs : List Char) :
    (withoutLast c cs).length ≤ cs.length := by
  unfold withoutLast
  split <;> simp

theorem length_withoutNewline_le (line : List Char) :
    (withoutNewline line).length ≤ line.length := by
  unfold withoutNewline
  split
  · have := length_withoutLast_le '\r' line.dropLast
    simp only [List.length_dropLast] at this
    omega
  · exact Nat.le_refl _

end BracketPaint.Text
