import BracketPaint.Text.Hexadecimal
/-!
# Quoted texts

The texts of a document, in the four ways to quote them: with escapes (`"`) or literally (`'`), each
on one line or, with the quote written three times, over several. The readers take what follows the
opening quotes and give the text together with what follows the closing ones.

In a text over several lines a break is read as a line feed, one right after the opening quotes is
left out, and a backslash at the end of a line takes all white space up to the next character away.
One or two quotes may stand anywhere, even before the closing ones.
-/

namespace BracketPaint.Toml

/-- The character may stand in a comment or, as itself, in a text. -/
def isPrintable (c : Char) : Bool := c == '\t' || (0x20 ≤ c.toNat && c.toNat != 0x7F)

/-- The character is a blank or a tabulator. -/
def isSpace (c : Char) : Bool := c == ' ' || c == '\t'

/-- What follows a line break, which is LF or CR LF. -/
def afterNewline? : List Char → Option (List Char)
  | '\n' :: cs => some cs
  | '\r' :: '\n' :: cs => some cs
  | _ => none

/-- The text without the white space and the line breaks before it. -/
def skipLines : List Char → List Char
  | '\r' :: '\n' :: cs => skipLines cs
  | c :: cs => if isSpace c || c == '\n' then skipLines cs else c :: cs
  | [] => []

theorem length_skipLines_le (cs : List Char) : (skipLines cs).length ≤ cs.length := by
  fun_induction skipLines cs <;> simp_all <;> omega

theorem length_lt_of_afterNewline? {cs rest : List Char} (h : afterNewline? cs = some rest) :
    rest.length < cs.length := by
  unfold afterNewline? at h
  split at h
  · cases h; simp
  · cases h; simp only [List.length_cons]; omega
  · cases h

/-- The character with the given number in so many hexadecimal digits, unless it is a surrogate or
too large. -/
def numbered? (width : Nat) (cs : List Char) : Option Char := do
  let digits := cs.take width
  let n ← Text.hexNumber? digits
  if digits.length = width ∧ n.isValidChar then some (Char.ofNat n) else none

/-- The character that an escape denotes, and the number of characters behind the backslash. -/
def escape? : List Char → Option (Char × Nat)
  | 'b' :: _ => some ('\x08', 1)
  | 't' :: _ => some ('\t', 1)
  | 'n' :: _ => some ('\n', 1)
  | 'f' :: _ => some ('\x0c', 1)
  | 'r' :: _ => some ('\r', 1)
  | '"' :: _ => some ('"', 1)
  | '\\' :: _ => some ('\\', 1)
  | 'u' :: cs => (numbered? 4 cs).map (·, 5)
  | 'U' :: cs => (numbered? 8 cs).map (·, 9)
  | _ => none

/-- Reads a text with escapes on one line. -/
def basic? : List Char → Option (List Char × List Char)
  | [] => none
  | c :: cs =>
    if c = '"' then some ([], cs)
    else if c = '\\' then
      match escape? cs with
      | some (d, n) => (basic? (cs.drop n)).map fun (text, rest) => (d :: text, rest)
      | none => none
    else if isPrintable c then (basic? cs).map fun (text, rest) => (c :: text, rest)
    else none
termination_by cs => cs.length
decreasing_by all_goals simp only [List.length_drop, List.length_cons]; omega

/-- Reads a literal text on one line. -/
def literal? : List Char → Option (List Char × List Char)
  | [] => none
  | c :: cs =>
    if c = '\'' then some ([], cs)
    else if isPrintable c then (literal? cs).map fun (text, rest) => (c :: text, rest)
    else none

/-- Of a run of quotes: how many belong to the text, and whether the text ends with the run. Three
quotes end it, and up to two before them belong to it. -/
def quotesInText (run : Nat) : Nat × Bool :=
  if run < 3 then (run, false) else (min (run - 3) 2, true)

/-- Reads a text over several lines. `quote` is its quote; it has escapes if `escapes` is set. -/
def multiline? (quote : Char) (escapes : Bool) : List Char → Option (List Char × List Char)
  | [] => none
  | c :: cs =>
    if c = quote then
      let (inText, ends) := quotesInText ((cs.takeWhile (· = quote)).length + 1)
      let text := List.replicate inText quote
      if ends then some (text, cs.drop (inText + 2))
      else (multiline? quote escapes (cs.drop (inText - 1))).map fun (more, rest) =>
        (text ++ more, rest)
    else if escapes ∧ c = '\\' then
      match _hline : afterNewline? (cs.dropWhile isSpace) with
      | some rest => multiline? quote escapes (skipLines rest)
      | none =>
        match escape? cs with
        | some (d, n) =>
          (multiline? quote escapes (cs.drop n)).map fun (text, rest) => (d :: text, rest)
        | none => none
    else
      match _hline : afterNewline? (c :: cs) with
      | some more => (multiline? quote escapes more).map fun (text, rest) => ('\n' :: text, rest)
      | none =>
        if isPrintable c then
          (multiline? quote escapes cs).map fun (text, rest) => (c :: text, rest)
        else none
termination_by cs => cs.length
decreasing_by
  · simp only [List.length_drop, List.length_cons]; omega
  · have h₁ := length_lt_of_afterNewline? _hline
    have h₂ := length_skipLines_le rest
    have h₃ := (List.dropWhile_sublist isSpace (l := cs)).length_le
    simp only [List.length_cons]
    omega
  · simp only [List.length_drop, List.length_cons]; omega
  · exact length_lt_of_afterNewline? _hline
  · simp

/-- The text without a line break right at its start. -/
def withoutFirstNewline (cs : List Char) : List Char := (afterNewline? cs).getD cs

/-- Reads a quoted text of any kind, from its opening quote on. -/
def quoted? : List Char → Option (List Char × List Char)
  | '"' :: '"' :: '"' :: cs => multiline? '"' true (withoutFirstNewline cs)
  | '"' :: cs => basic? cs
  | '\'' :: '\'' :: '\'' :: cs => multiline? '\'' false (withoutFirstNewline cs)
  | '\'' :: cs => literal? cs
  | _ => none

end BracketPaint.Toml
