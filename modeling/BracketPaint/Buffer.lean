import BracketPaint.LexicalRules
import BracketPaint.Position
import BracketPaint.Text.Line
/-!
# Buffers

A **buffer** is a text together with what is known about its comments and strings. All offsets count
characters. A buffer answers the few questions that a highlighting pass asks: how long the text is,
what stands at an offset, how far the line around an offset goes, and what an offset is named.
-/

namespace BracketPaint

/-- A text with its annotations. -/
structure Buffer where
  /-- The characters of the text. -/
  chars : Array Char := #[]
  /-- The comments and strings of the text, as far as they are known. -/
  annotations : AnnotationMap := ∅
  deriving Repr, DecidableEq

namespace Buffer

/-- A buffer without annotations. -/
def ofString (text : String) : Buffer := { chars := text.toList.toArray }

/-- The number of characters. -/
def size (b : Buffer) : Nat := b.chars.size

/-- The text of the buffer. -/
def text (b : Buffer) : String := String.ofList b.chars.toList

/-- The buffer with the comments and strings that the rules find. `none` means that the rules do not
get through the text. -/
def annotate (b : Buffer) (rules : LexicalRules) : Option Buffer := do
  return { b with annotations := ← rules.annotate b.chars.toList }

/-- The name of an offset. -/
def scopeName (b : Buffer) (p : Nat) : String := b.annotations.nameAt p

/-! ### Parts of the text -/

/-- The text from one offset up to another. -/
def slice (b : Buffer) (start stop : Nat) : Except BufferError String :=
  if start ≤ stop ∧ stop ≤ b.size then
    .ok (String.ofList (b.chars.extract start stop).toList)
  else .error (.invalidCharIndex stop)

/-- The characters from an offset on begin with the given ones. -/
def hasFrom (b : Buffer) (p : Nat) : List Char → Bool
  | [] => true
  | c :: cs => b.chars[p]? == some c && b.hasFrom (p + 1) cs

/-- The given text stands at an offset, wholly inside the buffer. -/
def matchesAt (b : Buffer) (p : Nat) (needle : String) : Bool :=
  decide (p + needle.length ≤ b.size) && b.hasFrom p needle.toList

/-! ### Lines -/

/-- The lines of the text, each with its break. -/
def lines (b : Buffer) : List (List Char) := Text.lines b.chars.toList

/-- The sizes of the lines, breaks included. -/
def lineSizes (b : Buffer) : List Nat := b.lines.map List.length

/-- The number of lines. -/
def lineCount (b : Buffer) : Nat := b.lines.length

/-- The offset of a position. The column may be that of the end of the line, break included. -/
def offsetOf (b : Buffer) (p : Position) : Except BufferError Nat :=
  match b.lineSizes[p.line]? with
  | some size =>
    if p.column ≤ size then .ok (Text.startOf b.lineSizes p.line + p.column)
    else .error (.positionOutOfBounds p.line p.column)
  | none => .error (.positionOutOfBounds p.line p.column)

/-- The position of an offset. -/
def positionOf (b : Buffer) (offset : Nat) : Except BufferError Position :=
  if offset ≤ b.size then
    let place := Text.locate b.lineSizes offset
    .ok ⟨place.1, place.2⟩
  else .error (.invalidCharIndex offset)

/-- The region of the line around an offset, without its LF or CR LF. -/
def lineExtent (b : Buffer) (p : Nat) : Region :=
  let sizes := b.lineSizes
  let line := (Text.locate sizes (min p b.size)).1
  let start := Text.startOf sizes line
  { start, stop := start + (Text.withoutNewline ((b.lines[line]?).getD [])).length }

end Buffer
end BracketPaint
