import BracketPaint.Text.Blank
import BracketPaint.Text.Numeral
/-!
# Positions and cursors

A **position** is a line and a column, both counted from zero. It is written as `LINE:COLUMN`,
counted from one. A cursor is written either that way or as a plain character offset; the colon
tells the two apart. White space around each number is of no account.
-/

namespace BracketPaint

/-- What can be asked of a text in vain. -/
inductive BufferError where
  /-- The text has no such line, or the line no such column. -/
  | positionOutOfBounds (line column : Nat)
  /-- The text has no such offset. -/
  | invalidCharIndex (index : Nat)
  /-- The text is no written position. -/
  | invalidPosition (written : String)
  deriving Repr, DecidableEq

/-- The wording of an error. -/
def BufferError.message : BufferError → String
  | positionOutOfBounds line column => s!"Position {line}:{column} is out of bounds"
  | invalidCharIndex index => s!"Invalid character index: {index}"
  | invalidPosition written => s!"Invalid position '{written}', expected LINE:COL"

/-- A line and a column, both counted from zero. -/
structure Position where
  /-- The number of lines before. -/
  line : Nat
  /-- The number of characters before, on the line. -/
  column : Nat
  deriving Repr, DecidableEq

namespace Position

/-- Positions are ordered by line, then by column. -/
instance : LE Position where
  le a b := a.line < b.line ∨ a.line = b.line ∧ a.column ≤ b.column

instance {a b : Position} : Decidable (a ≤ b) :=
  inferInstanceAs (Decidable (a.line < b.line ∨ a.line = b.line ∧ a.column ≤ b.column))

instance : Ord Position where
  compare a b := if a = b then .eq else if a ≤ b then .lt else .gt

/-- The written form of a position, counted from one. -/
def display (p : Position) : String := s!"{p.line + 1}:{p.column + 1}"

/-- A count from zero, read from its written form, which counts from one. -/
def ordinal? (cs : List Char) : Option Nat := do
  match ← Text.numeral? Text.wordLimit (Text.trim cs) with
  | 0 => none
  | n + 1 => some n

/-- Reads a written position: a line, the first colon, and a column. -/
def parse? (cs : List Char) : Option Position := do
  match cs.dropWhile (· ≠ ':') with
  | [] => none
  | _ :: column =>
    return ⟨← ordinal? (cs.takeWhile (· ≠ ':')), ← ordinal? column⟩

/-- Reads a written position, and keeps the text for the error message. -/
def parse (written : String) : Except BufferError Position :=
  match parse? written.toList with
  | some p => .ok p
  | none => .error (.invalidPosition written)

end Position

/-- A cursor as it is written down. -/
inductive CursorSpec where
  /-- A number of characters before the cursor. -/
  | offset (n : Nat)
  /-- A line and a column. -/
  | position (p : Position)
  deriving Repr, DecidableEq

/-- Reads a written cursor: a position if there is a colon, else an offset. -/
def CursorSpec.parse (written : String) : Except BufferError CursorSpec :=
  if ':' ∈ written.toList then
    (Position.parse written).map .position
  else
    match Text.numeral? Text.wordLimit (Text.trim written.toList) with
    | some n => .ok (.offset n)
    | none => .error (.invalidPosition written)

end BracketPaint
