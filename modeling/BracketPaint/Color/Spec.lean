import BracketPaint.Color.Keyword
import BracketPaint.Fault
import BracketPaint.Text.Blank
/-!
# Written colours

A colour is written as a number of 24 bits or as a text. A text is taken without white space at its
ends and in lower case. It may be `transparent` or `none`; three or six hexadecimal digits, with or
without a number sign before them; or a keyword.

The hexadecimal form is recognized by its size in bytes, three or six, and is cut into three fields
of equal size before any digit is looked at. A field of two bytes may be a plus sign and one digit.
A cut that falls inside a character is a fault (`Fault.splitCharacter`); it is not reached if a
field before it is no number.
-/

namespace BracketPaint

/-- What can be wrong with a written colour. -/
inductive ColorError where
  /-- The text cannot be cut into fields. -/
  | fault (f : Fault)
  /-- The text is no colour. -/
  | invalid (written : String)
  /-- The number has more than 24 bits or is negative. -/
  | outOfRange (value : Int)
  deriving Repr, DecidableEq

/-- The wording of an error. -/
def ColorError.message : ColorError → String
  | fault f => f.message
  | invalid written => s!"'{written}' is not a valid color"
  | outOfRange value => s!"{value} is not in the 24-bit color range"

/-- The fault behind an error, if there is one. -/
def ColorError.fault? : ColorError → Option Fault
  | fault f => some f
  | _ => none

/-- A colour as it is written down. -/
inductive ColorSpec where
  /-- The number of a colour. -/
  | integer (value : Int)
  /-- The text of a colour. -/
  | text (written : String)
  deriving Repr, DecidableEq

namespace Color

/-- The number of bytes that a text takes. -/
def byteSize : List Char → Nat
  | [] => 0
  | c :: cs => c.utf8Size + byteSize cs

/-- Cuts a text after so many bytes, unless that is inside a character. -/
def cutBytes? : Nat → List Char → Option (List Char × List Char)
  | 0, cs => some ([], cs)
  | _ + 1, [] => none
  | n + 1, c :: cs =>
    if c.utf8Size ≤ n + 1 then
      (cutBytes? (n + 1 - c.utf8Size) cs).map fun (field, rest) => (c :: field, rest)
    else none

/-- The value of a field: hexadecimal digits, with a plus sign before them or not. -/
def fieldValue? : List Char → Option Nat
  | [] => none
  | ['+'] => none
  | '+' :: digits => Text.hexNumber? digits
  | digits => Text.hexNumber? digits

/-- Reads fields of the given size in bytes, from left to right, up to the first that is no number:
`.ok none` says that there was one. -/
def readFields (width : Nat) : (count : Nat) → List Char → Except Fault (Option (List Nat))
  | 0, _ => .ok (some [])
  | count + 1, cs =>
    match cutBytes? width cs with
    | none => .error .splitCharacter
    | some (field, rest) =>
      match fieldValue? field with
      | none => .ok none
      | some value => (readFields width count rest).map fun values? => values?.map (value :: ·)

/-- The colour of three channels; the factor widens a single digit to a byte. -/
def ofChannels? (factor : Nat) : List Nat → Option Rgb
  | [r, g, b] => some ⟨(factor * r).toUInt8, (factor * g).toUInt8, (factor * b).toUInt8⟩
  | _ => none

/-- The digits of a hexadecimal colour, without the number sign before them. -/
def hexPart : List Char → List Char
  | '#' :: cs => cs
  | cs => cs

/-- Reads a hexadecimal colour: three fields of one byte, or three of two bytes. -/
def ofHex (cs : List Char) : Except Fault (Option Rgb) :=
  match byteSize (hexPart cs) with
  | 3 => (readFields 1 3 (hexPart cs)).map (·.bind (ofChannels? 17))
  | 6 => (readFields 2 3 (hexPart cs)).map (·.bind (ofChannels? 1))
  | _ => .ok none

/-- Reads a colour that is written as a text. -/
def ofText (written : String) : Except ColorError Color :=
  let lowered := (Text.trim written.toList).map Char.toLower
  if lowered = "transparent".toList ∨ lowered = "none".toList then .ok .transparent
  else
    match ofHex lowered with
    | .error f => .error (.fault f)
    | .ok (some c) => .ok (.solid c)
    | .ok none =>
      match ofKeyword? (String.ofList lowered) with
      | some c => .ok (.solid c)
      | none => .error (.invalid written)

end Color

/-- Reads a written colour. -/
def ColorSpec.parse : ColorSpec → Except ColorError Color
  | .integer value =>
    if 0 ≤ value ∧ value < 0x1000000 then .ok (.ofNat value.toNat) else .error (.outOfRange value)
  | .text written => Color.ofText written

end BracketPaint
