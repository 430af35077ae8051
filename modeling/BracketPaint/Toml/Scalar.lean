import BracketPaint.Text.Hexadecimal
import BracketPaint.Toml.Value
/-!
# Numbers, dates and times

The scalars of a document that are written without quotes: truth values, integers, floats, dates and
times. Each is one unbroken run of characters, but that a blank may stand between a date and a time.

Underscores may stand between the digits of a number. An integer has 64 bits. A float whose value
lies above all finite ones is refused; below, there is no such limit.
-/

namespace BracketPaint.Toml

/-! ### Digits -/

/-- What may follow the first digit of a number: digits, and underscores with a digit behind. -/
def isGroupedRest (p : Char → Bool) : List Char → Bool
  | [] => true
  | '_' :: c :: cs => p c && isGroupedRest p cs
  | c :: cs => p c && isGroupedRest p cs

/-- Digits, with underscores between them. -/
def isGrouped (p : Char → Bool) : List Char → Bool
  | [] => false
  | c :: cs => p c && isGroupedRest p cs

/-- The digits of a number without the underscores. -/
def ungroup (cs : List Char) : List Char := cs.filter (· ≠ '_')

/-- The number of grouped digits to a base. -/
def groupedNumber? (base : Nat) (cs : List Char) : Option Nat :=
  if isGrouped (fun c => (Text.hexValue? c).any (· < base)) cs then
    some ((ungroup cs).foldl (fun n c => base * n + (Text.hexValue? c).getD 0) 0)
  else none

/-- The text without a sign before it; the flag tells whether that was a minus. -/
def splitSign : List Char → Bool × List Char
  | '-' :: cs => (true, cs)
  | '+' :: cs => (false, cs)
  | cs => (false, cs)

/-- The number of decimal digits that have no superfluous zero before them. -/
def decimal? (cs : List Char) : Option Nat :=
  if cs.head? = some '0' ∧ cs ≠ ['0'] then none else groupedNumber? 10 cs

/-! ### Integers -/

/-- The number has 64 bits. -/
def fits (n : Int) : Bool := -0x8000000000000000 ≤ n && n < 0x8000000000000000

/-- An integer, to the base ten with a sign, or to another base without one. -/
def integer? (cs : List Char) : Option Int :=
  let n? : Option Int :=
    match cs with
    | '0' :: 'x' :: digits => (groupedNumber? 16 digits).map Int.ofNat
    | '0' :: 'o' :: digits => (groupedNumber? 8 digits).map Int.ofNat
    | '0' :: 'b' :: digits => (groupedNumber? 2 digits).map Int.ofNat
    | _ =>
      let (negative, digits) := splitSign cs
      (decimal? digits).map fun n => if negative then -(n : Int) else n
  n?.filter fits

/-! ### Floats -/

/-- The least real number that rounds to no finite float of 64 bits. -/
def floatBound : Nat := Nat.pow 2 1024 - Nat.pow 2 970

/-- `m · 10 ^ e` lies below the bound. The number of digits decides first, so that no large power is
computed needlessly. -/
def isBelowBound (m : Nat) (e : Int) : Bool :=
  let size : Int := (Nat.toDigits 10 m).length + e
  if m = 0 ∨ size < 300 then true
  else if 320 < size then false
  else if 0 ≤ e then m * Nat.pow 10 e.toNat < floatBound
  else m < floatBound * Nat.pow 10 (-e).toNat

/-- The exponent of a float, from the letter on; nothing stands for zero. -/
def exponent? : List Char → Option Int
  | [] => some 0
  | _ :: cs =>
    let (negative, digits) := splitSign cs
    (groupedNumber? 10 digits).map fun n => if negative then -(n : Int) else n

/-- The character starts the exponent of a float. -/
def isExponentMark (c : Char) : Bool := c == 'e' || c == 'E'

/-- A decimal number with a fraction or an exponent or both, of finite value if it is positive. -/
def isDecimalFloat (cs : List Char) : Bool :=
  let (negative, digits) := splitSign cs
  let mantissa := digits.takeWhile (!isExponentMark ·)
  let exponentPart := digits.dropWhile (!isExponentMark ·)
  let whole := mantissa.takeWhile (· ≠ '.')
  let fraction := (mantissa.dropWhile (· ≠ '.')).drop 1
  let isWhole := mantissa.length == whole.length
  match decimal? whole, exponent? exponentPart with
  | some _, some e =>
    (if isWhole then !exponentPart.isEmpty else isGrouped Char.isDigit fraction) &&
      (negative ||
        isBelowBound (Nat.ofDigitChars 10 (ungroup (whole ++ fraction)) 0)
          (e - (ungroup fraction).length))
  | _, _ => false

/-- A float: a decimal one, or one of the two that have a name. -/
def isFloat (cs : List Char) : Bool :=
  (splitSign cs).2 == "inf".toList || (splitSign cs).2 == "nan".toList || isDecimalFloat cs

/-! ### Dates and times -/

/-- Two digits whose number lies in a range, and what follows them. -/
def twoDigits? (least greatest : Nat) : List Char → Option (Nat × List Char)
  | a :: b :: cs =>
    let n := Nat.ofDigitChars 10 [a, b] 0
    if a.isDigit ∧ b.isDigit ∧ least ≤ n ∧ n ≤ greatest then some (n, cs) else none
  | _ => none

/-- The text after a given character. -/
def after? (c : Char) : List Char → Option (List Char)
  | d :: cs => if c = d then some cs else none
  | [] => none

/-- The number of days of a month. -/
def daysIn (year month : Nat) : Nat :=
  if month = 2 then
    if year % 4 = 0 ∧ (year % 100 ≠ 0 ∨ year % 400 = 0) then 29 else 28
  else if month ∈ [4, 6, 9, 11] then 30
  else 31

/-- What follows a date. -/
def afterDate? (cs : List Char) : Option (List Char) := do
  let (century, cs) ← twoDigits? 0 99 cs
  let (year, cs) ← twoDigits? 0 99 cs
  let (month, cs) ← twoDigits? 1 12 (← after? '-' cs)
  let (_, cs) ← twoDigits? 1 (daysIn (100 * century + year) month) (← after? '-' cs)
  return cs

/-- What follows the fraction of a second, if there is one. -/
def afterFraction? : List Char → Option (List Char)
  | '.' :: cs =>
    if (cs.takeWhile Char.isDigit).isEmpty then none else some (cs.dropWhile Char.isDigit)
  | cs => some cs

/-- What follows a time. The last minute of a day may have a leap second. -/
def afterTime? (cs : List Char) : Option (List Char) := do
  let (_, cs) ← twoDigits? 0 23 cs
  let (_, cs) ← twoDigits? 0 59 (← after? ':' cs)
  let (_, cs) ← twoDigits? 0 60 (← after? ':' cs)
  afterFraction? cs

/-- The text is nothing or the distance of a time from that of Greenwich. -/
def isOffset : List Char → Bool
  | [] => true
  | ['Z'] | ['z'] => true
  | c :: cs =>
    (c == '+' || c == '-') &&
      (do
        let (_, cs) ← twoDigits? 0 23 cs
        let (_, cs) ← twoDigits? 0 59 (← after? ':' cs)
        return cs.isEmpty) == some true

/-- A date, a time, or both with an offset or without. -/
def isDateTime (cs : List Char) : Bool :=
  (match afterDate? cs with
    | some [] => true
    | some (c :: rest) => (c == 'T' || c == 't' || c == ' ') && (afterTime? rest).any isOffset
    | none => false) ||
  (afterTime? cs).any List.isEmpty

/-! ### All scalars -/

/-- The value of a scalar that is written without quotes. -/
def scalar? (cs : List Char) : Option Value :=
  if cs = "true".toList then some (.boolean true)
  else if cs = "false".toList then some (.boolean false)
  else if isDateTime cs then some (.dateTime (String.ofList cs))
  else if isFloat cs then some (.float (String.ofList cs))
  else (integer? cs).map .integer

/-- The character may stand in a scalar that is written without quotes. -/
def isScalarChar (c : Char) : Bool :=
  c.isAlphanum || c == '+' || c == '-' || c == '_' || c == '.' || c == ':'

/-- The characters of an unquoted scalar and what follows it. A date takes a time with it that
stands behind one blank. -/
def scalarRun (cs : List Char) : List Char × List Char :=
  let run := cs.takeWhile isScalarChar
  match afterDate? run, cs.dropWhile isScalarChar with
  | some [], ' ' :: c :: rest =>
    if c.isDigit then
      (run ++ ' ' :: (c :: rest).takeWhile isScalarChar, (c :: rest).dropWhile isScalarChar)
    else (run, ' ' :: c :: rest)
  | _, rest => (run, rest)

end BracketPaint.Toml
