/-!
# Hexadecimal digits

Digits to the base sixteen: `hexDigit` writes one, in upper case, `hexValue?` reads one in either
case. `hexPair` writes a byte as two digits and `hexPad` a number with leading zeros.
-/

namespace BracketPaint.Text

/-- The digit of a number below sixteen, in upper case. -/
def hexDigit (n : Nat) : Char :=
  if n < 10 then Char.ofNat (48 + n) else Char.ofNat (55 + n)

/-- The value of a hexadecimal digit in either case. -/
def hexValue? (c : Char) : Option Nat :=
  let n := c.toNat
  if 48 ≤ n ∧ n ≤ 57 then some (n - 48)
  else if 65 ≤ n ∧ n ≤ 70 then some (n - 55)
  else if 97 ≤ n ∧ n ≤ 102 then some (n - 87)
  else none

/-- The number that a list of hexadecimal digits denotes; `none` if one of them is no digit. -/
def hexNumber? (cs : List Char) : Option Nat :=
  cs.foldl (fun value? c => do return 16 * (← value?) + (← hexValue? c)) (some 0)

/-- A byte as two hexadecimal digits, the high half first. -/
def hexPair (b : UInt8) : List Char := [hexDigit (b.toNat / 16), hexDigit (b.toNat % 16)]

/-- The digits of a number without leading zeros, in lower case. -/
def hexLower (n : Nat) : List Char := Nat.toDigits 16 n

/-- The last `width` hexadecimal digits of a number, in upper case. -/
def hexPad : (width : Nat) → Nat → List Char
  | 0, _ => []
  | width + 1, n => hexPad width (n / 16) ++ [hexDigit (n % 16)]

theorem hexValue?_hexDigit {n : Nat} (h : n < 16) : hexValue? (hexDigit n) = some n := by
  have key : ∀ m : Fin 16, hexValue? (hexDigit m) = some m.val := by decide
  exact key ⟨n, h⟩

theorem hexValue?_lt {c : Char} {n : Nat} (h : hexValue? c = some n) : n < 16 := by
  unfold hexValue? at h
  grind

end BracketPaint.Text
