import BracketPaint.Text.Hexadecimal
/-!
# Colours

A colour is opaque, with three channels of a byte each, or transparent. Opaque colours are numbered
by their 24 bits, red being the most significant channel, and that is also their order.
-/

namespace BracketPaint

/-- An opaque colour. -/
structure Rgb where
  /-- The share of red. -/
  red : UInt8
  /-- The share of green. -/
  green : UInt8
  /-- The share of blue. -/
  blue : UInt8
  deriving Repr, DecidableEq

namespace Rgb

/-- The colour of the lowest 24 bits of a number. -/
def ofNat (n : Nat) : Rgb := ⟨(n / 65536).toUInt8, (n / 256).toUInt8, n.toUInt8⟩

/-- The number of a colour. -/
def toNat (c : Rgb) : Nat := c.red.toNat * 65536 + c.green.toNat * 256 + c.blue.toNat

/-- The six hexadecimal digits of a colour. -/
def digits (c : Rgb) : List Char :=
  Text.hexPair c.red ++ Text.hexPair c.green ++ Text.hexPair c.blue

/-- The written form of a colour, `#RRGGBB`. -/
def display (c : Rgb) : String := String.ofList ('#' :: c.digits)

theorem toNat_lt (c : Rgb) : c.toNat < 0x1000000 := by
  have hr := c.red.toNat_lt
  have hg := c.green.toNat_lt
  have hb := c.blue.toNat_lt
  simp only [toNat]
  omega

@[simp] theorem ofNat_toNat (c : Rgb) : ofNat c.toNat = c := by
  have hg := c.green.toNat_lt
  have hb := c.blue.toNat_lt
  have hr := c.red.toNat_lt
  cases c with
  | mk red green blue =>
    simp only [ofNat, toNat, Rgb.mk.injEq, ← UInt8.toNat_inj, Nat.toUInt8_eq, UInt8.toNat_ofNat']
      at hr hg hb ⊢
    omega

theorem toNat_injective {c d : Rgb} (h : c.toNat = d.toNat) : c = d := by
  rw [← ofNat_toNat c, ← ofNat_toNat d, h]

end Rgb

/-- An opaque colour or none. -/
inductive Color where
  /-- What lies below shows. -/
  | transparent
  /-- The colour itself shows. -/
  | solid (c : Rgb)
  deriving Repr, DecidableEq

namespace Color

/-- The opaque colour, if it is one. -/
def solid? : Color → Option Rgb
  | transparent => none
  | solid c => some c

/-- The opaque colour of a number. -/
def ofNat (n : Nat) : Color := solid (Rgb.ofNat n)

/-- The written form of a colour. -/
def display : Color → String
  | transparent => "transparent"
  | solid c => c.display

end Color

/-- The colours of a piece of text. -/
structure ColorPair where
  /-- The colour of the characters. -/
  foreground : Color
  /-- The colour behind them. -/
  background : Color
  deriving Repr, DecidableEq

end BracketPaint
