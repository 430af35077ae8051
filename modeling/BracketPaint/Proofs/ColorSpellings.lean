import BracketPaint.Proofs.ColorTexts
import BracketPaint.Settings.Resolution
/-!
# Spellings of a colour

An opaque colour may be written as its number, or as six digits with or without a number sign before
them, in capital or small letters, with white space around (`Rgb.SpelledBy`). All of these are read
as that colour (`Rgb.parse_spellings`), so that the written form of a colour reads back. The other
way round, each number of 24 bits is that of the colour it is read as, and no other number is read.

A text is told digit by digit. The two digits of a channel keep their values when they are made
small, so the channel is read back from them; and digits are neither white space nor number signs,
so that nothing else is taken off a text than what was put around them.
-/

namespace BracketPaint

/-! ### Digits in small letters -/

namespace Text

variable {c : Char} {cs : List Char}

theorem hexValue?_toLower_hexDigit {n : Nat} (h : n < 16) :
    hexValue? (hexDigit n).toLower = some n := by
  have key : ∀ m : Fin 16, hexValue? (hexDigit m).toLower = some m.val := by decide
  exact key ⟨n, h⟩

/-- The digits of a byte are read as that byte, in small letters too. -/
theorem hexNumber?_toLower_hexPair (b : UInt8) :
    hexNumber? ((hexPair b).map Char.toLower) = some b.toNat := by
  have hhigh := hexValue?_toLower_hexDigit (show b.toNat / 16 < 16 by have := b.toNat_lt; omega)
  have hlow := hexValue?_toLower_hexDigit (show b.toNat % 16 < 16 by omega)
  simp only [hexPair, List.map_cons, List.map_nil, hexNumber?, List.foldl_cons, List.foldl_nil,
    hhigh, hlow, Option.bind_eq_bind, Option.bind_some, Option.pure_def, Option.some.injEq]
  omega

theorem IsHexDigit.isBlank_eq_false (h : IsHexDigit c) : isBlank c = false := by
  have := isHexDigit_iff_toNat.mp h
  simp only [isBlank, Bool.or_eq_false_iff, Bool.and_eq_false_iff, decide_eq_false_iff_not,
    beq_eq_false_iff_ne]
  omega

/-- White space has no capital letters. -/
theorem toLower_of_isBlank (h : isBlank c) : c.toLower = c := by
  have hcapital : ¬ (c.val ≥ 'A'.val ∧ c.val ≤ 'Z'.val) := by
    rw [ge_iff_le, UInt32.le_iff_toNat_le, UInt32.le_iff_toNat_le]
    change ¬ (65 ≤ c.toNat ∧ c.toNat ≤ 90)
    simp only [isBlank, Bool.or_eq_true, Bool.and_eq_true, decide_eq_true_eq, beq_iff_eq] at h
    omega
  exact dif_neg hcapital

end Text

namespace Color

open Text

variable {cs : List Char}

theorem hexPart_of_isHexDigit (h : ∀ c ∈ cs, IsHexDigit c) : hexPart cs = cs := by
  unfold hexPart
  split
  · exact absurd (h '#' List.mem_cons_self) (by decide)
  · rfl

theorem fieldValue?_of_isHexDigit (hne : cs ≠ []) (h : ∀ c ∈ cs, IsHexDigit c) :
    fieldValue? cs = hexNumber? cs := by
  unfold fieldValue?
  split
  · exact absurd rfl hne
  · exact absurd (h '+' List.mem_cons_self) (by decide)
  · exact absurd (h '+' List.mem_cons_self) (by decide)
  · rfl

/-- A channel in front of a text is read first. -/
theorem readFields_hexPair (b : UInt8) (count : Nat) (rest : List Char) :
    readFields 2 (count + 1) ((hexPair b).map Char.toLower ++ rest) =
      (readFields 2 count rest).map fun values? => values?.map (b.toNat :: ·) := by
  have hvalue := hexNumber?_toLower_hexPair b
  have hdigits := isSome_hexNumber?_iff.mp (Option.isSome_of_eq_some hvalue)
  have hsize := byteSize_of_isHexDigit hdigits
  have hfield := fieldValue?_of_isHexDigit (List.cons_ne_nil _ _) hdigits
  exact readFields_append_of_value hsize (hfield.trans hvalue) count rest

end Color

namespace Rgb

variable {c : Rgb} {cs : List Char} {s : String} {n : Nat}

/-! ### Numbers of colours -/

theorem toNat_ofNat (h : n < 0x1000000) : (ofNat n).toNat = n := by
  simp only [ofNat, toNat, Nat.toUInt8_eq, UInt8.toNat_ofNat']
  omega

/-- The number of a colour has the bytes of its channels side by side. -/
theorem toNat_eq_or (c : Rgb) :
    c.toNat = c.red.toNat <<< 16 ||| c.green.toNat <<< 8 ||| c.blue.toNat := by
  calc c.toNat
    _ = (c.red.toNat <<< 8 + c.green.toNat) <<< 8 + c.blue.toNat := by
        simp only [toNat, Nat.shiftLeft_eq]
        omega
    _ = (c.red.toNat <<< 8 ||| c.green.toNat) <<< 8 ||| c.blue.toNat := by
        rw [Nat.shiftLeft_add_eq_or_of_lt c.blue.toNat_lt,
          Nat.shiftLeft_add_eq_or_of_lt c.green.toNat_lt]
    _ = c.red.toNat <<< 16 ||| c.green.toNat <<< 8 ||| c.blue.toNat := by
        rw [Nat.shiftLeft_or_distrib, ← Nat.shiftLeft_add]

/-- The digits of a colour are those of its number. -/
theorem digits_eq_hexPad (c : Rgb) : c.digits = Text.hexPad 6 c.toNat := by
  have hr := c.red.toNat_lt
  have hg := c.green.toNat_lt
  have hb := c.blue.toNat_lt
  simp only [digits, Text.hexPad, Text.hexPair, toNat, List.nil_append, List.cons_append,
    Nat.div_div_eq_div_mul, List.cons.injEq, and_true]
  refine ⟨?_, ?_, ?_, ?_, ?_, ?_⟩ <;> exact congrArg Text.hexDigit (by omega)

/-! ### Texts of colours -/

theorem toList_display (c : Rgb) : c.display.toList = '#' :: c.digits := String.toList_ofList

/-- The text is the written form of the colour in capital or small letters, with or without its
number sign, and with white space around it. -/
def SpelledBy (c : Rgb) (s : String) : Prop :=
  ∃ body, Text.Padded body s.toList ∧
    (body.map Char.toLower = c.display.toList.map Char.toLower ∨
      ('#' :: body).map Char.toLower = c.display.toList.map Char.toLower)

/-- The digits of the colour in small letters. -/
def smallDigits (c : Rgb) : List Char := c.digits.map Char.toLower

theorem isHexDigit_of_mem_smallDigits : ∀ d ∈ c.smallDigits, Text.IsHexDigit d := by
  have hpair : ∀ b : UInt8, ∀ d ∈ (Text.hexPair b).map Char.toLower, Text.IsHexDigit d :=
    fun b => Text.isSome_hexNumber?_iff.mp
      (Option.isSome_of_eq_some (Text.hexNumber?_toLower_hexPair b))
  simp only [smallDigits, digits, List.map_append, List.forall_mem_append]
  exact ⟨⟨hpair c.red, hpair c.green⟩, hpair c.blue⟩

theorem ofHex_of_hexPart (h : Color.hexPart cs = c.smallDigits) :
    Color.ofHex cs = .ok (some c) := by
  have hsize : Color.byteSize c.smallDigits = 6 :=
    Color.byteSize_of_isHexDigit isHexDigit_of_mem_smallDigits
  have hread : Color.readFields 2 3 c.smallDigits =
      .ok (some [c.red.toNat, c.green.toNat, c.blue.toNat]) := by
    rw [smallDigits, digits, List.append_assoc, List.map_append, List.map_append,
      Color.readFields_hexPair, Color.readFields_hexPair, ← List.append_nil (List.map _ _),
      Color.readFields_hexPair]
    rfl
  simp [Color.ofHex, h, hsize, hread, Except.map, Color.ofChannels?]

/-- What is read of a spelling: the small digits of the colour, with a number sign or without. -/
theorem SpelledBy.lowered_eq (h : c.SpelledBy s) :
    lowered s = '#' :: c.smallDigits ∨ lowered s = c.smallDigits := by
  obtain ⟨body, hpadded, hbody⟩ := h
  have hsmall : c.display.toList.map Char.toLower = '#' :: c.smallDigits := by
    rw [toList_display]
    rfl
  rw [hsmall] at hbody
  have hsmallBody : ∀ d ∈ body, d.toLower = '#' ∨ Text.IsHexDigit d.toLower := by
    intro d hd
    have hmem : d.toLower ∈ '#' :: c.smallDigits := by
      rcases hbody with hbody | hbody
      · exact hbody ▸ List.mem_map_of_mem hd
      · exact hbody ▸ List.mem_map_of_mem (List.mem_cons_of_mem _ hd)
    exact (List.mem_cons.mp hmem).imp_right (isHexDigit_of_mem_smallDigits _)
  have hblank : ∀ d ∈ body, Text.isBlank d = false := by
    intro d hd
    rw [← Bool.not_eq_true]
    intro hblank
    have hcases := hsmallBody d hd
    rw [Text.toLower_of_isBlank hblank] at hcases
    rcases hcases with rfl | hdigit
    · exact absurd hblank (by decide)
    · rw [hdigit.isBlank_eq_false] at hblank
      cases hblank
  rw [lowered, hpadded.trim_eq hblank]
  exact hbody.imp_right fun hbody => (List.cons.inj hbody).2

/-- A spelling of a colour is read as that colour. It is too long for `none` and too short for
`transparent`. -/
theorem parse_of_spelledBy (h : c.SpelledBy s) :
    (ColorSpec.text s).parse = .ok (.solid c) := by
  have hpart : Color.hexPart (lowered s) = c.smallDigits := by
    rcases h.lowered_eq with heq | heq <;> rw [heq]
    · rfl
    · exact Color.hexPart_of_isHexDigit isHexDigit_of_mem_smallDigits
  have hlength : (lowered s).length = 7 ∨ (lowered s).length = 6 := by
    rcases h.lowered_eq with heq | heq <;> rw [heq]
    · exact Or.inl rfl
    · exact Or.inr rfl
  have hword : ¬ (lowered s = "transparent".toList ∨ lowered s = "none".toList) := by
    rintro (heq | heq) <;> rw [heq] at hlength <;> revert hlength <;> decide
  rw [ColorSpec.parse, Color.ofText, ← lowered, if_neg hword, ofHex_of_hexPart hpart]

theorem spelledBy_display (c : Rgb) : c.SpelledBy c.display :=
  ⟨c.display.toList, ⟨[], [], by simp⟩, Or.inl rfl⟩

/-! ### Numbers of 24 bits -/

theorem parse_integer (h : n < 0x1000000) :
    (ColorSpec.integer n).parse = .ok (.solid (ofNat n)) := by
  rw [ColorSpec.parse, if_pos ⟨Int.natCast_nonneg n, by omega⟩, Int.toNat_natCast, Color.ofNat]

/-- **Spellings of a colour.** The number of a colour has its channels side by side, and its written
form is that number with six digits. The colour is read from its number and from each text that
spells it; so its written form reads back, also where it must be opaque. A number is read as the
colour that has it, or it is refused because it has more than 24 bits or is negative. -/
theorem parse_spellings :
    (∀ c : Rgb, c.toNat = c.red.toNat <<< 16 ||| c.green.toNat <<< 8 ||| c.blue.toNat ∧
      c.display.toList = '#' :: Text.hexPad 6 c.toNat) ∧
    (∀ c : Rgb, (ColorSpec.integer c.toNat).parse = .ok (.solid c)) ∧
    (∀ (c : Rgb) (s : String), c.SpelledBy s → (ColorSpec.text s).parse = .ok (.solid c)) ∧
    (∀ (c : Rgb) (name : String), (ColorSpec.text c.display).parseBase name = .ok c) ∧
    ∀ k : Int,
      (0 ≤ k ∧ k ≤ 0xFFFFFF → ∃ c, (ColorSpec.integer k).parse = .ok (.solid c) ∧ c.toNat = k) ∧
      (¬ (0 ≤ k ∧ k ≤ 0xFFFFFF) → (ColorSpec.integer k).parse = .error (.outOfRange k)) := by
  refine ⟨fun c => ⟨toNat_eq_or c, ?_⟩, fun c => ?_, fun c s => parse_of_spelledBy,
    fun c name => ?_, fun k => ⟨fun hk => ?_, fun hk => if_neg (by omega)⟩⟩
  · rw [toList_display, digits_eq_hexPad]
  · rw [parse_integer c.toNat_lt, ofNat_toNat]
  · rw [ColorSpec.parseBase, parse_of_spelledBy c.spelledBy_display]
    rfl
  · obtain ⟨n, rfl⟩ := Int.eq_ofNat_of_zero_le hk.1
    have hn : n < 0x1000000 := by omega
    exact ⟨_, parse_integer hn, congrArg _ (toNat_ofNat hn)⟩

/-- No leading zero is lost, whichever way the colour is written, and the largest number is one of a
colour while the next one is not. -/
theorem parse_spellings_leadingZero :
    ((⟨0x0A, 0x0B, 0x0C⟩ : Rgb).SpelledBy "\t0a0B0c " ∧
      (ColorSpec.text "\t0a0B0c ").parse = .ok (.solid ⟨0x0A, 0x0B, 0x0C⟩)) ∧
    ((0 ≤ (0xFFFFFF : Int) ∧ (0xFFFFFF : Int) ≤ 0xFFFFFF) ∧
      ∃ c, (ColorSpec.integer 0xFFFFFF).parse = .ok (.solid c) ∧ (c.toNat : Int) = 0xFFFFFF) ∧
    ¬ (0 ≤ (0x1000000 : Int) ∧ (0x1000000 : Int) ≤ 0xFFFFFF) ∧
      (ColorSpec.integer 0x1000000).parse = .error (.outOfRange 0x1000000) := by
  obtain ⟨-, -, htext, -, hinteger⟩ := parse_spellings
  have hpadded : Text.Padded "0a0B0c".toList "\t0a0B0c ".toList :=
    ⟨['\t'], [' '], by decide, List.forall_mem_singleton.mpr rfl, List.forall_mem_singleton.mpr rfl⟩
  have hspelled : (⟨0x0A, 0x0B, 0x0C⟩ : Rgb).SpelledBy "\t0a0B0c " :=
    ⟨_, hpadded, Or.inr (by decide)⟩
  exact ⟨⟨hspelled, htext _ _ hspelled⟩, ⟨by omega, (hinteger _).1 (by omega)⟩, by omega,
    (hinteger _).2 (by omega)⟩

end Rgb
end BracketPaint
