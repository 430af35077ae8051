import Mathlib.Data.List.Basic
import Mathlib.Data.List.TakeWhile
import BracketPaint.Text.Numeral
import BracketPaint.Toml.Document
import BracketPaint.Toml.Writer
/-!
# Written integers

An integer is written in decimal digits, with a minus before them if it is negative, and is read
back if it has 64 bits (`scalar?_toString`). The reader tries dates, times and floats first. Its
text is none of these: a date has a minus behind its first digit, a time has a colon, and a float
has a point, an exponent or a name.
-/

namespace BracketPaint.Toml

variable {c : Char} {cs rest : List Char} {n : Nat}

/-! ### Digits -/

theorem toDigits_ne_nil (n : Nat) : Nat.toDigits 10 n ≠ [] :=
  List.ne_nil_of_length_pos Nat.length_toDigits_pos

/-- The decimal text of a number does not start with a zero, unless it is nothing else. -/
theorem head?_toDigits_ne_zero (h : 0 < n) : (Nat.toDigits 10 n).head? ≠ some '0' := by
  induction n using Nat.strongRecOn with
  | ind n ih =>
      rcases Nat.lt_or_ge n 10 with hlt | hge
      · rw [Nat.toDigits_of_lt_base hlt]
        have hdigit : ∀ m < 10, 0 < m → Nat.digitChar m ≠ '0' := by decide
        simpa using hdigit n hlt h
      · rw [Nat.toDigits_of_base_le (by decide) hge, List.head?_append]
        have ih' := ih (n / 10) (by omega) (by omega)
        cases hdigits : Nat.toDigits 10 (n / 10) with
        | nil => exact absurd hdigits (toDigits_ne_nil _)
        | cons c cs =>
            rw [hdigits] at ih'
            exact ih'

theorem isGroupedRest_of_isDigit {p : Char → Bool} (hp : ∀ c ∈ cs, p c)
    (hdigit : ∀ c ∈ cs, c.isDigit) : isGroupedRest p cs := by
  induction cs with
  | nil => rfl
  | cons c cs ih =>
      have hc : c ≠ '_' := by
        rintro rfl
        exact absurd (hdigit '_' List.mem_cons_self) (by decide)
      rw [isGroupedRest.eq_def]
      split
      · rfl
      · rename_i heq
        cases heq
        exact absurd rfl hc
      · rename_i heq
        cases heq
        rw [hp c List.mem_cons_self, Bool.true_and]
        exact ih (fun d hd => hp d (List.mem_cons_of_mem _ hd))
          fun d hd => hdigit d (List.mem_cons_of_mem _ hd)

theorem hexValue?_of_isDigit (h : c.isDigit) :
    Text.hexValue? c = some (c.toNat - '0'.toNat) ∧ c.toNat - '0'.toNat < 10 := by
  have hbounds : 48 ≤ c.toNat ∧ c.toNat ≤ 57 := by
    simpa [Char.isDigit, UInt32.le_iff_toNat_le] using h
  rw [Text.hexValue?, if_pos hbounds]
  exact ⟨rfl, by have : '0'.toNat = 48 := rfl; omega⟩

/-- Digits without underscores between them denote their usual number. -/
theorem groupedNumber?_of_isDigit (hne : cs ≠ []) (hdigit : ∀ c ∈ cs, c.isDigit) :
    groupedNumber? 10 cs = some (Nat.ofDigitChars 10 cs 0) := by
  have hgrouped : isGrouped (fun c => (Text.hexValue? c).any (· < 10)) cs := by
    cases cs with
    | nil => exact absurd rfl hne
    | cons c cs =>
        have hp : ∀ d ∈ c :: cs, (Text.hexValue? d).any (· < 10) := by
          intro d hd
          obtain ⟨hvalue, hlt⟩ := hexValue?_of_isDigit (hdigit d hd)
          simp only [hvalue, Option.any_some, decide_eq_true_eq]
          exact hlt
        rw [isGrouped, hp c List.mem_cons_self, Bool.true_and]
        exact isGroupedRest_of_isDigit (fun d hd => hp d (List.mem_cons_of_mem _ hd))
          fun d hd => hdigit d (List.mem_cons_of_mem _ hd)
  have hungroup : ungroup cs = cs := by
    rw [ungroup, List.filter_eq_self]
    intro c hc
    rw [decide_eq_true_eq]
    rintro rfl
    exact absurd (hdigit '_' hc) (by decide)
  rw [groupedNumber?, if_pos hgrouped, hungroup, Nat.ofDigitChars]
  refine congrArg some (List.foldl_ext _ _ _ fun m c hc => ?_)
  rw [(hexValue?_of_isDigit (hdigit c hc)).1, Option.getD_some]

theorem decimal?_toDigits (n : Nat) : decimal? (Nat.toDigits 10 n) = some n := by
  have hfirst : ¬ ((Nat.toDigits 10 n).head? = some '0' ∧ Nat.toDigits 10 n ≠ ['0']) := by
    rintro ⟨hhead, hne⟩
    rcases Nat.eq_zero_or_pos n with rfl | hpos
    · exact hne rfl
    · exact head?_toDigits_ne_zero hpos hhead
  rw [decimal?, if_neg hfirst, groupedNumber?_of_isDigit (toDigits_ne_nil n)
    fun _ hc => Text.isDigit_of_mem_toDigits hc, Nat.ofDigitChars_toDigits (by decide) (by decide)]

/-! ### Integers -/

/-- The written form of an integer: digits, and a minus before them if it is negative. -/
theorem toList_toString_int (k : Int) :
    (toString k).toList = Nat.toDigits 10 k.natAbs ∧ 0 ≤ k ∨
      (toString k).toList = '-' :: Nat.toDigits 10 k.natAbs ∧ k < 0 := by
  cases k with
  | ofNat m =>
      have heq : toString (Int.ofNat m) = String.ofList (Nat.toDigits 10 m) := rfl
      rw [heq, String.toList_ofList]
      exact Or.inl ⟨rfl, Int.natCast_nonneg m⟩
  | negSucc m =>
      have heq : toString (Int.negSucc m) = "-" ++ String.ofList (Nat.toDigits 10 (m + 1)) := rfl
      rw [heq]
      exact Or.inr ⟨by simp, Int.negSucc_lt_zero m⟩

theorem splitSign_of_isDigit (hdigit : ∀ c ∈ cs, c.isDigit) : splitSign cs = (false, cs) := by
  unfold splitSign
  split
  · exact absurd (hdigit '-' List.mem_cons_self) (by decide)
  · exact absurd (hdigit '+' List.mem_cons_self) (by decide)
  · rfl

/-- An integer is not written to another base than ten. -/
theorem integer?_eq (hbase : ∀ c digits, cs = '0' :: c :: digits → c.isDigit) :
    integer? cs = ((decimal? (splitSign cs).2).map fun (n : Nat) =>
      if (splitSign cs).1 then -(n : Int) else n).filter fits := by
  unfold integer?
  split
  · exact absurd (hbase _ _ rfl) (by decide)
  · exact absurd (hbase _ _ rfl) (by decide)
  · exact absurd (hbase _ _ rfl) (by decide)
  · rcases splitSign cs with ⟨negative, digits⟩
    dsimp only
    cases decimal? digits <;> rfl

theorem integer?_toString {k : Int} (h : fits k) : integer? (toString k).toList = some k := by
  have hdigit : ∀ c ∈ Nat.toDigits 10 k.natAbs, c.isDigit :=
    fun _ hc => Text.isDigit_of_mem_toDigits hc
  rcases toList_toString_int k with ⟨heq, hk⟩ | ⟨heq, hk⟩
  · rw [heq, integer?_eq, splitSign_of_isDigit hdigit, decimal?_toDigits]
    · have habs : (k.natAbs : Int) = k := Int.natAbs_of_nonneg hk
      simp [habs, h]
    · intro c digits hdigits
      exact hdigit c (hdigits ▸ List.mem_cons_of_mem _ List.mem_cons_self)
  · rw [heq, integer?_eq]
    · have habs : -(k.natAbs : Int) = k := by omega
      rw [splitSign, decimal?_toDigits]
      simp only [Option.map_some, if_true, habs]
      simp [h]
    · intro c digits hdigits
      cases hdigits

/-! ### Neither dates nor floats -/

theorem twoDigits?_eq_some {least greatest : Nat} (h : twoDigits? least greatest cs = some (n, rest)) :
    ∃ a b, cs = a :: b :: rest ∧ a.isDigit := by
  unfold twoDigits? at h
  split at h
  · rename_i a b more
    dsimp only at h
    split at h
    · rename_i hdigits
      cases h
      exact ⟨a, b, rfl, hdigits.1⟩
    · cases h
  · cases h

theorem mem_of_after?_eq_some (h : after? c cs = some rest) : c ∈ cs := by
  unfold after? at h
  split at h
  · split at h
    · rename_i heq
      exact heq ▸ List.mem_cons_self
    · cases h
  · cases h

/-- A date starts with a digit and has a minus behind it. -/
theorem mem_of_afterDate?_eq_some (h : afterDate? cs = some rest) :
    ∃ a digits, cs = a :: digits ∧ a.isDigit ∧ '-' ∈ digits := by
  simp only [afterDate?, Option.bind_eq_bind, Option.bind_eq_some_iff] at h
  obtain ⟨⟨_, more⟩, hcentury, ⟨_, more'⟩, hyear, _, hminus, -⟩ := h
  obtain ⟨a, b, rfl, ha⟩ := twoDigits?_eq_some hcentury
  obtain ⟨c, d, rfl, -⟩ := twoDigits?_eq_some hyear
  have hmem := mem_of_after?_eq_some hminus
  exact ⟨a, _, rfl, ha, by simp [hmem]⟩

/-- A time has a colon. -/
theorem mem_of_afterTime?_eq_some (h : afterTime? cs = some rest) : ':' ∈ cs := by
  simp only [afterTime?, Option.bind_eq_bind, Option.bind_eq_some_iff] at h
  obtain ⟨⟨_, more⟩, hhour, _, hcolon, -⟩ := h
  obtain ⟨a, b, rfl, -⟩ := twoDigits?_eq_some hhour
  have hmem := mem_of_after?_eq_some hcolon
  simp [hmem]

/-- The text is the decimal form of an integer. -/
def IsDecimal (cs : List Char) : Prop :=
  ∃ digits, digits ≠ [] ∧ (∀ c ∈ digits, c.isDigit) ∧ (cs = digits ∨ cs = '-' :: digits)

theorem isDecimal_toString (k : Int) : IsDecimal (toString k).toList := by
  refine ⟨Nat.toDigits 10 k.natAbs, toDigits_ne_nil _, fun _ hc => Text.isDigit_of_mem_toDigits hc, ?_⟩
  rcases toList_toString_int k with ⟨heq, -⟩ | ⟨heq, -⟩
  · exact Or.inl heq
  · exact Or.inr heq

theorem IsDecimal.ne_nil (h : IsDecimal cs) : cs ≠ [] := by
  obtain ⟨digits, hne, -, rfl | rfl⟩ := h
  · exact hne
  · exact List.cons_ne_nil _ _

theorem IsDecimal.afterDate?_eq_none (h : IsDecimal cs) : afterDate? cs = none := by
  obtain ⟨digits, -, hdigit, rfl | rfl⟩ := h
  all_goals
    rw [Option.eq_none_iff_forall_ne_some]
    intro rest hrest
    obtain ⟨a, more, heq, ha, hminus⟩ := mem_of_afterDate?_eq_some hrest
  · exact absurd (hdigit '-' (heq ▸ List.mem_cons_of_mem _ hminus)) (by decide)
  · cases heq
    exact absurd ha (by decide)

theorem IsDecimal.afterTime?_eq_none (h : IsDecimal cs) : afterTime? cs = none := by
  rw [Option.eq_none_iff_forall_ne_some]
  intro rest hrest
  have hcolon := mem_of_afterTime?_eq_some hrest
  obtain ⟨digits, -, hdigit, rfl | rfl⟩ := h
  · exact absurd (hdigit ':' hcolon) (by decide)
  · rcases List.mem_cons.mp hcolon with heq | hcolon
    · cases heq
    · exact absurd (hdigit ':' hcolon) (by decide)

theorem IsDecimal.splitSign_snd (h : IsDecimal cs) :
    (splitSign cs).2 ≠ [] ∧ ∀ c ∈ (splitSign cs).2, c.isDigit := by
  obtain ⟨digits, hne, hdigit, rfl | rfl⟩ := h
  · rw [splitSign_of_isDigit hdigit]
    exact ⟨hne, hdigit⟩
  · exact ⟨hne, hdigit⟩

theorem IsDecimal.not_isFloat (h : IsDecimal cs) : isFloat cs = false := by
  obtain ⟨hne, hdigit⟩ := h.splitSign_snd
  have hname : ∀ c name, c.isDigit = false → (splitSign cs).2 ≠ c :: name := by
    intro c name hc heq
    have := hdigit c (heq ▸ List.mem_cons_self)
    rw [hc] at this
    cases this
  have hmark : ∀ c ∈ (splitSign cs).2, (!isExponentMark c) = true := by
    intro c hc
    rw [Bool.not_eq_true', isExponentMark, Bool.or_eq_false_iff, beq_eq_false_iff_ne,
      beq_eq_false_iff_ne]
    constructor <;> rintro rfl <;> exact absurd (hdigit _ hc) (by decide)
  have hdot : ∀ c ∈ (splitSign cs).2, decide (c ≠ '.') = true := by
    intro c hc
    rw [decide_eq_true_eq]
    rintro rfl
    exact absurd (hdigit _ hc) (by decide)
  have hdecimal : isDecimalFloat cs = false := by
    rw [isDecimalFloat]
    -- Neither a fraction nor an exponent follows the digits.
    have hmantissa := List.takeWhile_eq_self_iff.mpr hmark
    have hexponent := List.dropWhile_eq_nil_iff.mpr hmark
    have hwhole := List.takeWhile_eq_self_iff.mpr hdot
    simp only [hmantissa, hexponent, hwhole, beq_self_eq_true, if_true]
    split <;> simp
  have hinf : ((splitSign cs).2 == "inf".toList) = false :=
    beq_false_of_ne (hname 'i' ['n', 'f'] (by decide))
  have hnan : ((splitSign cs).2 == "nan".toList) = false :=
    beq_false_of_ne (hname 'n' ['a', 'n'] (by decide))
  rw [isFloat, hinf, hnan, hdecimal]
  rfl

theorem scalar?_toString {k : Int} (h : fits k) : scalar? (toString k).toList = some (.integer k) := by
  have hdecimal := isDecimal_toString k
  have hword : ∀ c name, c.isDigit = false → c ≠ '-' → (toString k).toList ≠ c :: name := by
    obtain ⟨digits, hne, hdigit, heq | heq⟩ := hdecimal
    · intro c name hc _ heq'
      have := hdigit c (heq ▸ heq' ▸ List.mem_cons_self)
      rw [hc] at this
      cases this
    · intro c name _ hc heq'
      exact hc (List.cons.inj (heq'.symm.trans heq)).1
  have hdate : isDateTime (toString k).toList = false := by
    rw [isDateTime, hdecimal.afterDate?_eq_none, hdecimal.afterTime?_eq_none]
    rfl
  have htrue : (toString k).toList ≠ "true".toList := hword 't' _ (by decide) (by decide)
  have hfalse : (toString k).toList ≠ "false".toList := hword 'f' _ (by decide) (by decide)
  rw [scalar?, if_neg htrue, if_neg hfalse, hdate, hdecimal.not_isFloat, integer?_toString h]
  rfl

/-! ### Scalars before other text -/

/-- A run of characters of a sort ends before one of another sort. -/
theorem takeWhile_dropWhile_append {p : Char → Bool} (hcs : ∀ c ∈ cs, p c)
    (hrest : rest.head?.all (!p ·)) :
    (cs ++ rest).takeWhile p = cs ∧ (cs ++ rest).dropWhile p = rest := by
  have hstop : rest.takeWhile p = [] ∧ rest.dropWhile p = rest := by
    cases rest with
    | nil => exact ⟨rfl, rfl⟩
    | cons c rest =>
        have hc : ¬ p c := by simpa using hrest
        exact ⟨List.takeWhile_cons_of_neg hc, List.dropWhile_cons_of_neg hc⟩
  rw [List.takeWhile_append_of_pos hcs, List.dropWhile_append_of_pos hcs, hstop.1, hstop.2,
    List.append_nil]
  exact ⟨rfl, rfl⟩

theorem scalarRun_append (hscalar : ∀ c ∈ cs, isScalarChar c)
    (hrest : rest.head?.all (!isScalarChar ·)) (hdate : afterDate? cs = none) :
    scalarRun (cs ++ rest) = (cs, rest) := by
  obtain ⟨htake, hdrop⟩ := takeWhile_dropWhile_append hscalar hrest
  rw [scalarRun, htake, hdrop, hdate]

theorem isScalarChar_of_isDigit (h : c.isDigit) : isScalarChar c := by
  simp [isScalarChar, Char.isAlphanum, h]

theorem IsDecimal.isScalarChar (h : IsDecimal cs) : ∀ c ∈ cs, isScalarChar c := by
  obtain ⟨digits, -, hdigit, rfl | rfl⟩ := h
  · exact fun c hc => isScalarChar_of_isDigit (hdigit c hc)
  · intro c hc
    rcases List.mem_cons.mp hc with rfl | hc
    · rfl
    · exact isScalarChar_of_isDigit (hdigit c hc)

end BracketPaint.Toml
