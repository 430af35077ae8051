import Mathlib.Data.List.Chain
import BracketPaint.Proofs.Vicinities
import BracketPaint.Text.Numeral
/-!
# Cursors in groups

The examined regions share the cursors out among them, every cursor once and in order. Each region
gathers the vicinities of its cursors, one touching the next (`ExaminedRegion.Gathers`), so that it
reaches from the vicinity of its first cursor to that of its last one. This is kept by each join:
the ends of vicinities come in the order of the cursors, so the vicinity that is joined ends the
region, and it touches the region only if it touches the vicinity before it.

The sizes and offsets of a text are words of 64 bits. No vicinity leaves them, however large the
radius: sums that are no words are cut off, and so is a vicinity at the end of the text
(`vicinityOfWords_eq`).
-/

namespace BracketPaint

variable {c d radius size first last : Nat} {cs cursors : List Nat} {e : ExaminedRegion}

/-! ### Vicinities on words -/

theorem vicinity_start : (vicinity radius size c).start = min c size - radius := rfl

theorem vicinity_stop : (vicinity radius size c).stop = min (min c size + radius) size := rfl

/-- The sum of two words, or the largest word if the sum is none. -/
def saturatingAdd (a b : UInt64) : UInt64 := if a + b < a then -1 else a + b

/-- The difference of two words, or zero if it is negative. -/
def saturatingSub (a b : UInt64) : UInt64 := if a < b then 0 else a - b

/-- The vicinity of a cursor, computed on words; its bounds might be reversed. -/
def vicinityOfWords (radius size cursor : UInt64) : Except Fault Region :=
  Region.ofBounds (saturatingSub (min cursor size) radius).toNat
    (min (saturatingAdd (min cursor size) radius) size).toNat

theorem toNat_min (a b : UInt64) : (min a b).toNat = min a.toNat b.toNat := by
  show (if a ≤ b then a else b).toNat = _
  split <;> rename_i h <;> rw [UInt64.le_iff_toNat_le] at h
  · exact (Nat.min_eq_left h).symm
  · exact (Nat.min_eq_right (Nat.le_of_not_le h)).symm

theorem toNat_saturatingAdd (a b : UInt64) :
    (saturatingAdd a b).toNat = min (a.toNat + b.toNat) (Text.wordLimit - 1) := by
  have ha := a.toNat_lt
  have hb := b.toNat_lt
  unfold saturatingAdd Text.wordLimit
  split <;> rename_i h <;> rw [UInt64.lt_iff_toNat_lt, UInt64.toNat_add] at h
  · show 0xFFFFFFFFFFFFFFFF = _
    omega
  · rw [UInt64.toNat_add]
    omega

theorem toNat_saturatingSub (a b : UInt64) : (saturatingSub a b).toNat = a.toNat - b.toNat := by
  unfold saturatingSub
  split <;> rename_i h
  · have := UInt64.lt_iff_toNat_lt.mp h
    simp
    omega
  · exact UInt64.toNat_sub_of_le a b (UInt64.not_lt.mp h)

/-- On words, vicinities have the same bounds, and these are in order. -/
theorem vicinityOfWords_eq (radius size cursor : UInt64) :
    vicinityOfWords radius size cursor =
      .ok (vicinity radius.toNat size.toNat cursor.toNat) := by
  have hsize := size.toNat_lt
  refine Region.ofBounds_eq_ok_iff.mpr ⟨?_, ?_⟩
  · rw [toNat_saturatingSub, toNat_min, vicinity_start]
  · rw [toNat_min, toNat_saturatingAdd, toNat_min, vicinity_stop, Text.wordLimit]
    omega

/-! ### Regions that gather vicinities -/

/-- The vicinities of the cursors touch one another, and the region reaches from the first to the
last of them. -/
structure ExaminedRegion.Gathers (radius size : Nat) (e : ExaminedRegion) : Prop where
  touching : e.cursors.IsChain fun c d =>
    (vicinity radius size c).Touches (vicinity radius size d)
  reaches : ∃ first last, e.cursors.head? = some first ∧ e.cursors.getLast? = some last ∧
    e.region.start = (vicinity radius size first).start ∧
    e.region.stop = (vicinity radius size last).stop

namespace ExaminedRegion

theorem gathers_singleton (radius size c : Nat) :
    (⟨vicinity radius size c, [c]⟩ : ExaminedRegion).Gathers radius size :=
  ⟨List.isChain_singleton c, c, c, rfl, rfl, rfl, rfl⟩

/-- A cursor behind those of the region is added at their end. -/
theorem join_cursors_of_lt (r : Region) (hlt : ∀ d ∈ e.cursors, d < c) :
    (e.join r c).cursors = e.cursors ++ [c] := by
  refine if_neg fun hlast => ?_
  exact Nat.lt_irrefl c (hlt c (List.mem_of_getLast? hlast))

/-- A vicinity that touches the region touches the last vicinity in it. -/
theorem Gathers.join (h : e.Gathers radius size) (hlt : ∀ d ∈ e.cursors, d < c)
    (htouches : e.region.Touches (vicinity radius size c)) :
    (e.join (vicinity radius size c) c).Gathers radius size := by
  obtain ⟨htouching, first, last, hfirst, hlast, hstart, hstop⟩ := h
  have hfirstLt : first < c := hlt first (List.mem_of_head? hfirst)
  have hlastLt : last < c := hlt last (List.mem_of_getLast? hlast)
  have hcursors := join_cursors_of_lt (vicinity radius size c) hlt
  constructor
  · rw [hcursors]
    refine List.isChain_append.mpr ⟨htouching, List.isChain_singleton c, ?_⟩
    intro x hx y hy
    obtain rfl : last = x := Option.some.inj (hlast.symm.trans hx)
    obtain rfl : c = y := Option.some.inj hy
    rw [Region.Touches, ← hstop]
    simp only [Region.Touches, vicinity] at htouches ⊢
    omega
  · refine ⟨first, c, ?_, ?_, ?_, ?_⟩
    · rw [hcursors, List.head?_append, hfirst]
      rfl
    · rw [hcursors, List.getLast?_concat]
    · simp only [ExaminedRegion.join, Region.hull, hstart, vicinity]
      omega
    · simp only [ExaminedRegion.join, Region.hull, hstop, vicinity]
      omega

end ExaminedRegion

/-! ### Regions that share the cursors out -/

/-- Joining shares the cursors of the region and those that follow out among the regions it makes,
each of which gathers the vicinities of its own. -/
theorem gathers_mergeFrom (he : e.Gathers radius size)
    (hsorted : (e.cursors ++ cs).Pairwise (· < ·)) :
    (∀ x ∈ mergeFrom e (cs.map fun c => (vicinity radius size c, c)), x.Gathers radius size) ∧
      (mergeFrom e (cs.map fun c => (vicinity radius size c, c))).flatMap (·.cursors) =
        e.cursors ++ cs := by
  induction cs generalizing e with
  | nil => simpa [mergeFrom] using he
  | cons c cs ih =>
      rw [List.map_cons, mergeFrom]
      have hlt : ∀ d ∈ e.cursors, d < c := fun d hd =>
        (List.pairwise_append.mp hsorted).2.2 d hd c List.mem_cons_self
      split
      · rename_i htouches
        have hcursors := ExaminedRegion.join_cursors_of_lt (vicinity radius size c) hlt
        have := ih (he.join hlt htouches) (by rwa [hcursors, List.append_assoc])
        rwa [hcursors, List.append_assoc] at this
      · obtain ⟨hgathers, hcursors⟩ := ih (ExaminedRegion.gathers_singleton radius size c)
          (List.pairwise_append.mp hsorted).2.1
        exact ⟨List.forall_mem_cons.mpr ⟨he, hgathers⟩, by rw [List.flatMap_cons, hcursors]; rfl⟩

theorem gathers_examinedRegions (radius size : Nat) (hsorted : cursors.Pairwise (· < ·)) :
    (∀ e ∈ examinedRegions radius size cursors, e.Gathers radius size) ∧
      (examinedRegions radius size cursors).flatMap (·.cursors) = cursors := by
  cases cursors with
  | nil => exact ⟨fun e he => absurd he List.not_mem_nil, rfl⟩
  | cons c cs => exact gathers_mergeFrom (ExaminedRegion.gathers_singleton radius size c) hsorted

/-- The regions share the cursors out among them. -/
structure SharesOut (radius size : Nat) (cursors : List Nat) (es : List ExaminedRegion) : Prop where
  /-- Every cursor belongs to one region, and they come in order. -/
  flatMap_cursors : es.flatMap (·.cursors) = cursors
  cursors_ne : ∀ e ∈ es, e.cursors ≠ []
  within : ∀ e ∈ es, e.region.stop ≤ size
  /-- Between two regions there is at least one character. -/
  apart : es.Pairwise fun a b => a.region.stop < b.region.start
  /-- A cursor may stand at either end of its region. -/
  encloses : ∀ e ∈ es, ∀ c ∈ e.cursors, e.region.start ≤ c ∧ c ≤ e.region.stop
  /-- A region reaches so far before its first cursor and behind its last one. -/
  reaches : ∀ e ∈ es, ∃ first last, e.cursors.head? = some first ∧
    e.cursors.getLast? = some last ∧ e.region.start = first - radius ∧
    e.region.stop = min (last + radius) size
  /-- There is no gap between the vicinities of two cursors that follow each other. -/
  gapless : ∀ e ∈ es, e.cursors.IsChain fun c d =>
    (vicinity radius size c).Touches (vicinity radius size d)

theorem head_le_of_mem (hsorted : cs.Pairwise (· < ·)) (hfirst : cs.head? = some first)
    (hc : c ∈ cs) : first ≤ c := by
  obtain ⟨rest, rfl⟩ := List.head?_eq_some_iff.mp hfirst
  rcases List.mem_cons.mp hc with rfl | hc
  · exact Nat.le_refl _
  · exact Nat.le_of_lt ((List.pairwise_cons.mp hsorted).1 c hc)

theorem le_getLast_of_mem (hsorted : cs.Pairwise (· < ·)) (hlast : cs.getLast? = some last)
    (hc : c ∈ cs) : c ≤ last := by
  obtain ⟨rest, rfl⟩ := List.getLast?_eq_some_iff.mp hlast
  rcases List.mem_append.mp hc with hc | hc
  · exact Nat.le_of_lt ((List.pairwise_append.mp hsorted).2.2 c hc last List.mem_cons_self)
  · exact Nat.le_of_eq (List.mem_singleton.mp hc)

/-- Ascending cursors in a text are shared out. -/
theorem sharesOut_examinedRegions (hsorted : cursors.Pairwise (· < ·))
    (hsize : ∀ c ∈ cursors, c ≤ size) :
    SharesOut radius size cursors (examinedRegions radius size cursors) := by
  obtain ⟨hgathers, hcursors⟩ := gathers_examinedRegions radius size hsorted
  have hmem : ∀ e ∈ examinedRegions radius size cursors, ∀ c ∈ e.cursors, c ≤ size := by
    intro e he c hc
    exact hsize c (hcursors ▸ List.mem_flatMap.mpr ⟨e, he, hc⟩)
  have hreaches : ∀ e ∈ examinedRegions radius size cursors, ∃ first last,
      e.cursors.head? = some first ∧ e.cursors.getLast? = some last ∧
      e.region.start = first - radius ∧ e.region.stop = min (last + radius) size := by
    intro e he
    obtain ⟨first, last, hfirst, hlast, hstart, hstop⟩ := (hgathers e he).reaches
    rw [vicinity_start, Nat.min_eq_left (hmem e he first (List.mem_of_head? hfirst))] at hstart
    rw [vicinity_stop, Nat.min_eq_left (hmem e he last (List.mem_of_getLast? hlast))] at hstop
    exact ⟨first, last, hfirst, hlast, hstart, hstop⟩
  constructor
  case flatMap_cursors => exact hcursors
  case cursors_ne => exact fun e he => cursors_ne_of_mem_examinedRegions he
  case within =>
    intro e he
    obtain ⟨first, last, -, -, -, hstop⟩ := hreaches e he
    rw [hstop]
    exact Nat.min_le_right _ _
  case apart => exact pairwise_examinedRegions hsorted
  case encloses =>
    intro e he c hc
    obtain ⟨first, last, hfirst, hlast, hstart, hstop⟩ := hreaches e he
    have hordered : e.cursors.Pairwise (· < ·) := by
      rw [← hcursors, List.pairwise_flatMap] at hsorted
      exact hsorted.1 e he
    have := head_le_of_mem hordered hfirst hc
    have := le_getLast_of_mem hordered hlast hc
    have := hmem e he last (List.mem_of_getLast? hlast)
    omega
  case reaches => exact hreaches
  case gapless => exact fun e he => (hgathers e he).touching

/-- **Examined regions.** The cursors of a text, in order and each once, are shared out among the
regions that are looked at, and no bound of a vicinity leaves the words. -/
theorem sharesOut_normalizeCursors (radius size : UInt64) {cursors : List UInt64}
    (hsize : ∀ c ∈ cursors, c ≤ size) :
    (∀ c ∈ cursors, vicinityOfWords radius size c =
      .ok (vicinity radius.toNat size.toNat c.toNat)) ∧
    SharesOut radius.toNat size.toNat (normalizeCursors (cursors.map UInt64.toNat))
      (examinedRegions radius.toNat size.toNat
        (normalizeCursors (cursors.map UInt64.toNat))) := by
  refine ⟨fun c _ => vicinityOfWords_eq radius size c, ?_⟩
  refine sharesOut_examinedRegions (pairwise_normalizeCursors _) fun c hc => ?_
  obtain ⟨word, hword, rfl⟩ := List.mem_map.mp (mem_normalizeCursors.mp hc)
  exact UInt64.le_iff_toNat_le.mp (hsize word hword)

/-- The vicinities of cursors 2 and 4 meet at 3, and cursor 9 stands at the end of the text. -/
theorem sharesOut_twoAndOne :
    (∀ c ∈ ([9, 2, 4, 9] : List UInt64), c ≤ 9) ∧
      vicinityOfWords 1 9 9 = .ok ⟨8, 9, by decide⟩ ∧
      SharesOut 1 9 [2, 4, 9] [⟨⟨1, 5, by decide⟩, [2, 4]⟩, ⟨⟨8, 9, by decide⟩, [9]⟩] :=
  have hsize : ∀ c ∈ ([9, 2, 4, 9] : List UInt64), c ≤ 9 := by simp
  have hshared := sharesOut_normalizeCursors 1 9 hsize
  ⟨hsize, hshared.1 9 (by decide), hshared.2⟩

end BracketPaint
