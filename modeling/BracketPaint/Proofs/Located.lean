import Mathlib.Data.List.Nodup
import BracketPaint.Nesting
/-!
# Located brackets

Brackets are **located** if they stand in a text one behind the other: none is empty, and each one
ends before the next one starts. That is how a buffer finds them (`Buffer.located_brackets`), as
long as no pair to look for has an empty text.

Located brackets have a place in the list for each position in the text, so a cursor cuts the list
in two. The cut is found by bisection, and `Located.lt_bracketsBefore_iff` says which brackets come
before it.
-/

namespace BracketPaint

/-- A bracket that ends before another one starts has the earlier key in the search for a cursor. -/
theorem Bracket.lastBefore_lt {a b : Bracket} (hstop : a.region.stop ≤ b.position)
    (hlt : a.position < b.position) : a.lastBefore < b.lastBefore := by
  have hstop' : a.position + a.size ≤ b.position := hstop
  have ha : a.lastBefore < b.position := by
    unfold Bracket.lastBefore
    split <;> omega
  have hb : b.position ≤ b.lastBefore := by
    unfold Bracket.lastBefore
    split <;> omega
  exact Nat.lt_of_lt_of_le ha hb

/-- The brackets stand one behind the other, and none of them is empty. -/
structure Located (bs : List Bracket) : Prop where
  /-- No bracket is empty. -/
  text_ne : ∀ b ∈ bs, b.text ≠ ""
  /-- Each bracket ends before a later one starts. -/
  stop_le : bs.Pairwise fun a b => a.region.stop ≤ b.position

namespace Located

variable {bs : List Bracket} {a b : Bracket} {i j cursor : Nat}

theorem size_pos (hbs : Located bs) (hb : b ∈ bs) : 0 < b.size := by
  have := hbs.text_ne b hb
  rw [Bracket.size, Nat.pos_iff_ne_zero]
  exact fun h => this (String.length_eq_zero_iff.mp h)

theorem position_lt_stop (hbs : Located bs) (hb : b ∈ bs) : b.position < b.region.stop := by
  have := hbs.size_pos hb
  show b.position < b.position + b.size
  omega

theorem stop_le_of_lt (hbs : Located bs) (ha : bs[i]? = some a) (hb : bs[j]? = some b)
    (hij : i < j) : a.region.stop ≤ b.position := by
  obtain ⟨hi, rfl⟩ := List.getElem?_eq_some_iff.mp ha
  obtain ⟨hj, rfl⟩ := List.getElem?_eq_some_iff.mp hb
  exact List.pairwise_iff_getElem.mp hbs.stop_le i j hi hj hij

theorem position_lt_of_lt (hbs : Located bs) (ha : bs[i]? = some a) (hb : bs[j]? = some b)
    (hij : i < j) : a.position < b.position :=
  Nat.lt_of_lt_of_le (hbs.position_lt_stop (List.mem_of_getElem? ha))
    (hbs.stop_le_of_lt ha hb hij)

/-- Positions are ordered as places are. -/
theorem position_lt_iff (hbs : Located bs) (ha : bs[i]? = some a) (hb : bs[j]? = some b) :
    a.position < b.position ↔ i < j := by
  rcases Nat.lt_trichotomy i j with h | rfl | h
  · exact iff_of_true (hbs.position_lt_of_lt ha hb h) h
  · rw [ha] at hb
    obtain rfl := Option.some.inj hb
    simp
  · have := hbs.position_lt_of_lt hb ha h
    omega

/-- A bracket ends before one starts that stands behind it. -/
theorem stop_le_of_position_lt (hbs : Located bs) (ha : a ∈ bs) (hb : b ∈ bs)
    (h : a.position < b.position) : a.region.stop ≤ b.position := by
  obtain ⟨i, hi⟩ := List.getElem?_of_mem ha
  obtain ⟨j, hj⟩ := List.getElem?_of_mem hb
  exact hbs.stop_le_of_lt hi hj ((hbs.position_lt_iff hi hj).mp h)

theorem pairwise_position (hbs : Located bs) :
    bs.Pairwise fun a b => a.position < b.position := by
  rw [List.pairwise_iff_getElem]
  intro i j hi hj hij
  exact hbs.position_lt_of_lt (List.getElem?_eq_getElem hi) (List.getElem?_eq_getElem hj) hij

theorem nodup (hbs : Located bs) : bs.Nodup := by
  refine hbs.pairwise_position.imp ?_
  rintro a b hab rfl
  exact Nat.lt_irrefl _ hab

/-! ### Where a cursor cuts -/

theorem lastBefore_lt_of_lt (hbs : Located bs) (ha : bs[i]? = some a) (hb : bs[j]? = some b)
    (hij : i < j) : a.lastBefore < b.lastBefore :=
  Bracket.lastBefore_lt (hbs.stop_le_of_lt ha hb hij) (hbs.position_lt_of_lt ha hb hij)

/-- The cut is behind the brackets that the cursor has wholly to its left. -/
theorem lt_bracketsBefore_iff (hbs : Located bs) (hb : bs[i]? = some b) :
    i < bracketsBefore bs cursor ↔ b.lastBefore < cursor := by
  have hi : i < bs.length := (List.getElem?_eq_some_iff.mp hb).1
  unfold bracketsBefore
  rw [lt_boundary_iff _ hi]
  · simp [hb]
  · intro k j hkj hj hlt
    have hk : bs[k]? = some bs[k] := List.getElem?_eq_getElem (by omega)
    have hj' : bs[j]? = some bs[j] := List.getElem?_eq_getElem hj
    rw [hj', Option.any_some, decide_eq_true_eq] at hlt
    rw [hk, Option.any_some, decide_eq_true_eq]
    rcases Nat.lt_or_eq_of_le hkj with h | rfl
    · exact Nat.lt_trans (hbs.lastBefore_lt_of_lt hk hj' h) hlt
    · exact hlt

/-- A left bracket comes before the cut if it ends at the cursor or before it. -/
theorem left_lt_bracketsBefore_iff (hbs : Located bs) (hb : bs[i]? = some b)
    (hside : b.side = .left) : i < bracketsBefore bs cursor ↔ b.region.stop ≤ cursor := by
  have hsize := hbs.size_pos (List.mem_of_getElem? hb)
  have hlast : b.lastBefore = b.position + (b.size - 1) := by rw [Bracket.lastBefore, hside]
  have hstop : b.region.stop = b.position + b.size := rfl
  rw [hbs.lt_bracketsBefore_iff hb, hlast, hstop]
  omega

/-- A right bracket comes before the cut if it starts before the cursor. -/
theorem right_lt_bracketsBefore_iff (hbs : Located bs) (hb : bs[i]? = some b)
    (hside : b.side = .right) : i < bracketsBefore bs cursor ↔ b.position < cursor := by
  have hlast : b.lastBefore = b.position := by rw [Bracket.lastBefore, hside]
  rw [hbs.lt_bracketsBefore_iff hb, hlast]

end Located

/-! ### What a buffer finds -/

namespace Buffer

variable {b : Buffer} {pairs : List BracketPair} {suitable : String → Bool}

/-- A bracket is found where it was looked for, and its text is one of the texts looked for. -/
theorem bracketAt?_eq_some {p : Nat} {bracket : Bracket}
    (h : b.bracketAt? pairs suitable p = some bracket) :
    bracket.position = p ∧
      ∃ pair ∈ pairs, bracket.text = pair.left ∨ bracket.text = pair.right := by
  unfold bracketAt? at h
  split at h
  · obtain ⟨pair, hpair, hfound⟩ := List.exists_of_findSome?_eq_some h
    unfold bracketOf? at hfound
    split at hfound
    · obtain rfl := Option.some.inj hfound
      exact ⟨rfl, pair, hpair, Or.inl rfl⟩
    · split at hfound
      · obtain rfl := Option.some.inj hfound
        exact ⟨rfl, pair, hpair, Or.inr rfl⟩
      · cases hfound
  · cases h

theorem position_le_of_mem_bracketsFrom {p stop : Nat} {bracket : Bracket}
    (h : bracket ∈ b.bracketsFrom pairs suitable p stop) : p ≤ bracket.position := by
  fun_induction bracketsFrom b pairs suitable p stop with
  | case1 p _ found hfound ih =>
      rcases List.mem_cons.mp h with rfl | h
      · exact Nat.le_of_eq (bracketAt?_eq_some hfound).1.symm
      · have := ih h
        omega
  | case2 p _ _ ih =>
      have := ih h
      omega
  | case3 => cases h

/-- What a buffer finds stands at an offset that it has looked at. -/
theorem bracketAt?_of_mem_bracketsFrom {p stop : Nat} {bracket : Bracket}
    (h : bracket ∈ b.bracketsFrom pairs suitable p stop) :
    bracket.position < stop ∧ b.bracketAt? pairs suitable bracket.position = some bracket := by
  fun_induction bracketsFrom b pairs suitable p stop with
  | case1 p hlt found hfound ih =>
      rcases List.mem_cons.mp h with rfl | h
      · rw [(bracketAt?_eq_some hfound).1]
        exact ⟨hlt, hfound⟩
      · exact ih h
  | case2 p _ _ ih => exact ih h
  | case3 => cases h

/-- A right bracket has the right text of a pair. -/
theorem text_of_bracketAt?_right {p : Nat} {bracket : Bracket}
    (h : b.bracketAt? pairs suitable p = some bracket) (hside : bracket.side = .right) :
    ∃ pair ∈ pairs, bracket.text = pair.right := by
  unfold bracketAt? at h
  split at h
  · obtain ⟨pair, hpair, hfound⟩ := List.exists_of_findSome?_eq_some h
    refine ⟨pair, hpair, ?_⟩
    unfold bracketOf? at hfound
    split at hfound
    · obtain rfl := Option.some.inj hfound
      cases hside
    · split at hfound
      · obtain rfl := Option.some.inj hfound
        rfl
      · cases hfound
  · cases h

/-- What a buffer finds is located, if no text to look for is empty. -/
theorem located_brackets (hpairs : ∀ pair ∈ pairs, pair.left ≠ "" ∧ pair.right ≠ "") (r : Region) :
    Located (b.brackets pairs suitable r) := by
  unfold brackets
  generalize r.start = p
  generalize min r.stop b.size = stop
  fun_induction bracketsFrom b pairs suitable p stop with
  | case1 p _ found hfound ih =>
      obtain ⟨hposition, pair, hpair, htext⟩ := bracketAt?_eq_some hfound
      constructor
      · intro c hc
        rcases List.mem_cons.mp hc with rfl | hc
        · rcases htext with h | h
          · rw [h]
            exact (hpairs pair hpair).1
          · rw [h]
            exact (hpairs pair hpair).2
        · exact ih.text_ne c hc
      · refine List.pairwise_cons.mpr ⟨fun c hc => ?_, ih.stop_le⟩
        have := position_le_of_mem_bracketsFrom hc
        show found.position + found.size ≤ c.position
        omega
  | case2 _ _ _ ih => exact ih
  | case3 => exact ⟨by simp, List.Pairwise.nil⟩

end Buffer
end BracketPaint
