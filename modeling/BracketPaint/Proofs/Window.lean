import BracketPaint.Proofs.Nested
import BracketPaint.Proofs.SingleCursor
/-!
# Looking at a part of the brackets

A pass looks at the brackets near a cursor and not at those of the whole text. What it finds does
not hang on the brackets that it leaves out: in a part of the list in which the cursor cuts, every
bracket has the index that it has in the whole list, and the scopes of the part are the scopes of
the whole that have both brackets in it (`pairBrackets_window`).

Both facts are local. An index comes from the stretch between the bracket and the cursor, and two
brackets are a pair if the stretch between them leaves nothing over. A stretch that lies in the part
is the same stretch of the whole, `xs.length` places further on (`between_window`).
-/

namespace BracketPaint

variable {xs ys zs bs : List Bracket} {cursor n i j : Nat} {s : Scope}

/-! ### The scopes of one cursor -/

/-- The scopes of one cursor are the matched brackets, with the index of the left one. -/
theorem mem_pairBrackets_iff (hbs : Located bs) :
    s ∈ pairBrackets bs (nestingIndices bs cursor) ↔
      ∃ i j, MatchedAt bs i j ∧ bs[i]? = some s.left ∧ bs[j]? = some s.right ∧
        (nestingIndices bs cursor)[i]? = some s.index := by
  have hpairs := (map_brackets_eq_closings hbs cursor).trans (lifoPairs_eq_closings hbs).symm
  constructor
  · intro hs
    have hmem : s.brackets ∈ lifoPairs bs := hpairs ▸ List.mem_map_of_mem hs
    obtain ⟨i, j, hmatched, hi, hj⟩ := (mem_lifoPairs_iff hbs).mp hmem
    obtain ⟨i', -, -, hi', -, -, -, hindex, -⟩ := exists_places_of_mem_pairBrackets hs
    rw [hbs.place_inj hi' hi] at hindex
    exact ⟨i, j, hmatched, hi, hj, hindex⟩
  · rintro ⟨i, j, hmatched, hi, hj, hindex⟩
    have hmem : s.brackets ∈ lifoPairs bs :=
      (mem_lifoPairs_iff hbs).mpr ⟨i, j, hmatched, hi, hj⟩
    rw [← hpairs, List.mem_map] at hmem
    obtain ⟨t, ht, hbrackets⟩ := hmem
    obtain ⟨hleft, hright⟩ := Prod.mk.inj hbrackets
    -- The scope of these brackets has the index of its left one, so it is the given scope.
    obtain ⟨i', -, -, hi', -, -, -, hindex', -⟩ := exists_places_of_mem_pairBrackets ht
    rw [hleft] at hi'
    rw [hbs.place_inj hi' hi, hindex] at hindex'
    have heq : t = s := by
      obtain ⟨index, left, right⟩ := s
      obtain ⟨index', left', right'⟩ := t
      cases hleft
      cases hright
      cases hindex'
      rfl
    exact heq ▸ ht

/-- The scopes of one cursor come in the order of their left brackets. -/
theorem pairwise_left_pairBrackets (hbs : Located bs) (cursor : Nat) :
    (pairBrackets bs (nestingIndices bs cursor)).Pairwise fun s t =>
      s.left.position < t.left.position := by
  have hsub : ((pairBrackets bs (nestingIndices bs cursor)).map Scope.left).Sublist bs := by
    have hfst : ((closings Bracket.side bs).map Prod.fst).Sublist bs := closings_fst_sublist
    rwa [← map_brackets_eq_closings hbs cursor, List.map_map] at hfst
  have hpairwise := hbs.pairwise_position.sublist hsub
  rwa [List.pairwise_map] at hpairwise

/-! ### Places in a part -/

theorem Located.window (h : Located (xs ++ ys ++ zs)) : Located ys := by
  have hsub : ys.Sublist (xs ++ ys ++ zs) :=
    (List.sublist_append_right xs ys).trans (List.sublist_append_left (xs ++ ys) zs)
  exact ⟨fun b hb => h.text_ne b (hsub.subset hb), h.stop_le.sublist hsub⟩

theorem getElem?_window (hi : i < ys.length) : (xs ++ ys ++ zs)[xs.length + i]? = ys[i]? := by
  rw [List.append_assoc, List.getElem?_append_right (Nat.le_add_right _ _), Nat.add_sub_cancel_left,
    List.getElem?_append_left hi]

/-- A stretch that lies in the part is a stretch of the whole. -/
theorem between_window (hj : j ≤ ys.length) :
    between Bracket.side (xs ++ ys ++ zs) (xs.length + i) (xs.length + j) =
      between Bracket.side ys i j := by
  have htake : (xs ++ ys ++ zs).take (xs.length + j) = xs ++ ys.take j := by
    rw [List.append_assoc, List.take_length_add_append, List.take_append_of_le_length hj]
  rw [between, between, htake, List.drop_length_add_append]

theorem matchedAt_window_iff (hj : j < ys.length) :
    MatchedAt (xs ++ ys ++ zs) (xs.length + i) (xs.length + j) ↔ MatchedAt ys i j := by
  have hbetween : between Bracket.side (xs ++ ys ++ zs) (xs.length + i + 1) (xs.length + j) =
      between Bracket.side ys (i + 1) j := by
    rw [Nat.add_assoc]
    exact between_window (Nat.le_of_lt hj)
  constructor
  · rintro ⟨hlt, hleft, hright, hone⟩
    have hij : i < j := by omega
    rw [getElem?_window (by omega)] at hleft
    rw [getElem?_window hj] at hright
    exact ⟨hij, hleft, hright, hbetween ▸ hone⟩
  · rintro ⟨hij, hleft, hright, hone⟩
    refine ⟨by omega, ?_, ?_, hbetween.trans hone⟩
    · rwa [getElem?_window (by omega)]
    · rwa [getElem?_window hj]

/-! ### The cursor cuts inside the part -/

/-- The cursor cuts the list inside the part: what comes before the part lies before the cursor, and
what comes behind it does not. -/
structure CutsInside (xs ys zs : List Bracket) (cursor : Nat) : Prop where
  from_le : xs.length ≤ bracketsBefore (xs ++ ys ++ zs) cursor
  le_to : bracketsBefore (xs ++ ys ++ zs) cursor ≤ xs.length + ys.length

/-- The cursor has all brackets before the part to its left, and all behind the part to its right. -/
theorem cutsInside_iff (h : Located (xs ++ ys ++ zs)) :
    CutsInside xs ys zs cursor ↔
      (∀ b ∈ xs, b.lastBefore < cursor) ∧ ∀ b ∈ zs, cursor ≤ b.lastBefore := by
  have hxs : ∀ {i : Nat} {b : Bracket}, xs[i]? = some b → (xs ++ ys ++ zs)[i]? = some b := by
    intro i b hb
    rw [List.append_assoc, List.getElem?_append_left (List.getElem?_eq_some_iff.mp hb).1, hb]
  have hzs : ∀ {i : Nat} {b : Bracket}, zs[i]? = some b →
      (xs ++ ys ++ zs)[(xs ++ ys).length + i]? = some b := by
    intro i b hb
    rw [List.getElem?_append_right (Nat.le_add_right _ _), Nat.add_sub_cancel_left, hb]
  have hlen : (xs ++ ys).length = xs.length + ys.length := List.length_append
  constructor
  · rintro ⟨hfrom, hto⟩
    refine ⟨fun b hb => ?_, fun b hb => ?_⟩
    · obtain ⟨i, hi⟩ := List.getElem?_of_mem hb
      have hlt : i < xs.length := (List.getElem?_eq_some_iff.mp hi).1
      exact (h.lt_bracketsBefore_iff (hxs hi)).mp (by omega)
    · obtain ⟨i, hi⟩ := List.getElem?_of_mem hb
      refine Nat.le_of_not_lt fun hlt => ?_
      have := (h.lt_bracketsBefore_iff (hzs hi)).mpr hlt
      omega
  · rintro ⟨hbefore, hbehind⟩
    constructor
    · -- The last bracket before the part comes before the cut.
      rcases Nat.eq_zero_or_pos xs.length with hnil | hpos
      · omega
      · have hlast : xs[xs.length - 1]? = some xs[xs.length - 1] :=
          List.getElem?_eq_getElem (by omega)
        have := (h.lt_bracketsBefore_iff (hxs hlast)).mpr
          (hbefore _ (List.mem_of_getElem? hlast))
        omega
    · -- The first bracket behind the part does not.
      have hle : bracketsBefore (xs ++ ys ++ zs) cursor ≤ (xs ++ ys ++ zs).length :=
        boundary_le _ _
      rw [List.length_append, hlen] at hle
      rcases Nat.eq_zero_or_pos zs.length with hnil | hpos
      · omega
      · have hfirst : zs[0]? = some zs[0] := List.getElem?_eq_getElem hpos
        have hnot := mt (h.lt_bracketsBefore_iff (hzs hfirst)).mp
          (Nat.not_lt.mpr (hbehind _ (List.mem_of_getElem? hfirst)))
        omega

/-- The cut of the whole list is the cut of the part. -/
theorem CutsInside.bracketsBefore_eq (hcut : CutsInside xs ys zs cursor)
    (h : Located (xs ++ ys ++ zs)) :
    bracketsBefore (xs ++ ys ++ zs) cursor = xs.length + bracketsBefore ys cursor := by
  obtain ⟨hfrom, hto⟩ := hcut
  have hle : bracketsBefore ys cursor ≤ ys.length := boundary_le _ _
  -- A place of the part lies before the one cut exactly if it lies before the other.
  have hiff : ∀ i < ys.length, i < bracketsBefore ys cursor ↔
      xs.length + i < bracketsBefore (xs ++ ys ++ zs) cursor := by
    intro i hi
    have hb : ys[i]? = some ys[i] := List.getElem?_eq_getElem hi
    rw [h.window.lt_bracketsBefore_iff hb, h.lt_bracketsBefore_iff ((getElem?_window hi).trans hb)]
  rcases Nat.lt_trichotomy (bracketsBefore ys cursor)
    (bracketsBefore (xs ++ ys ++ zs) cursor - xs.length) with hlt | heq | hgt
  · have := hiff (bracketsBefore ys cursor) (by omega)
    omega
  · omega
  · have := hiff (bracketsBefore (xs ++ ys ++ zs) cursor - xs.length) (by omega)
    omega

theorem indexAt_window (hn : n ≤ ys.length) (hi : i < ys.length) (side : Side) :
    indexAt (xs ++ ys ++ zs) (xs.length + n) (xs.length + i) side = indexAt ys n i side := by
  have hbefore : between Bracket.side (xs ++ ys ++ zs) (xs.length + i + 1) (xs.length + n) =
      between Bracket.side ys (i + 1) n := by
    rw [Nat.add_assoc]
    exact between_window hn
  have hbehind : between Bracket.side (xs ++ ys ++ zs) (xs.length + n) (xs.length + i) =
      between Bracket.side ys n i := between_window (Nat.le_of_lt hi)
  rw [indexAt, indexAt, hbefore, hbehind]
  simp only [Nat.add_lt_add_iff_left]

/-- A bracket of the part has one index in the part and in the whole. -/
theorem getElem?_nestingIndices_window (hcut : CutsInside xs ys zs cursor)
    (h : Located (xs ++ ys ++ zs)) (hi : i < ys.length) :
    (nestingIndices (xs ++ ys ++ zs) cursor)[xs.length + i]? = (nestingIndices ys cursor)[i]? := by
  have hn : bracketsBefore ys cursor ≤ ys.length := boundary_le _ _
  rw [getElem?_nestingIndices, getElem?_nestingIndices, hcut.bracketsBefore_eq h,
    getElem?_window hi]
  exact congrArg (ys[i]?.map ·) (funext fun b => indexAt_window hn hi b.side)

/-- The scopes of the part are the scopes of the whole with both brackets in the part. -/
theorem mem_pairBrackets_window_iff (hcut : CutsInside xs ys zs cursor)
    (h : Located (xs ++ ys ++ zs)) :
    s ∈ pairBrackets ys (nestingIndices ys cursor) ↔
      s ∈ pairBrackets (xs ++ ys ++ zs) (nestingIndices (xs ++ ys ++ zs) cursor) ∧
        s.left ∈ ys ∧ s.right ∈ ys := by
  rw [mem_pairBrackets_iff h, mem_pairBrackets_iff h.window]
  constructor
  · rintro ⟨i, j, hmatched, hleft, hright, hindex⟩
    have hj : j < ys.length := (List.getElem?_eq_some_iff.mp hright).1
    have hi : i < ys.length := Nat.lt_trans hmatched.lt hj
    refine ⟨⟨xs.length + i, xs.length + j, (matchedAt_window_iff hj).mpr hmatched, ?_, ?_, ?_⟩,
      List.mem_of_getElem? hleft, List.mem_of_getElem? hright⟩
    · rwa [getElem?_window hi]
    · rwa [getElem?_window hj]
    · rwa [getElem?_nestingIndices_window hcut h hi]
  · rintro ⟨⟨i, j, hmatched, hleft, hright, hindex⟩, hleft', hright'⟩
    obtain ⟨i', hi'⟩ := List.getElem?_of_mem hleft'
    obtain ⟨j', hj'⟩ := List.getElem?_of_mem hright'
    have hi : i' < ys.length := (List.getElem?_eq_some_iff.mp hi').1
    have hj : j' < ys.length := (List.getElem?_eq_some_iff.mp hj').1
    -- No bracket stands twice in the whole list, so the places are those in the part.
    obtain rfl := h.place_inj hleft ((getElem?_window hi).trans hi')
    obtain rfl := h.place_inj hright ((getElem?_window hj).trans hj')
    rw [getElem?_nestingIndices_window hcut h hi] at hindex
    exact ⟨i', j', (matchedAt_window_iff hj).mp hmatched, hi', hj', hindex⟩

/-- **A part is enough.** Where the cursor cuts the brackets inside a part of them, the brackets of
the part have the indices that they have in the whole, and the scopes of the part are those of the
whole that have both brackets in it, in the same order. -/
theorem pairBrackets_window (h : Located (xs ++ ys ++ zs)) (hcut : CutsInside xs ys zs cursor) :
    nestingIndices ys cursor =
        ((nestingIndices (xs ++ ys ++ zs) cursor).drop xs.length).take ys.length ∧
      pairBrackets ys (nestingIndices ys cursor) =
        (pairBrackets (xs ++ ys ++ zs) (nestingIndices (xs ++ ys ++ zs) cursor)).filter
          fun s => s.left ∈ ys ∧ s.right ∈ ys := by
  constructor
  · refine List.ext_getElem? fun i => ?_
    rcases Nat.lt_or_ge i ys.length with hi | hi
    · rw [List.getElem?_take_of_lt hi, List.getElem?_drop, getElem?_nestingIndices_window hcut h hi]
    · rw [List.getElem?_eq_none (by rwa [length_nestingIndices]),
        List.getElem?_eq_none (Nat.le_trans (List.length_take_le _ _) hi)]
  · have hpart := pairwise_left_pairBrackets h.window cursor
    have hwhole := (pairwise_left_pairBrackets h cursor).filter
      fun s => decide (s.left ∈ ys ∧ s.right ∈ ys)
    have hnodup : ∀ {scopes : List Scope},
        (scopes.Pairwise fun s t => s.left.position < t.left.position) → scopes.Nodup := by
      intro scopes hscopes
      refine hscopes.imp ?_
      rintro s t hst rfl
      exact Nat.lt_irrefl _ hst
    refine List.Perm.eq_of_pairwise ?_ hpart hwhole ?_
    · intro s t _ _ hst hts
      omega
    · rw [List.perm_ext_iff_of_nodup (hnodup hpart) (hnodup hwhole)]
      intro s
      rw [mem_pairBrackets_window_iff hcut h, List.mem_filter, decide_eq_true_eq]

/-- The brackets of `[()])`, a part of `([()])()`. The last one has its partner outside. -/
def partOfFour : List Bracket :=
  [⟨.left, 1, "["⟩, ⟨.left, 2, "("⟩, ⟨.right, 3, ")"⟩, ⟨.right, 4, "]"⟩, ⟨.right, 5, ")"⟩]

/-- The brackets of `([()])()`, four pairs. -/
def wholeOfFour : List Bracket :=
  [⟨.left, 0, "("⟩] ++ partOfFour ++ [⟨.left, 6, "("⟩, ⟨.right, 7, ")"⟩]

/-- The cursor standing behind the square bracket of `([()])()`, two of the four scopes are found in
the part: the one around the cursor and the one beside it, with their indices. -/
theorem pairBrackets_partOfFour :
    Located wholeOfFour ∧
      CutsInside [⟨.left, 0, "("⟩] partOfFour [⟨.left, 6, "("⟩, ⟨.right, 7, ")"⟩] 2 ∧
      (pairBrackets wholeOfFour (nestingIndices wholeOfFour 2)).length = 4 ∧
      pairBrackets partOfFour (nestingIndices partOfFour 2) =
        [⟨.primary, ⟨.left, 1, "["⟩, ⟨.right, 4, "]"⟩⟩,
          ⟨⟨.unreachable, 1⟩, ⟨.left, 2, "("⟩, ⟨.right, 3, ")"⟩⟩] ∧
      ((nestingIndices wholeOfFour 2).drop 1).take 5 = nestingIndices partOfFour 2 ∧
      (pairBrackets wholeOfFour (nestingIndices wholeOfFour 2)).filter
          (fun s => s.left ∈ partOfFour ∧ s.right ∈ partOfFour) =
        pairBrackets partOfFour (nestingIndices partOfFour 2) := by
  have h : Located wholeOfFour := ⟨by decide, by decide⟩
  have hcut : CutsInside [⟨.left, 0, "("⟩] partOfFour [⟨.left, 6, "("⟩, ⟨.right, 7, ")"⟩] 2 :=
    (cutsInside_iff h).mpr ⟨by decide, by decide⟩
  obtain ⟨hindices, hscopes⟩ := pairBrackets_window h hcut
  refine ⟨h, hcut, ?_, ?_, hindices.symm, hscopes.symm⟩
  · rw [pairBrackets_eq_partners]
    decide +kernel
  · rw [pairBrackets_eq_partners]
    decide +kernel

end BracketPaint
