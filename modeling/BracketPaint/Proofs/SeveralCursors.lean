import BracketPaint.Proofs.Enclosure
import BracketPaint.Proofs.Merging
import BracketPaint.Scope.Role
/-!
# Several cursors

With merged indices the scopes need not be the pairs of a stack: in `([])` with a cursor behind each
left bracket all four indices merge into one, and each left bracket takes a right one of the other
pair (`crossed_of_two_cursors`).

In balanced brackets the depth of the cursors decides (`Merged.keptApart_iff_equallyDeep`). A pair
beside every mainline always keeps its inner level apart from the pairs around it. On a mainline all
depends on the outer levels, which each cursor counts from itself outwards. If all cursors that some
pair encloses are equally deep, these levels say how many pairs are around a pair. If one cursor is
deeper, its outermost pair is nearer to the other cursor, and so there are fewer levels than pairs.
-/

namespace BracketPaint

variable {bs : List Bracket} {cursor : Nat} {cursors : List Nat} {p q : Bracket × Bracket}
  {i j i' j' : Nat} {indices : List NestingIndex} {a b : NestingIndex}

/-- All cursors that some pair encloses are equally deep. -/
def EquallyDeep (bs : List Bracket) (cursors : List Nat) : Prop :=
  ∀ c ∈ cursors, ∀ d ∈ cursors, 0 < enclosingCount bs c → 0 < enclosingCount bs d →
    enclosingCount bs c = enclosingCount bs d

/-- The indices are the merged ones of the cursors. -/
structure Merged (bs : List Bracket) (cursors : List Nat) (indices : List NestingIndex) :
    Prop where
  length_eq : indices.length = bs.length
  leastAt : ∀ i a, indices[i]? = some a → LeastAt (cursors.map (nestingIndices bs)) i a

theorem exists_merged (bs : List Bracket) (hne : cursors ≠ []) :
    ∃ indices, mergeIndices (cursors.map (nestingIndices bs)) = .ok indices ∧
      Merged bs cursors indices := by
  have hlen : ∀ l ∈ cursors.map (nestingIndices bs), l.length = bs.length := by
    intro l hl
    obtain ⟨c, -, rfl⟩ := List.mem_map.mp hl
    exact length_nestingIndices bs c
  obtain ⟨indices, hok, hlength, hleast⟩ :=
    exists_mergeIndices (fun h => hne (List.map_eq_nil_iff.mp h)) hlen
  exact ⟨indices, hok, hlength, hleast⟩

namespace Merged

/-- Matching brackets keep equal indices. -/
theorem pairsAgree (hm : Merged bs cursors indices) : PairsAgree bs indices := by
  intro i j h
  have hplace : ∀ {k : Nat} {s : Side}, (bs[k]?).map Bracket.side = some s →
      ∃ a, indices[k]? = some a := by
    intro k s hk
    obtain ⟨b, hb, -⟩ := Option.map_eq_some_iff.mp hk
    have hlt : k < indices.length := by
      rw [hm.length_eq]
      exact (List.getElem?_eq_some_iff.mp hb).1
    exact ⟨indices[k], List.getElem?_eq_getElem hlt⟩
  obtain ⟨a, ha⟩ := hplace h.left
  obtain ⟨b, hb⟩ := hplace h.right
  have hsame : ∀ l ∈ cursors.map (nestingIndices bs), l[i]? = l[j]? := by
    intro l hl
    obtain ⟨c, -, rfl⟩ := List.mem_map.mp hl
    exact pairsAgree_nestingIndices bs c i j h
  rw [ha, hb, ((hm.leastAt i a ha).congr hsame).unique (hm.leastAt j b hb)]

/-- The scopes are the pairs of a stack exactly if the merged indices keep brackets apart. -/
theorem pairs_eq_iff (hm : Merged bs cursors indices) (hbs : Located bs) :
    (pairBrackets bs indices).map Scope.brackets = lifoPairs bs ↔ KeptApart bs indices :=
  pairs_eq_lifoPairs_iff hbs hm.length_eq hm.pairsAgree

/-- What the merged index of a pair says about the counts of the single cursors. -/
theorem exists_index (hm : Merged bs cursors indices) (hbs : Located bs) (hbal : Balanced bs)
    (hp : PairAt bs p i j) :
    ∃ a, indices[i]? = some a ∧ indices[j]? = some a ∧
      (∀ n, a.inner ≤ n ↔ ∃ c ∈ cursors, innerCount bs c p ≤ n) ∧
      ∀ n, a.outer.AtMost n ↔
        ∃ c ∈ cursors, 0 < outerCount bs c p ∧ outerCount bs c p ≤ n + 1 := by
  have hi : i < indices.length := by
    rw [hm.length_eq]
    exact (List.getElem?_eq_some_iff.mp hp.fst).1
  have ha : indices[i]? = some indices[i] := List.getElem?_eq_getElem hi
  have hleast := hm.leastAt i _ ha
  have hindex : ∀ P : NestingIndex → Prop,
      (∃ l ∈ cursors.map (nestingIndices bs), ∃ x, l[i]? = some x ∧ P x) ↔
        ∃ c ∈ cursors, P (pairIndex bs c p) := by
    intro P
    simp only [List.mem_map, exists_exists_and_eq_and]
    refine exists_congr fun c => and_congr_right fun _ => ?_
    rw [(getElem?_nestingIndices_eq_pairIndex hbal hbs hp).1]
    simp
  have hatMost : ∀ k n, (Outer.ofCrossed k).AtMost n ↔ 0 < k ∧ k ≤ n + 1 := by
    intro k n
    cases k with
    | zero => simp [Outer.ofCrossed, Outer.AtMost]
    | succ k => simp [Outer.ofCrossed, Outer.AtMost]
  refine ⟨indices[i], ha, ?_, fun n => ?_, fun n => ?_⟩
  · rw [← hm.pairsAgree i j hp.matched, ha]
  · rw [hleast.inner_le_iff, hindex]
    rfl
  · rw [hleast.outer_atMost_iff, hindex]
    refine exists_congr fun c => and_congr_right fun _ => ?_
    rw [pairIndex, hatMost]

end Merged

/-! ### Pairs around a pair -/

/-- The number of pairs that contain a pair. -/
def containerCount (bs : List Bracket) (p : Bracket × Bracket) : Nat :=
  (lifoPairs bs).countP fun q => Contains q p

/-- Seen from inside a pair, the enclosing pairs are those around it and those counted for it. -/
theorem outerCount_add_containerCount (hbs : Located bs) (hp : p ∈ lifoPairs bs)
    (hen : Encloses p cursor) :
    outerCount bs cursor p + containerCount bs p = enclosingCount bs cursor := by
  refine (countP_eq_add (fun q hq => ?_) (fun q hq h => h.1.2 h.2)).symm
  have : Contains q p → Encloses q cursor := fun h => h.encloses hen hbs hp hq
  tauto

/-- Seen from elsewhere, fewer of the pairs around it enclose the cursor. -/
theorem enclosingCount_le (bs : List Bracket) (cursor : Nat) (p : Bracket × Bracket) :
    enclosingCount bs cursor ≤ outerCount bs cursor p + containerCount bs p := by
  have hsum : enclosingCount bs cursor = outerCount bs cursor p +
      (lifoPairs bs).countP (fun q => Encloses q cursor ∧ Contains q p) :=
    countP_eq_add (fun q _ => by tauto) (fun q _ => by tauto)
  have hle : (lifoPairs bs).countP (fun q => Encloses q cursor ∧ Contains q p) ≤
      containerCount bs p := by
    refine List.countP_mono_left fun q _ h => ?_
    simp only [decide_eq_true_eq] at h ⊢
    exact h.2
  omega

theorem containerCount_lt (hp : p ∈ lifoPairs bs) (h : Contains p q) :
    containerCount bs p < containerCount bs q := by
  exact countP_lt_countP (fun r _ hr => hr.trans h) hp h (Contains.irrefl p)

theorem innerCount_lt (hq : q ∈ lifoPairs bs) (h : Contains p q) (hno : ¬ Encloses q cursor) :
    innerCount bs cursor p < innerCount bs cursor q := by
  refine countP_lt_countP (fun r _ hr => ?_) hq ⟨Or.inl rfl, hno⟩ (fun hr => ?_)
  · refine ⟨Or.inr ?_, hr.2⟩
    rcases hr.1 with rfl | hr
    · exact h
    · exact hr.trans h
  · rcases hr.1 with rfl | hr
    · exact Contains.irrefl _ h
    · exact Contains.irrefl _ (hr.trans h)

/-! ### Keeping apart in balanced brackets -/

theorem PairAt.insideAt (hp : PairAt bs p i j) (hq : PairAt bs q i' j') (hi : i < i')
    (hj : j' < j) : InsideAt bs i j' := by
  have hij' : i < j' := Nat.lt_trans hi hq.matched.lt
  refine ⟨hij', hp.matched.left, hq.matched.right, ?_⟩
  have hparts :
      between Bracket.side bs (i + 1) (j' + 1) * between Bracket.side bs (j' + 1) j = 1 := by
    rw [between_mul (by omega) hj, hp.matched.between_eq]
  rw [Residue.eq_one_iff, Residue.unopened_mul] at hparts
  omega

theorem InsideAt.lt_of_matchedAt (h : InsideAt bs i j') (hp : MatchedAt bs i j) : j' < j := by
  by_contra hge
  have hij : i + 1 ≤ j := hp.lt
  have hopen := h.unopened_eq
  rw [← between_mul hij (by omega : j ≤ j' + 1), hp.between_eq, one_mul,
    between_eq_mul hp.right (by omega)] at hopen
  simp at hopen

/-- In balanced brackets, what is to be kept apart are the pairs that contain each other. -/
theorem keptApart_iff (hbs : Located bs) (hbal : Balanced bs) :
    KeptApart bs indices ↔ ∀ p q i j i' j', PairAt bs p i j → PairAt bs q i' j' →
      Contains p q → indices[i]? ≠ indices[j']? := by
  constructor
  · intro h p q i j i' j' hp hq hcont
    obtain ⟨hi, hj⟩ := (hbs.contains_iff_places hq hp).mp hcont
    exact h i j' (hp.insideAt hq hi hj)
  · intro h i j' hin
    obtain ⟨j, hmatch⟩ := hbal.exists_right hbs hin.left
    obtain ⟨i', hmatch'⟩ := hbal.exists_left hbs hin.right
    obtain ⟨p, -, hp⟩ := hbs.exists_mem_of_matchedAt hmatch
    obtain ⟨q, -, hq⟩ := hbs.exists_mem_of_matchedAt hmatch'
    have hj := hin.lt_of_matchedAt hmatch
    have hij' := hin.lt
    have hplaces := hmatch.nested_or_apart hmatch'
    have hlt := hmatch'.lt
    exact h p q i j i' j' hp hq ((hbs.contains_iff_places hq hp).mpr (by omega))

/-! ### The depths of the cursors -/

namespace Merged

/-- A pair that encloses no cursor has a greater inner level than the pairs around it. -/
theorem index_ne_of_beside (hm : Merged bs cursors indices) (hbs : Located bs)
    (hbal : Balanced bs) (hp : PairAt bs p i j) (hq : PairAt bs q i' j') (hcont : Contains p q)
    (hno : ∀ c ∈ cursors, ¬ Encloses q c) : indices[i]? ≠ indices[j']? := by
  obtain ⟨a, ha, -, hinner, -⟩ := hm.exists_index hbs hbal hp
  obtain ⟨b, -, hb, hinner', -⟩ := hm.exists_index hbs hbal hq
  rw [ha, hb]
  intro heq
  obtain rfl := Option.some.inj heq
  -- The cursor for which the inner pair has its level gives the outer one a lesser level.
  obtain ⟨c, hc, hle⟩ := (hinner' a.inner).mp (Nat.le_refl _)
  have hlt := innerCount_lt (hbs.mem_of_pairAt hq) hcont (hno c hc)
  have := (hinner (a.inner - 1)).mpr ⟨c, hc, by omega⟩
  omega

/-- A pair that encloses one of equally deep cursors has a lesser outer level than those around
it. -/
theorem index_ne_of_encloses (hm : Merged bs cursors indices) (hbs : Located bs)
    (hbal : Balanced bs) (hdeep : EquallyDeep bs cursors) (hp : PairAt bs p i j)
    (hq : PairAt bs q i' j') (hcont : Contains p q) (hc : cursor ∈ cursors)
    (hen : Encloses q cursor) : indices[i]? ≠ indices[j']? := by
  obtain ⟨a, ha, -, -, houter⟩ := hm.exists_index hbs hbal hp
  obtain ⟨b, -, hb, -, houter'⟩ := hm.exists_index hbs hbal hq
  rw [ha, hb]
  intro heq
  obtain rfl := Option.some.inj heq
  have hsum := outerCount_add_containerCount hbs (hbs.mem_of_pairAt hq) hen
  have hpos := outerCount_eq_insideCount_add_one hbs (hbs.mem_of_pairAt hq) hen
  have hlt := containerCount_lt (hbs.mem_of_pairAt hp) hcont
  -- The level of the inner pair bounds that of the outer one, for some cursor of the same depth.
  obtain ⟨d, hd, hdpos, hdle⟩ :=
    (houter _).mp ((houter' (outerCount bs cursor q - 1)).mpr ⟨cursor, hc, by omega, by omega⟩)
  have hle := enclosingCount_le bs d p
  have hge := outerCount_le_enclosingCount bs d p
  have hdepth := hdeep cursor hc d hd (by omega) (by omega)
  omega

/-- Equally deep cursors keep brackets apart. -/
theorem keptApart_of_equallyDeep (hm : Merged bs cursors indices) (hbs : Located bs)
    (hbal : Balanced bs) (hdeep : EquallyDeep bs cursors) : KeptApart bs indices := by
  rw [keptApart_iff hbs hbal]
  intro p q i j i' j' hp hq hcont
  by_cases hen : ∃ c ∈ cursors, Encloses q c
  · obtain ⟨c, hc, hen⟩ := hen
    exact hm.index_ne_of_encloses hbs hbal hdeep hp hq hcont hc hen
  · exact hm.index_ne_of_beside hbs hbal hp hq hcont fun c hc h => hen ⟨c, hc, h⟩

/-- On the mainline of a cursor, the merged index is a level at most the one for this cursor. -/
theorem exists_level_le (hm : Merged bs cursors indices) (hbs : Located bs) (hbal : Balanced bs)
    (hc : cursor ∈ cursors) (hp : PairAt bs p i j) (hen : Encloses p cursor) :
    ∃ l ≤ insideCount bs cursor p, indices[i]? = some ⟨.level l, 0⟩ ∧
      indices[j]? = some ⟨.level l, 0⟩ := by
  obtain ⟨⟨outer, inner⟩, ha, hb, hinner, houter⟩ := hm.exists_index hbs hbal hp
  have hzero : inner ≤ 0 :=
    (hinner 0).mpr ⟨cursor, hc, by
      rw [(innerCount_eq_zero_iff hbs (hbs.mem_of_pairAt hp)).mpr hen]⟩
  have hcount := outerCount_eq_insideCount_add_one hbs (hbs.mem_of_pairAt hp) hen
  have hlevel : outer.AtMost (insideCount bs cursor p) :=
    (houter _).mpr ⟨cursor, hc, by omega, by omega⟩
  obtain rfl : inner = 0 := Nat.le_zero.mp hzero
  cases outer with
  | unreachable => exact absurd hlevel id
  | level l => exact ⟨l, hlevel, ha, hb⟩

/-- If brackets are kept apart, the mainline of a cursor has all its levels, and so its outermost
pair is as far from every other cursor that has a mainline. -/
theorem enclosingCount_le_of_keptApart (hm : Merged bs cursors indices) (hbs : Located bs)
    (hbal : Balanced bs) (hkept : KeptApart bs indices) {c d : Nat} (hc : c ∈ cursors)
    (hd : d ∈ cursors) (hdpos : 0 < enclosingCount bs d) :
    enclosingCount bs c ≤ enclosingCount bs d := by
  rcases Nat.eq_zero_or_pos (enclosingCount bs c) with hzero | hcpos
  · omega
  have hindex : ∀ p, p ∈ lifoPairs bs → Encloses p c → ∃ l, l ≤ insideCount bs c p ∧
      ∃ i j, PairAt bs p i j ∧ indices[i]? = some ⟨.level l, 0⟩ ∧
        indices[j]? = some ⟨.level l, 0⟩ := by
    intro p hp hen
    obtain ⟨i, j, hp⟩ := hbs.exists_pairAt hp
    obtain ⟨l, hle, hi, hj⟩ := hm.exists_level_le hbs hbal hc hp hen
    exact ⟨l, hle, i, j, hp, hi, hj⟩
  choose! level hle hplaces using hindex
  have hapart : ∀ p ∈ lifoPairs bs, ∀ q ∈ lifoPairs bs, Encloses p c → Encloses q c →
      Contains p q → level p ≠ level q := by
    intro p hp q hq hpe hqe hcont heq
    obtain ⟨i, j, hp', hi, -⟩ := hplaces p hp hpe
    obtain ⟨i', j', hq', -, hj'⟩ := hplaces q hq hqe
    exact (keptApart_iff hbs hbal).mp hkept p q i j i' j' hp' hq' hcont (by rw [hi, hj', heq])
  have hinj : ∀ p ∈ lifoPairs bs, ∀ q ∈ lifoPairs bs, Encloses p c → Encloses q c →
      level p = level q → p = q := by
    intro p hp q hq hpe hqe heq
    rcases hbs.chain hp hq hpe hqe with h | h | h
    · exact h
    · exact absurd heq (hapart p hp q hq hpe hqe h)
    · exact absurd heq.symm (hapart q hq p hp hqe hpe h)
  have hlt : ∀ p ∈ lifoPairs bs, Encloses p c → level p < enclosingCount bs c := fun p hp hen =>
    Nat.lt_of_le_of_lt (hle p hp hen) (insideCount_lt_enclosingCount hbs hp hen)
  -- The pair with the greatest level has all others of the mainline inside.
  obtain ⟨p, hp, hen, hlevel⟩ := exists_level hbs hlt hinj (Nat.sub_lt hcpos Nat.one_pos)
  have hinside := hle p hp hen
  have houtermost : ∀ q ∈ lifoPairs bs, ¬ Contains q p := by
    intro q hq hcont
    have hqe := hcont.encloses hen hbs hp hq
    have := insideCount_lt_of_contains hbs hp hen hcont
    have := insideCount_lt_enclosingCount hbs hq hqe
    omega
  -- So the other cursor crosses all of its own mainline on the way to this pair.
  have hall : outerCount bs d p = enclosingCount bs d := by
    refine List.countP_congr fun q hq => ?_
    simp [houtermost q hq]
  obtain ⟨i, j, hp', hi, -⟩ := hplaces p hp hen
  obtain ⟨a, ha, -, -, houter⟩ := hm.exists_index hbs hbal hp'
  rw [hi] at ha
  obtain rfl := Option.some.inj ha
  have hbound : level p ≤ enclosingCount bs d - 1 :=
    (houter _).mpr ⟨d, hd, by omega, by omega⟩
  omega

/-- **The depths of the cursors** decide, in balanced brackets, whether brackets are kept apart. -/
theorem keptApart_iff_equallyDeep (hm : Merged bs cursors indices) (hbs : Located bs)
    (hbal : Balanced bs) : KeptApart bs indices ↔ EquallyDeep bs cursors := by
  refine ⟨fun hkept c hc d hd hcpos hdpos => ?_, hm.keptApart_of_equallyDeep hbs hbal⟩
  exact Nat.le_antisymm (hm.enclosingCount_le_of_keptApart hbs hbal hkept hc hd hdpos)
    (hm.enclosingCount_le_of_keptApart hbs hbal hkept hd hc hcpos)

end Merged

/-! ### The scopes -/

/-- A scope whose brackets are a supported pair is not inconsistent. -/
theorem Role.ofScope_ne_inconsistent {supported : List BracketPair} {s : Scope}
    (h : s.IsConsistent supported) (cursors : List Nat) :
    Role.ofScope supported cursors s ≠ .ok .inconsistent := by
  rw [Role.ofScope, if_neg (not_not.mpr h)]
  intro heq
  split at heq
  · cases heq
  · split at heq
    · split at heq <;> cases heq
    · split at heq
      · cases heq
      · split at heq <;> cases heq

/-- **Several cursors.** The indices of the cursors can be merged. The scopes are then the pairs of
a stack exactly if the merged indices keep brackets apart, and in balanced brackets exactly if the
cursors are equally deep. If so, the scopes never cross, and none is inconsistent where every pair
is spelled as it should. -/
theorem brackets_pairBrackets_mergeIndices (hbs : Located bs) (hne : cursors ≠ []) :
    ∃ indices, mergeIndices (cursors.map (nestingIndices bs)) = .ok indices ∧
      ((pairBrackets bs indices).map Scope.brackets = lifoPairs bs ↔ KeptApart bs indices) ∧
      (Balanced bs → ((pairBrackets bs indices).map Scope.brackets = lifoPairs bs ↔
        EquallyDeep bs cursors)) ∧
      ((pairBrackets bs indices).map Scope.brackets = lifoPairs bs →
        (∀ s ∈ pairBrackets bs indices, ∀ t ∈ pairBrackets bs indices,
          s.brackets = t.brackets ∨ Contains s.brackets t.brackets ∨
            Contains t.brackets s.brackets ∨ s.right.region.stop ≤ t.left.position ∨
            t.right.region.stop ≤ s.left.position) ∧
        ∀ supported : List BracketPair,
          (∀ p ∈ lifoPairs bs, ⟨p.1.text, p.2.text⟩ ∈ supported) →
          ∀ s ∈ pairBrackets bs indices,
            Role.ofScope supported cursors s ≠ .ok .inconsistent) := by
  obtain ⟨indices, hok, hm⟩ := exists_merged bs hne
  refine ⟨indices, hok, hm.pairs_eq_iff hbs, fun hbal => ?_, fun hpairs => ?_⟩
  · rw [hm.pairs_eq_iff hbs, hm.keptApart_iff_equallyDeep hbs hbal]
  · have hmem : ∀ s ∈ pairBrackets bs indices, s.brackets ∈ lifoPairs bs := fun s hs => by
      rw [← hpairs]
      exact List.mem_map_of_mem hs
    exact ⟨fun s hs t ht => hbs.nested_or_apart (hmem s hs) (hmem t ht),
      fun supported hspelled s hs =>
        Role.ofScope_ne_inconsistent (hspelled _ (hmem s hs)) cursors⟩

/-- The brackets of `([])`. -/
def squareInRound : List Bracket :=
  [⟨.left, 0, "("⟩, ⟨.left, 1, "["⟩, ⟨.right, 2, "]"⟩, ⟨.right, 3, ")"⟩]

theorem located_squareInRound : Located squareInRound := ⟨by decide, by decide⟩

theorem lifoPairs_squareInRound : lifoPairs squareInRound =
    [(⟨.left, 0, "("⟩, ⟨.right, 3, ")"⟩), (⟨.left, 1, "["⟩, ⟨.right, 2, "]"⟩)] :=
  lifoPairs_eq_closings located_squareInRound

theorem balanced_squareInRound : Balanced squareInRound := by
  rw [Balanced, lifoPairs_squareInRound]
  decide

/-- Cursors around the square brackets are equally deep. -/
theorem brackets_pairBrackets_around :
    Located squareInRound ∧ [1, 3] ≠ [] ∧ Balanced squareInRound ∧
      ∃ indices, mergeIndices ([1, 3].map (nestingIndices squareInRound)) = .ok indices ∧
        (pairBrackets squareInRound indices).map Scope.brackets =
          [(⟨.left, 0, "("⟩, ⟨.right, 3, ")"⟩), (⟨.left, 1, "["⟩, ⟨.right, 2, "]"⟩)] := by
  have hdeep : EquallyDeep squareInRound [1, 3] := by
    rw [EquallyDeep]
    simp only [enclosingCount, lifoPairs_squareInRound]
    decide
  obtain ⟨indices, hok, -, hiff, -⟩ :=
    brackets_pairBrackets_mergeIndices located_squareInRound (by decide : [1, 3] ≠ [])
  exact ⟨located_squareInRound, by decide, balanced_squareInRound, indices, hok,
    ((hiff balanced_squareInRound).mpr hdeep).trans lifoPairs_squareInRound⟩

/-- A cursor behind each left bracket of `([])` makes the scopes cross, and so each of them is
inconsistent. -/
theorem crossed_of_two_cursors :
    Located squareInRound ∧ Balanced squareInRound ∧
      ∃ indices, mergeIndices ([1, 2].map (nestingIndices squareInRound)) = .ok indices ∧
        (pairBrackets squareInRound indices).map Scope.brackets =
          [(⟨.left, 0, "("⟩, ⟨.right, 2, "]"⟩), (⟨.left, 1, "["⟩, ⟨.right, 3, ")"⟩)] ∧
        (pairBrackets squareInRound indices).map Scope.brackets ≠ lifoPairs squareInRound ∧
        ∀ s ∈ pairBrackets squareInRound indices,
          Role.ofScope [⟨"(", ")"⟩, ⟨"[", "]"⟩] [1, 2] s = .ok .inconsistent := by
  refine ⟨located_squareInRound, balanced_squareInRound, List.replicate 4 .primary,
    by decide +kernel, ?_, ?_, ?_⟩ <;>
    rw [pairBrackets_eq_partners]
  · decide
  · rw [lifoPairs_squareInRound]
    decide
  · decide

end BracketPaint
