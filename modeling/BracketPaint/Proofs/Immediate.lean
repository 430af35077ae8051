import BracketPaint.Proofs.SeveralCursors
/-!
# Which brackets are primary

With one cursor, the index `.primary` belongs to the innermost pair that encloses it. With several
cursors that pair keeps the index, but others may get it too: the inner level of a merged index is
zero as soon as one cursor is enclosed, and the outer level is zero as soon as some cursor, maybe
another one, has a single pair of its mainline to cross. In `(())()` with a cursor in each innermost
pair, the pair around the first cursor that is not innermost gets its inner level from that cursor
and its outer level from the other one (`primary_not_innermost`).

`merged_eq_primary_iff` says which brackets are primary. Where all cursors are equally deep, they
are those of the innermost pairs.
-/

namespace BracketPaint

variable {bs : List Bracket} {c d : Nat} {cursors : List Nat} {p q : Bracket × Bracket}
  {i j : Nat} {indices : List NestingIndex}

/-- The pair is the innermost one that encloses the cursor. -/
structure Innermost (bs : List Bracket) (cursor : Nat) (p : Bracket × Bracket) : Prop where
  mem : p ∈ lifoPairs bs
  encloses : Encloses p cursor
  not_contains : ∀ q ∈ lifoPairs bs, Encloses q cursor → ¬ Contains p q

/-- The first pair does not contain the second one, but all pairs around the first one do. -/
def Beside (bs : List Bracket) (q p : Bracket × Bracket) : Prop :=
  ¬ Contains q p ∧ ∀ r ∈ lifoPairs bs, Contains r q → Contains r p

theorem beside_self (bs : List Bracket) (p : Bracket × Bracket) : Beside bs p p :=
  ⟨Contains.irrefl p, fun _ _ h => h⟩

/-! ### One pair to cross -/

theorem Innermost.eq_or_contains (h : Innermost bs c p) (hbs : Located bs)
    (hq : q ∈ lifoPairs bs) (hen : Encloses q c) : q = p ∨ Contains q p := by
  rcases hbs.chain h.mem hq h.encloses hen with rfl | hin | hin
  · exact Or.inl rfl
  · exact absurd hin (h.not_contains q hq hen)
  · exact Or.inr hin

/-- On the way to a pair a cursor crosses one pair of its mainline exactly if its innermost pair
stands beside that pair. -/
theorem outerCount_eq_one_iff (hbs : Located bs) :
    outerCount bs d p = 1 ↔ ∃ q, Innermost bs d q ∧ Beside bs q p := by
  constructor
  · intro h
    rw [outerCount, List.countP_eq_length_filter, List.length_eq_one_iff] at h
    obtain ⟨q, hq⟩ := h
    have hiff : ∀ r, r ∈ lifoPairs bs ∧ Encloses r d ∧ ¬ Contains r p ↔ r = q := by
      intro r
      rw [← List.mem_singleton, ← hq, List.mem_filter, decide_eq_true_eq]
    obtain ⟨hmem, hen, hno⟩ := (hiff q).mpr rfl
    refine ⟨q, ⟨hmem, hen, ?_⟩, hno, ?_⟩
    · intro r hr hr' hcont
      have hrq : r = q := (hiff r).mp ⟨hr, hr', fun h => hno (hcont.trans h)⟩
      subst hrq
      exact Contains.irrefl _ hcont
    · intro r hr hcont
      by_contra hrp
      have hrq : r = q := (hiff r).mp ⟨hr, hcont.encloses hen hbs hmem hr, hrp⟩
      subst hrq
      exact Contains.irrefl _ hcont
  · intro hex
    obtain ⟨q, hq, hno, hall⟩ := hex
    rw [← hbs.countP_eq_one hq.mem]
    refine List.countP_congr fun r hr => ?_
    rw [decide_eq_true_eq, decide_eq_true_eq]
    constructor
    · intro h
      rcases hq.eq_or_contains hbs hr h.1 with hrq | hcont
      · exact hrq
      · exact absurd (hall r hr hcont) h.2
    · rintro rfl
      exact ⟨hq.encloses, hno⟩

/-- A pair that encloses a cursor is the innermost one if it has no other to cross. -/
theorem innermost_of_outerCount_le_one (hbs : Located bs) (hp : p ∈ lifoPairs bs)
    (hen : Encloses p c) (h : outerCount bs c p ≤ 1) : Innermost bs c p := by
  have hinside : insideCount bs c p = 0 := by
    have := outerCount_eq_insideCount_add_one hbs hp hen
    omega
  rw [insideCount, List.countP_eq_zero] at hinside
  refine ⟨hp, hen, fun q hq hq' hcont => hinside q hq ?_⟩
  rw [decide_eq_true_eq]
  exact ⟨hq', hcont⟩

/-! ### Merged indices -/

theorem NestingIndex.eq_primary_iff {a : NestingIndex} :
    a = .primary ↔ a.inner ≤ 0 ∧ a.outer.AtMost 0 := by
  obtain ⟨outer, inner⟩ := a
  cases outer <;> simp [primary, Outer.AtMost, and_comm]

namespace Merged

/-- Both levels of a pair are zero if a cursor is enclosed and some cursor has one pair to cross. -/
theorem eq_primary_iff (hm : Merged bs cursors indices) (hbs : Located bs) (hbal : Balanced bs)
    (hp : PairAt bs p i j) :
    ∃ a, indices[i]? = some a ∧ indices[j]? = some a ∧ (a = .primary ↔
      (∃ c ∈ cursors, Encloses p c) ∧ ∃ d ∈ cursors, outerCount bs d p = 1) := by
  obtain ⟨a, hi, hj, hinner, houter⟩ := hm.exists_index hbs hbal hp
  refine ⟨a, hi, hj, ?_⟩
  rw [NestingIndex.eq_primary_iff, hinner, houter]
  refine and_congr (exists_congr fun c => and_congr_right fun _ => ?_)
    (exists_congr fun d => and_congr_right fun _ => ?_)
  · rw [Nat.le_zero, innerCount_eq_zero_iff hbs (hbs.mem_of_pairAt hp)]
  · omega

/-- The index that a bracket of a pair carries. -/
theorem lookup_eq_primary_iff (hm : Merged bs cursors indices) (hbs : Located bs)
    (hbal : Balanced bs) (hp : p ∈ lifoPairs bs) {b : Bracket} (hb : b = p.1 ∨ b = p.2) :
    (bs.zip indices).lookup b = some .primary ↔
      (∃ c ∈ cursors, Encloses p c) ∧ ∃ d ∈ cursors, outerCount bs d p = 1 := by
  obtain ⟨i, j, hp⟩ := hbs.exists_pairAt hp
  obtain ⟨a, hi, hj, hiff⟩ := hm.eq_primary_iff hbs hbal hp
  have hlookup : (bs.zip indices).lookup b = some a := by
    rcases hb with rfl | rfl
    · rw [lookup_zip hbs.nodup hp.fst, hi]
    · rw [lookup_zip hbs.nodup hp.snd, hj]
  rw [hlookup, Option.some_inj, hiff]

end Merged

/-- Equally deep cursors that have a pair on the way to a pair have the same way to it. -/
theorem EquallyDeep.innermost (hdeep : EquallyDeep bs cursors) (hbs : Located bs)
    (hp : p ∈ lifoPairs bs) (hc : c ∈ cursors) (hen : Encloses p c) (hd : d ∈ cursors)
    (hone : outerCount bs d p = 1) : Innermost bs c p := by
  refine innermost_of_outerCount_le_one hbs hp hen ?_
  have hsum := outerCount_add_containerCount hbs hp hen
  have hpos := outerCount_eq_insideCount_add_one hbs hp hen
  have hle := enclosingCount_le bs d p
  have hge := outerCount_le_enclosingCount bs d p
  have hdepth := hdeep c hc d hd (by omega) (by omega)
  omega

/-- **Primary brackets.** In balanced brackets, the primary ones are those of the pairs that enclose
a cursor and have the innermost pair of some cursor beside them. Those of the innermost pairs are
among them, and they are the only ones if the cursors are equally deep. -/
theorem merged_eq_primary_iff (hbs : Located bs) (hbal : Balanced bs) (hne : cursors ≠ []) :
    ∃ indices, mergeIndices (cursors.map (nestingIndices bs)) = .ok indices ∧
      (∀ b ∈ bs, (bs.zip indices).lookup b = some .primary ↔
        ∃ p ∈ lifoPairs bs, (b = p.1 ∨ b = p.2) ∧ (∃ c ∈ cursors, Encloses p c) ∧
          ∃ d ∈ cursors, ∃ q, Innermost bs d q ∧ Beside bs q p) ∧
      (∀ c ∈ cursors, ∀ p, Innermost bs c p →
        (bs.zip indices).lookup p.1 = some .primary ∧
          (bs.zip indices).lookup p.2 = some .primary) ∧
      (EquallyDeep bs cursors → ∀ b ∈ bs, (bs.zip indices).lookup b = some .primary ↔
        ∃ c ∈ cursors, ∃ p, Innermost bs c p ∧ (b = p.1 ∨ b = p.2)) := by
  obtain ⟨indices, hok, hm⟩ := exists_merged bs hne
  have hinnermost : ∀ c ∈ cursors, ∀ p, Innermost bs c p → ∀ b, b = p.1 ∨ b = p.2 →
      (bs.zip indices).lookup b = some .primary := by
    intro c hc p hp b hb
    rw [hm.lookup_eq_primary_iff hbs hbal hp.mem hb]
    exact ⟨⟨c, hc, hp.encloses⟩, c, hc,
      (outerCount_eq_one_iff hbs).mpr ⟨p, hp, beside_self bs p⟩⟩
  refine ⟨indices, hok, fun b hb => ?_, fun c hc p hp => ?_, fun hdeep b hb => ?_⟩
  · simp only [← outerCount_eq_one_iff hbs]
    constructor
    · intro hprimary
      obtain ⟨p, hp, hbp⟩ := hbal b hb
      exact ⟨p, hp, hbp, (hm.lookup_eq_primary_iff hbs hbal hp hbp).mp hprimary⟩
    · intro hex
      obtain ⟨p, hp, hbp, hcond⟩ := hex
      exact (hm.lookup_eq_primary_iff hbs hbal hp hbp).mpr hcond
  · exact ⟨hinnermost c hc p hp _ (Or.inl rfl), hinnermost c hc p hp _ (Or.inr rfl)⟩
  · constructor
    · intro hprimary
      obtain ⟨p, hp, hbp⟩ := hbal b hb
      obtain ⟨⟨c, hc, hen⟩, d, hd, hone⟩ :=
        (hm.lookup_eq_primary_iff hbs hbal hp hbp).mp hprimary
      exact ⟨c, hc, p, hdeep.innermost hbs hp hc hen hd hone, hbp⟩
    · intro hex
      obtain ⟨c, hc, p, hp, hbp⟩ := hex
      exact hinnermost c hc p hp b hbp

/-- The brackets of `(())()`. -/
def nestedAndSingle : List Bracket :=
  [⟨.left, 0, "("⟩, ⟨.left, 1, "("⟩, ⟨.right, 2, ")"⟩, ⟨.right, 3, ")"⟩, ⟨.left, 4, "("⟩,
    ⟨.right, 5, ")"⟩]

theorem located_nestedAndSingle : Located nestedAndSingle := ⟨by decide, by decide⟩

theorem lifoPairs_nestedAndSingle : lifoPairs nestedAndSingle =
    [(⟨.left, 0, "("⟩, ⟨.right, 3, ")"⟩), (⟨.left, 1, "("⟩, ⟨.right, 2, ")"⟩),
      (⟨.left, 4, "("⟩, ⟨.right, 5, ")"⟩)] :=
  lifoPairs_eq_closings located_nestedAndSingle

theorem balanced_nestedAndSingle : Balanced nestedAndSingle := by
  rw [Balanced, lifoPairs_nestedAndSingle]
  decide

/-- Cursors right inside the two outer pairs of `(())()`, which are equally deep: the outer pairs are
primary, and the pair that encloses no cursor is not. -/
theorem merged_eq_primary_apart :
    Located nestedAndSingle ∧ Balanced nestedAndSingle ∧ [1, 5] ≠ [] ∧
      ∃ indices, mergeIndices ([1, 5].map (nestingIndices nestedAndSingle)) = .ok indices ∧
        (nestedAndSingle.zip indices).lookup ⟨.left, 0, "("⟩ = some .primary ∧
        (nestedAndSingle.zip indices).lookup ⟨.left, 1, "("⟩ ≠ some .primary := by
  have hdeep : EquallyDeep nestedAndSingle [1, 5] := by
    rw [EquallyDeep]
    simp only [enclosingCount, lifoPairs_nestedAndSingle]
    decide
  have houter : Innermost nestedAndSingle 1 (⟨.left, 0, "("⟩, ⟨.right, 3, ")"⟩) := by
    refine ⟨?_, by decide, ?_⟩
    · rw [lifoPairs_nestedAndSingle]
      decide
    · rw [lifoPairs_nestedAndSingle]
      decide
  obtain ⟨indices, hok, hprimary, -, hdeepest⟩ := merged_eq_primary_iff
    located_nestedAndSingle balanced_nestedAndSingle (by decide : [1, 5] ≠ [])
  refine ⟨located_nestedAndSingle, balanced_nestedAndSingle, by decide, indices, hok,
    (hdeepest hdeep _ (by decide)).mpr ⟨1, by decide, _, houter, Or.inl rfl⟩, fun h => ?_⟩
  obtain ⟨p, hp, hb, ⟨c, hc, hen⟩, -⟩ := (hprimary _ (by decide)).mp h
  rw [lifoPairs_nestedAndSingle] at hp
  revert p
  revert c
  decide

/-- Cursors in the innermost pairs of `(())()`: the brackets around the first cursor that are not
innermost are primary too. -/
theorem primary_not_innermost :
    Located nestedAndSingle ∧ Balanced nestedAndSingle ∧
      ∃ indices, mergeIndices ([2, 5].map (nestingIndices nestedAndSingle)) = .ok indices ∧
        (nestedAndSingle.zip indices).lookup ⟨.left, 0, "("⟩ = some .primary ∧
        ¬ ∃ c ∈ [2, 5], ∃ p, Innermost nestedAndSingle c p ∧
          (⟨.left, 0, "("⟩ = p.1 ∨ ⟨.left, 0, "("⟩ = p.2) := by
  refine ⟨located_nestedAndSingle, balanced_nestedAndSingle, List.replicate 6 .primary,
    by decide +kernel, by decide, ?_⟩
  have hdeeper : ∀ p ∈ lifoPairs nestedAndSingle,
      ⟨.left, 0, "("⟩ = p.1 ∨ ⟨.left, 0, "("⟩ = p.2 → ∀ c ∈ [2, 5], Encloses p c →
        ∃ q ∈ lifoPairs nestedAndSingle, Encloses q c ∧ Contains p q := by
    rw [lifoPairs_nestedAndSingle]
    decide
  rintro ⟨c, hc, p, hp, hb⟩
  obtain ⟨q, hq, hen, hcont⟩ := hdeeper p hp.mem hb c hc hp.encloses
  exact hp.not_contains q hq hen hcont

end BracketPaint
