import Mathlib.Data.Finset.Card
import BracketPaint.Proofs.Nested
import BracketPaint.Proofs.SingleCursor
/-!
# What an index means

A pair **encloses** a cursor that stands between its brackets. In balanced brackets the index of a
pair is told by the pairs around it alone (`indexAt_eq_pairIndex`): the inner level counts the pair
and the pairs that contain it, as far as they do not enclose the cursor, and the outer one the
enclosing pairs that do not contain it.

Both counts come from one identity: of the pairs that reach over a stretch, some reach over the
cursor too, and the others are those to be counted (`innerCount_add`, `outerCount_add`).
-/

namespace BracketPaint

/-- The cursor stands between the brackets of the pair. -/
abbrev Encloses (p : Bracket × Bracket) (cursor : Nat) : Prop :=
  p.1.region.stop ≤ cursor ∧ cursor ≤ p.2.position

variable {bs : List Bracket} {cursor : Nat} {p q : Bracket × Bracket} {n i j i' j' : Nat}

/-- The number of pairs that enclose the cursor. -/
def enclosingCount (bs : List Bracket) (cursor : Nat) : Nat :=
  (lifoPairs bs).countP fun q => Encloses q cursor

/-- The number of pairs among a pair and those that contain it that do not enclose the cursor. -/
def innerCount (bs : List Bracket) (cursor : Nat) (p : Bracket × Bracket) : Nat :=
  (lifoPairs bs).countP fun q => (q = p ∨ Contains q p) ∧ ¬ Encloses q cursor

/-- The number of pairs that enclose the cursor and do not contain a given one. -/
def outerCount (bs : List Bracket) (cursor : Nat) (p : Bracket × Bracket) : Nat :=
  (lifoPairs bs).countP fun q => Encloses q cursor ∧ ¬ Contains q p

/-- The number of pairs that enclose the cursor inside a given one. -/
def insideCount (bs : List Bracket) (cursor : Nat) (p : Bracket × Bracket) : Nat :=
  (lifoPairs bs).countP fun q => Encloses q cursor ∧ Contains p q

/-- The index of a pair, from the pairs around it. -/
def pairIndex (bs : List Bracket) (cursor : Nat) (p : Bracket × Bracket) : NestingIndex :=
  ⟨.ofCrossed (outerCount bs cursor p), innerCount bs cursor p⟩

/-- The index that the walks give to a bracket. -/
def indexOf? (bs : List Bracket) (cursor : Nat) (b : Bracket) : Option NestingIndex :=
  (bs.zip (nestingIndices bs cursor)).lookup b

/-! ### Counting around a cursor -/

/-- A pair encloses the cursor if the cut lies between its places. -/
theorem PairAt.encloses_iff (hp : PairAt bs p i j) (hbs : Located bs) :
    Encloses p cursor ↔ i < bracketsBefore bs cursor ∧ bracketsBefore bs cursor ≤ j := by
  obtain ⟨l, hl, hleft⟩ := Option.map_eq_some_iff.mp hp.matched.left
  obtain ⟨r, hr, hright⟩ := Option.map_eq_some_iff.mp hp.matched.right
  rw [hp.fst] at hl
  rw [hp.snd] at hr
  obtain rfl := Option.some.inj hl
  obtain rfl := Option.some.inj hr
  rw [← Nat.not_lt (b := bracketsBefore bs cursor), hbs.left_lt_bracketsBefore_iff hp.fst hleft,
    hbs.right_lt_bracketsBefore_iff hp.snd hright, Nat.not_lt]

/-- The pairs that hold a pair, itself included, either enclose the cursor or count for the inner
level. -/
theorem innerCount_add (hbs : Located bs) (hp : PairAt bs p i j) (cursor : Nat) :
    innerCount bs cursor p +
        reaching bs (min (i + 1) (bracketsBefore bs cursor)) (max j (bracketsBefore bs cursor)) =
      reaching bs (i + 1) j := by
  have hpos := hp.matched.lt
  refine (countP_eq_add (fun q hq => ?_) (fun q hq => ?_)).symm <;>
    obtain ⟨i', j', hq⟩ := hbs.exists_pairAt hq <;>
    have hplaces := hq.matched.nested_or_apart hp.matched <;>
    rw [hq.reaches_iff hbs, hbs.eq_iff_places hp hq, hbs.contains_iff_places hp hq,
      hq.encloses_iff hbs]
  · have := hq.matched.lt
    rw [hq.reaches_iff hbs]
    omega
  · omega

/-- The pairs that enclose the cursor either contain a pair or count for its outer level. -/
theorem outerCount_add (hbs : Located bs) (hp : PairAt bs p i j) (cursor : Nat) :
    outerCount bs cursor p +
        reaching bs (min i (bracketsBefore bs cursor)) (max (j + 1) (bracketsBefore bs cursor)) =
      reaching bs (bracketsBefore bs cursor) (bracketsBefore bs cursor) := by
  refine (countP_eq_add (fun q hq => ?_) (fun q hq => ?_)).symm <;>
    obtain ⟨i', j', hq⟩ := hbs.exists_pairAt hq <;>
    rw [hq.reaches_iff hbs, hbs.contains_iff_places hp hq, hq.encloses_iff hbs]
  · rw [hq.reaches_iff hbs]
    omega
  · omega

/-! ### The index of a pair -/

/-- Before the cursor, the right bracket of the pair is met first. -/
theorem indexAt_before (hbal : Balanced bs) (hbs : Located bs) (h : MatchedAt bs i j)
    (hjn : j < n) :
    indexAt bs n i .left = ⟨.ofCrossed (reaching bs n n - reaching bs i n),
      reaching bs (i + 1) j - reaching bs (i + 1) n⟩ := by
  have hij : i + 1 ≤ j := h.lt
  have hfirst : between Bracket.side bs 0 (i + 1) =
      between Bracket.side bs 0 i * Side.left.residue :=
    between_eq_mul_last h.left (Nat.zero_le i)
  have hfar : between Bracket.side bs i n =
      Side.left.residue * between Bracket.side bs (i + 1) n :=
    between_eq_mul h.left (by omega)
  have hn : between Bracket.side bs 0 n =
      between Bracket.side bs 0 i * between Bracket.side bs i n :=
    (between_mul (Nat.zero_le i) (by omega)).symm
  have hmet : 0 < (between Bracket.side bs (i + 1) n).unopened := by
    rw [← between_mul hij (Nat.le_of_lt hjn), h.between_eq, one_mul, between_eq_mul h.right hjn,
      Residue.unopened_mul, Side.residue_right]
    dsimp only
    omega
  have hzero := hbal.unopened_eq hbs n
  rw [hn, hfar] at hzero
  rw [hbal.reaching_eq hbs (Nat.le_refl n), hbal.reaching_eq hbs (by omega),
    hbal.reaching_eq hbs hij, hbal.reaching_eq hbs (by omega), h.between_eq, between_self, hn,
    hfirst, hfar, indexAt_left_of_lt (by omega), NestingIndex.mk.injEq, Outer.ofCrossed_inj]
  simp only [Residue.unopened_mul, Residue.unclosed_mul, Residue.unopened_one,
    Side.residue_left] at hzero ⊢
  split <;> omega

/-- Around the cursor, the pair belongs to the mainline. -/
theorem indexAt_around (hbal : Balanced bs) (hbs : Located bs) (h : MatchedAt bs i j)
    (hin : i < n) (hnj : n ≤ j) :
    indexAt bs n i .left = ⟨.ofCrossed (reaching bs n n - reaching bs i (j + 1)), 0⟩ := by
  have hcut : between Bracket.side bs (i + 1) n * between Bracket.side bs n j = 1 := by
    rw [between_mul hin hnj, h.between_eq]
  have hn : between Bracket.side bs 0 n = between Bracket.side bs 0 i *
      (Side.left.residue * between Bracket.side bs (i + 1) n) := by
    rw [← between_eq_mul h.left hin, between_mul (Nat.zero_le i) (by omega)]
  rw [Residue.eq_one_iff] at hcut
  rw [hbal.reaching_eq hbs (Nat.le_refl n), hbal.reaching_eq hbs (by omega), h.between_eq_one,
    between_self, hn, indexAt_left_of_lt hin, NestingIndex.mk.injEq, Outer.ofCrossed_inj]
  simp only [Residue.unopened_mul, Residue.unclosed_mul, Residue.unopened_one,
    Side.residue_left] at hcut ⊢
  split <;> omega

/-- Behind the cursor, the left bracket of the pair is met first. -/
theorem indexAt_behind (hbal : Balanced bs) (hbs : Located bs) (h : MatchedAt bs i j)
    (hni : n ≤ i) :
    indexAt bs n i .left = ⟨.ofCrossed (reaching bs n n - reaching bs n (j + 1)),
      reaching bs (i + 1) j - reaching bs n j⟩ := by
  have hij : i + 1 ≤ j := h.lt
  have hfirst : between Bracket.side bs 0 (i + 1) =
      between Bracket.side bs 0 n * (between Bracket.side bs n i * Side.left.residue) := by
    rw [← between_eq_mul_last h.left hni, between_mul (Nat.zero_le n) (by omega)]
  have hj : between Bracket.side bs n j = between Bracket.side bs n i * Side.left.residue := by
    rw [← between_eq_mul_last h.left hni, ← between_mul (by omega : n ≤ i + 1) hij, h.between_eq,
      mul_one]
  have hj' : between Bracket.side bs n (j + 1) = between Bracket.side bs n i := by
    rw [← between_mul hni (by omega), h.between_eq_one, mul_one]
  have hzero := hbal.unopened_eq hbs (i + 1)
  rw [hfirst] at hzero
  rw [hbal.reaching_eq hbs (Nat.le_refl n), hbal.reaching_eq hbs (by omega),
    hbal.reaching_eq hbs hij, hbal.reaching_eq hbs (by omega), h.between_eq, between_self, hfirst,
    hj, hj', indexAt_left_of_le hni, NestingIndex.mk.injEq, Outer.ofCrossed_inj]
  simp only [Residue.unopened_mul, Residue.unclosed_mul, Residue.unopened_one,
    Side.residue_left] at hzero ⊢
  omega

/-- **The index of a pair** in balanced brackets counts the pairs around it. -/
theorem indexAt_eq_pairIndex (hbal : Balanced bs) (hbs : Located bs) (hp : PairAt bs p i j) :
    indexAt bs (bracketsBefore bs cursor) i .left = pairIndex bs cursor p := by
  have hinner := innerCount_add hbs hp cursor
  have houter := outerCount_add hbs hp cursor
  have hij : i + 1 ≤ j := hp.matched.lt
  rw [pairIndex]
  generalize bracketsBefore bs cursor = n at hinner houter ⊢
  rcases Nat.lt_or_ge j n with hjn | hnj
  · rw [Nat.min_eq_left (by omega), Nat.max_eq_right (by omega)] at hinner houter
    rw [indexAt_before hbal hbs hp.matched hjn, ← hinner, ← houter, Nat.add_sub_cancel,
      Nat.add_sub_cancel]
  · rcases Nat.lt_or_ge i n with hin | hni
    · rw [Nat.min_eq_left (by omega), Nat.max_eq_left (by omega)] at hinner houter
      rw [indexAt_around hbal hbs hp.matched hin hnj, ← houter, Nat.add_sub_cancel,
        Nat.add_eq_right.mp hinner]
    · rw [Nat.min_eq_right (by omega), Nat.max_eq_left (by omega)] at hinner houter
      rw [indexAt_behind hbal hbs hp.matched hni, ← hinner, ← houter, Nat.add_sub_cancel,
        Nat.add_sub_cancel]

/-- Both brackets of a pair get the index of the pair. -/
theorem getElem?_nestingIndices_eq_pairIndex (hbal : Balanced bs) (hbs : Located bs)
    (hp : PairAt bs p i j) :
    (nestingIndices bs cursor)[i]? = some (pairIndex bs cursor p) ∧
      (nestingIndices bs cursor)[j]? = some (pairIndex bs cursor p) := by
  have hleft : (nestingIndices bs cursor)[i]? = some (pairIndex bs cursor p) := by
    rw [getElem?_nestingIndices_of_side hp.matched.left, indexAt_eq_pairIndex hbal hbs hp]
  exact ⟨hleft, by rw [← pairsAgree_nestingIndices bs cursor i j hp.matched, hleft]⟩

/-! ### Pairs that enclose the cursor -/

theorem Contains.encloses (h : Contains q p) (hp : Encloses p cursor) (hbs : Located bs)
    (hmem : p ∈ lifoPairs bs) (hmem' : q ∈ lifoPairs bs) : Encloses q cursor := by
  obtain ⟨i, j, hp'⟩ := hbs.exists_pairAt hmem
  obtain ⟨i', j', hq'⟩ := hbs.exists_pairAt hmem'
  rw [hbs.contains_iff_places hp' hq'] at h
  rw [hp'.encloses_iff hbs] at hp
  rw [hq'.encloses_iff hbs]
  omega

/-- Pairs that enclose one cursor lie one in the other. -/
theorem Located.chain (hbs : Located bs) (hmem : p ∈ lifoPairs bs) (hmem' : q ∈ lifoPairs bs)
    (hp : Encloses p cursor) (hq : Encloses q cursor) : p = q ∨ Contains p q ∨ Contains q p := by
  obtain ⟨i, j, hp'⟩ := hbs.exists_pairAt hmem
  obtain ⟨i', j', hq'⟩ := hbs.exists_pairAt hmem'
  have hplaces := hp'.matched.nested_or_apart hq'.matched
  rw [hp'.encloses_iff hbs] at hp
  rw [hq'.encloses_iff hbs] at hq
  rw [hbs.eq_iff_places hq' hp', hbs.contains_iff_places hq' hp', hbs.contains_iff_places hp' hq']
  omega

/-- The inner level is zero on the mainline, which encloses the cursor. -/
theorem innerCount_eq_zero_iff (hbs : Located bs) (hp : p ∈ lifoPairs bs) :
    innerCount bs cursor p = 0 ↔ Encloses p cursor := by
  rw [innerCount, List.countP_eq_zero]
  simp only [decide_eq_true_eq]
  constructor
  · intro h
    by_contra hno
    exact h p hp ⟨Or.inl rfl, hno⟩
  · rintro hen q hq ⟨rfl | hcont, hno⟩
    · exact hno hen
    · exact hno (hcont.encloses hen hbs hp hq)

/-- On the mainline, the outer level counts the enclosing pairs inside. -/
theorem outerCount_eq_insideCount_add_one (hbs : Located bs) (hp : p ∈ lifoPairs bs)
    (hen : Encloses p cursor) : outerCount bs cursor p = insideCount bs cursor p + 1 := by
  rw [← hbs.countP_eq_one hp]
  refine countP_eq_add (fun q hq => ?_) (fun q hq => ?_)
  · constructor
    · intro hex
      obtain ⟨hq', hno⟩ := hex
      rcases hbs.chain hp hq hen hq' with rfl | h | h
      · exact Or.inr rfl
      · exact Or.inl ⟨hq', h⟩
      · exact absurd h hno
    · intro hor
      rcases hor with ⟨hq', h⟩ | rfl
      · exact ⟨hq', fun h' => by omega⟩
      · exact ⟨hen, fun h' => by omega⟩
  · intro hex
    obtain ⟨⟨-, h⟩, rfl⟩ := hex
    omega

theorem outerCount_le_enclosingCount (bs : List Bracket) (cursor : Nat) (p : Bracket × Bracket) :
    outerCount bs cursor p ≤ enclosingCount bs cursor := by
  refine List.countP_mono_left fun q _ h => ?_
  simp only [decide_eq_true_eq] at h ⊢
  exact h.1

theorem insideCount_lt_enclosingCount (hbs : Located bs) (hp : p ∈ lifoPairs bs)
    (hen : Encloses p cursor) : insideCount bs cursor p < enclosingCount bs cursor := by
  have hle := outerCount_le_enclosingCount bs cursor p
  rwa [outerCount_eq_insideCount_add_one hbs hp hen] at hle

/-- Going outwards on the mainline, the level grows. -/
theorem insideCount_lt_of_contains (hbs : Located bs) (hq : q ∈ lifoPairs bs)
    (hen : Encloses q cursor) (h : Contains p q) :
    insideCount bs cursor q < insideCount bs cursor p := by
  have hle : outerCount bs cursor q ≤ insideCount bs cursor p := by
    refine List.countP_mono_left fun x hx hout => ?_
    simp only [decide_eq_true_eq] at hout ⊢
    refine ⟨hout.1, ?_⟩
    rcases hbs.chain hq hx hen hout.1 with rfl | hin | hin
    · exact h
    · omega
    · exact absurd hin hout.2
  rwa [outerCount_eq_insideCount_add_one hbs hq hen] at hle

theorem insideCount_inj (hbs : Located bs) (hp : p ∈ lifoPairs bs) (hq : q ∈ lifoPairs bs)
    (hpe : Encloses p cursor) (hqe : Encloses q cursor)
    (h : insideCount bs cursor p = insideCount bs cursor q) : p = q := by
  rcases hbs.chain hp hq hpe hqe with heq | hin | hin
  · exact heq
  · have := insideCount_lt_of_contains hbs hq hqe hin
    omega
  · have := insideCount_lt_of_contains hbs hp hpe hin
    omega

/-- If the pairs of a mainline have different levels and all are small, every small level occurs. -/
theorem exists_level (hbs : Located bs) {level : Bracket × Bracket → Nat}
    (hlt : ∀ p ∈ lifoPairs bs, Encloses p cursor → level p < enclosingCount bs cursor)
    (hinj : ∀ p ∈ lifoPairs bs, ∀ q ∈ lifoPairs bs, Encloses p cursor → Encloses q cursor →
      level p = level q → p = q) {l : Nat} (hl : l < enclosingCount bs cursor) :
    ∃ p ∈ lifoPairs bs, Encloses p cursor ∧ level p = l := by
  -- The pairs of the mainline are as many as the levels, so distinct levels leave none out.
  let mainline := ((lifoPairs bs).filter fun p => Encloses p cursor).toFinset
  have hmem : ∀ p, p ∈ mainline ↔ p ∈ lifoPairs bs ∧ Encloses p cursor := fun p => by
    rw [List.mem_toFinset, List.mem_filter, decide_eq_true_eq]
  have hcard : (Finset.range (enclosingCount bs cursor)).card ≤ mainline.card := by
    rw [Finset.card_range, List.toFinset_card_of_nodup (hbs.nodup_lifoPairs.filter _),
      ← List.countP_eq_length_filter]
    rfl
  have hsurj := Finset.surjOn_of_injOn_of_card_le level
    (fun p hp => by
      have hp := (hmem p).mp hp
      simpa using hlt p hp.1 hp.2)
    (fun p hp q hq h => by
      have hp := (hmem p).mp hp
      have hq := (hmem q).mp hq
      exact hinj p hp.1 q hq.1 hp.2 hq.2 h) hcard
  obtain ⟨p, hp, heq⟩ := hsurj (by simpa using hl)
  have hp := (hmem p).mp hp
  exact ⟨p, hp.1, hp.2, heq⟩

/-! ### Indices of brackets -/

theorem lookup_zip {α β : Type} [BEq α] [LawfulBEq α] {as : List α} {cs : List β} {a : α} {i : Nat}
    (has : as.Nodup) (ha : as[i]? = some a) : (as.zip cs).lookup a = cs[i]? := by
  induction as generalizing cs i with
  | nil => simp at ha
  | cons a' as ih =>
      obtain ⟨hnot, has⟩ := List.nodup_cons.mp has
      cases cs with
      | nil => rfl
      | cons c cs =>
          rw [List.zip_cons_cons]
          cases i with
          | zero =>
              obtain rfl : a' = a := by simpa using ha
              exact List.lookup_cons_self
          | succ i =>
              rw [List.getElem?_cons_succ] at ha ⊢
              have hne : (a == a') = false :=
                beq_false_of_ne fun h => hnot (h ▸ List.mem_of_getElem? ha)
              rw [List.lookup_cons, hne]
              exact ih has ha

theorem indexOf?_eq_pairIndex (hbal : Balanced bs) (hbs : Located bs) (hp : p ∈ lifoPairs bs) :
    indexOf? bs cursor p.1 = some (pairIndex bs cursor p) ∧
      indexOf? bs cursor p.2 = some (pairIndex bs cursor p) := by
  obtain ⟨i, j, hp⟩ := hbs.exists_pairAt hp
  rw [indexOf?, indexOf?, lookup_zip hbs.nodup hp.fst, lookup_zip hbs.nodup hp.snd]
  exact getElem?_nestingIndices_eq_pairIndex hbal hbs hp

/-- The pairs of the mainline are those with the level that counts the enclosing pairs inside. -/
theorem pairIndex_eq_level_iff (hbs : Located bs) (hp : p ∈ lifoPairs bs) {l : Nat} :
    pairIndex bs cursor p = ⟨.level l, 0⟩ ↔
      Encloses p cursor ∧ insideCount bs cursor p = l := by
  have hlevel : Outer.level l = .ofCrossed (l + 1) := rfl
  rw [pairIndex, NestingIndex.mk.injEq, hlevel, Outer.ofCrossed_inj, innerCount_eq_zero_iff hbs hp,
    and_comm]
  refine and_congr_right fun hen => ?_
  rw [outerCount_eq_insideCount_add_one hbs hp hen]
  omega

/-- **The meaning of an index.** In balanced brackets, both brackets of a pair have the same index,
which counts the pairs around it. The pairs that enclose the cursor are those with inner level zero.
Their outer levels count the enclosing pairs inside, and each small level belongs to one of them. -/
theorem nestingIndices_of_balanced (hbs : Located bs) (hbal : Balanced bs) (cursor : Nat) :
    (∀ p ∈ lifoPairs bs, indexOf? bs cursor p.1 = some (pairIndex bs cursor p) ∧
      indexOf? bs cursor p.2 = some (pairIndex bs cursor p)) ∧
    (∀ p ∈ lifoPairs bs, (pairIndex bs cursor p).inner = 0 ↔ Encloses p cursor) ∧
    (∀ p ∈ lifoPairs bs, Encloses p cursor →
      (pairIndex bs cursor p).outer = .level (insideCount bs cursor p)) ∧
    ∀ l < enclosingCount bs cursor,
      ∃! p, p ∈ lifoPairs bs ∧ indexOf? bs cursor p.1 = some ⟨.level l, 0⟩ := by
  refine ⟨fun p hp => indexOf?_eq_pairIndex hbal hbs hp,
    fun p hp => innerCount_eq_zero_iff hbs hp, fun p hp hen => ?_, fun l hl => ?_⟩
  · exact congrArg NestingIndex.outer ((pairIndex_eq_level_iff hbs hp).mpr ⟨hen, rfl⟩)
  · have hindex : ∀ p, p ∈ lifoPairs bs ∧ indexOf? bs cursor p.1 = some ⟨.level l, 0⟩ ↔
        p ∈ lifoPairs bs ∧ Encloses p cursor ∧ insideCount bs cursor p = l := fun p => by
      refine and_congr_right fun hp => ?_
      rw [(indexOf?_eq_pairIndex hbal hbs hp).1, Option.some_inj, pairIndex_eq_level_iff hbs hp]
    obtain ⟨p, hp, hen, hlevel⟩ := exists_level hbs
      (fun p hp hen => insideCount_lt_enclosingCount hbs hp hen)
      (fun p hp q hq hpe hqe h => insideCount_inj hbs hp hq hpe hqe h) hl
    refine ⟨p, (hindex p).mpr ⟨hp, hen, hlevel⟩, fun q hq => ?_⟩
    obtain ⟨hq, hqe, hqlevel⟩ := (hindex q).mp hq
    exact insideCount_inj hbs hq hp hqe hen (by rw [hqlevel, hlevel])

/-- In `begin()end`, the cursor standing before the round brackets: they do not enclose it. -/
theorem nestingIndices_begin_end :
    Located [⟨.left, 0, "begin"⟩, ⟨.left, 5, "("⟩, ⟨.right, 6, ")"⟩, ⟨.right, 7, "end"⟩] ∧
      Balanced [⟨.left, 0, "begin"⟩, ⟨.left, 5, "("⟩, ⟨.right, 6, ")"⟩, ⟨.right, 7, "end"⟩] ∧
      indexOf? [⟨.left, 0, "begin"⟩, ⟨.left, 5, "("⟩, ⟨.right, 6, ")"⟩, ⟨.right, 7, "end"⟩] 5
        ⟨.right, 7, "end"⟩ = some ⟨.level 0, 0⟩ ∧
      indexOf? [⟨.left, 0, "begin"⟩, ⟨.left, 5, "("⟩, ⟨.right, 6, ")"⟩, ⟨.right, 7, "end"⟩] 5
        ⟨.left, 5, "("⟩ = some ⟨.unreachable, 1⟩ := by
  have hbs : Located [⟨.left, 0, "begin"⟩, ⟨.left, 5, "("⟩, ⟨.right, 6, ")"⟩, ⟨.right, 7, "end"⟩] :=
    ⟨by decide, by decide⟩
  have hpairs : lifoPairs
      [⟨.left, 0, "begin"⟩, ⟨.left, 5, "("⟩, ⟨.right, 6, ")"⟩, ⟨.right, 7, "end"⟩] =
      [(⟨.left, 0, "begin"⟩, ⟨.right, 7, "end"⟩), (⟨.left, 5, "("⟩, ⟨.right, 6, ")"⟩)] :=
    lifoPairs_eq_closings hbs
  have hbal : Balanced
      [⟨.left, 0, "begin"⟩, ⟨.left, 5, "("⟩, ⟨.right, 6, ")"⟩, ⟨.right, 7, "end"⟩] := by
    rw [Balanced, hpairs]
    decide
  have hindex := (nestingIndices_of_balanced hbs hbal 5).1
  rw [hpairs] at hindex
  refine ⟨hbs, hbal, (hindex _ List.mem_cons_self).2.trans ?_,
    (hindex _ (List.mem_cons_of_mem _ List.mem_cons_self)).1.trans ?_⟩ <;>
    rw [pairIndex, outerCount, innerCount, hpairs] <;>
    decide

end BracketPaint
