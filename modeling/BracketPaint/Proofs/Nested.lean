import BracketPaint.Proofs.Matching
/-!
# Pairs inside pairs

The pairs of located brackets never cross: of two of them, one is inside the other or they stand
side by side (`MatchedAt.nested_or_apart`).

Where every bracket belongs to a pair, the brackets are **balanced**, and residues count pairs. The
left brackets before a place that a later stretch does not close are those of pairs that reach over
the stretch, so their number is the number of these pairs (`reaching_eq`).
-/

namespace BracketPaint

/-- The first pair contains the second one, from outside. -/
abbrev Contains (q p : Bracket × Bracket) : Prop :=
  q.1.position < p.1.position ∧ p.2.position < q.2.position

theorem Contains.irrefl (p : Bracket × Bracket) : ¬ Contains p p :=
  fun h => Nat.lt_irrefl _ h.1

theorem Contains.trans {p q r : Bracket × Bracket} (h : Contains p q) (h' : Contains q r) :
    Contains p r :=
  ⟨Nat.lt_trans h.1 h'.1, Nat.lt_trans h'.2 h.2⟩

/-- Every bracket belongs to a pair. -/
def Balanced (bs : List Bracket) : Prop := ∀ b ∈ bs, ∃ p ∈ lifoPairs bs, b = p.1 ∨ b = p.2

/-! ### Pairs never cross -/

namespace MatchedAt

variable {bs : List Bracket} {i j i' j' : Nat}

theorem side_ne (hp : MatchedAt bs i j) (hq : MatchedAt bs i' j') : i ≠ j' := by
  rintro rfl
  have hleft := hp.left
  rw [hq.right] at hleft
  cases hleft

/-- A pair leaves nothing over. -/
theorem between_eq_one (h : MatchedAt bs i j) : between Bracket.side bs i (j + 1) = 1 := by
  have hij : i + 1 ≤ j := h.lt
  rw [between_eq_mul h.left (by omega), between_eq_mul_last h.right hij, h.between_eq]
  rfl

/-- What is opened inside a pair is closed inside it. -/
theorem right_lt_of_lt (hp : MatchedAt bs i j) (hq : MatchedAt bs i' j') (hlt : i < i')
    (hin : i' < j) : j' < j := by
  by_contra hge
  have hi : i + 1 ≤ i' := hlt
  have hin' : i' + 1 ≤ j := hin
  have hp1 : between Bracket.side bs (i + 1) i' *
      (Side.left.residue * between Bracket.side bs (i' + 1) j) = 1 := by
    rw [← between_eq_mul hq.left hin, between_mul hi (Nat.le_of_lt hin), hp.between_eq]
  have hq1 : between Bracket.side bs (i' + 1) j * between Bracket.side bs j j' = 1 := by
    rw [between_mul hin' (by omega), hq.between_eq]
  rw [Residue.eq_one_iff] at hp1 hq1
  simp only [Residue.unopened_mul, Residue.unclosed_mul, Side.residue_left] at hp1 hq1
  omega

theorem right_le_right (hp : MatchedAt bs i j) (hq : MatchedAt bs i j') : j' ≤ j := by
  by_contra hlt
  have hij : i + 1 ≤ j := hp.lt
  have hres : between Bracket.side bs (i + 1) j *
      (Side.right.residue * between Bracket.side bs (j + 1) j') = 1 := by
    rw [← between_eq_mul hp.right (by omega), between_mul hij (by omega), hq.between_eq]
  rw [hp.between_eq, Residue.eq_one_iff] at hres
  simp at hres

/-- A left bracket has one right bracket. -/
theorem right_inj (hp : MatchedAt bs i j) (hq : MatchedAt bs i j') : j = j' :=
  Nat.le_antisymm (right_le_right hq hp) (right_le_right hp hq)

/-- Of two pairs one contains the other, or one ends before the other starts. -/
theorem nested_or_apart (hp : MatchedAt bs i j) (hq : MatchedAt bs i' j') :
    (i = i' ∧ j = j') ∨ (i < i' ∧ j' < j) ∨ (i' < i ∧ j < j') ∨ j < i' ∨ j' < i := by
  have hne := side_ne hq hp
  have hne' := side_ne hp hq
  rcases Nat.lt_trichotomy i i' with h | rfl | h
  · by_cases hin : i' < j
    · have := right_lt_of_lt hp hq h hin
      omega
    · omega
  · have := right_inj hp hq
    omega
  · by_cases hin : i < j'
    · have := right_lt_of_lt hq hp h hin
      omega
    · omega

end MatchedAt

/-! ### Pairs and their places -/

/-- The pair stands at the two places. -/
structure PairAt (bs : List Bracket) (p : Bracket × Bracket) (i j : Nat) : Prop where
  matched : MatchedAt bs i j
  fst : bs[i]? = some p.1
  snd : bs[j]? = some p.2

namespace Located

variable {bs : List Bracket} {p q : Bracket × Bracket} {b : Bracket} {i j i' j' m : Nat}

theorem exists_pairAt (hbs : Located bs) (hp : p ∈ lifoPairs bs) : ∃ i j, PairAt bs p i j := by
  obtain ⟨i, j, h, hl, hr⟩ := (mem_lifoPairs_iff hbs).mp hp
  exact ⟨i, j, h, hl, hr⟩

theorem mem_of_pairAt (hbs : Located bs) (h : PairAt bs p i j) : p ∈ lifoPairs bs :=
  (mem_lifoPairs_iff hbs).mpr ⟨i, j, h.matched, h.fst, h.snd⟩

theorem exists_mem_of_matchedAt (hbs : Located bs) (h : MatchedAt bs i j) :
    ∃ p ∈ lifoPairs bs, PairAt bs p i j := by
  obtain ⟨l, hl, -⟩ := Option.map_eq_some_iff.mp h.left
  obtain ⟨r, hr, -⟩ := Option.map_eq_some_iff.mp h.right
  exact ⟨(l, r), hbs.mem_of_pairAt ⟨h, hl, hr⟩, h, hl, hr⟩

theorem place_inj (hbs : Located bs) (hi : bs[i]? = some b) (hj : bs[j]? = some b) : i = j := by
  have hlt := hbs.position_lt_iff hi hj
  have hgt := hbs.position_lt_iff hj hi
  omega

/-- A pair is told by the place of its left bracket. -/
theorem eq_iff_places (hbs : Located bs) (hp : PairAt bs p i j) (hq : PairAt bs q i' j') :
    q = p ↔ i' = i := by
  constructor
  · rintro rfl
    exact hbs.place_inj hq.fst hp.fst
  · rintro rfl
    have hj := hq.matched.right_inj hp.matched
    subst hj
    have hfst := hq.fst
    have hsnd := hq.snd
    rw [hp.fst] at hfst
    rw [hp.snd] at hsnd
    exact (Prod.ext (Option.some.inj hfst) (Option.some.inj hsnd)).symm

theorem contains_iff_places (hbs : Located bs) (hp : PairAt bs p i j) (hq : PairAt bs q i' j') :
    Contains q p ↔ i' < i ∧ j < j' := by
  rw [Contains, hbs.position_lt_iff hq.fst hp.fst, hbs.position_lt_iff hp.snd hq.snd]

/-- Of two pairs one contains the other, or one ends before the other starts. -/
theorem nested_or_apart (hbs : Located bs) (hp : p ∈ lifoPairs bs) (hq : q ∈ lifoPairs bs) :
    p = q ∨ Contains p q ∨ Contains q p ∨ p.2.region.stop ≤ q.1.position ∨
      q.2.region.stop ≤ p.1.position := by
  obtain ⟨i, j, hp⟩ := hbs.exists_pairAt hp
  obtain ⟨i', j', hq⟩ := hbs.exists_pairAt hq
  rw [hbs.eq_iff_places hq hp, hbs.contains_iff_places hq hp, hbs.contains_iff_places hp hq]
  rcases hp.matched.nested_or_apart hq.matched with ⟨h, -⟩ | h | h | h | h
  · exact Or.inl h
  · exact Or.inr (Or.inl h)
  · exact Or.inr (Or.inr (Or.inl h))
  · exact Or.inr (Or.inr (Or.inr (Or.inl (hbs.stop_le_of_lt hp.snd hq.fst h))))
  · exact Or.inr (Or.inr (Or.inr (Or.inr (hbs.stop_le_of_lt hq.snd hp.fst h))))

theorem nodup_lifoPairs (hbs : Located bs) : (lifoPairs bs).Nodup := by
  rw [lifoPairs_eq_closings hbs]
  exact (hbs.nodup.sublist closings_fst_sublist).of_map Prod.fst

theorem countP_eq_one (hbs : Located bs) (hp : p ∈ lifoPairs bs) :
    (lifoPairs bs).countP (fun q => q = p) = 1 := by
  rw [← List.count_eq_one_of_mem hbs.nodup_lifoPairs hp, List.count]
  exact List.countP_congr fun q _ => by simp

end Located

/-! ### Balanced brackets -/

section Balance

variable {bs : List Bracket} {i j m k : Nat}

theorem Balanced.exists_right (hbal : Balanced bs) (hbs : Located bs)
    (h : (bs[i]?).map Bracket.side = some .left) : ∃ j, MatchedAt bs i j := by
  obtain ⟨b, hb, hside⟩ := Option.map_eq_some_iff.mp h
  obtain ⟨p, hp, hmem⟩ := hbal b (List.mem_of_getElem? hb)
  obtain ⟨i', j', hp⟩ := hbs.exists_pairAt hp
  rcases hmem with rfl | rfl
  · rw [hbs.place_inj hb hp.fst]
    exact ⟨j', hp.matched⟩
  · have hright := hp.matched.right
    rw [hp.snd, Option.map_some, hside] at hright
    cases hright

theorem Balanced.exists_left (hbal : Balanced bs) (hbs : Located bs)
    (h : (bs[j]?).map Bracket.side = some .right) : ∃ i, MatchedAt bs i j := by
  obtain ⟨b, hb, hside⟩ := Option.map_eq_some_iff.mp h
  obtain ⟨p, hp, hmem⟩ := hbal b (List.mem_of_getElem? hb)
  obtain ⟨i', j', hp⟩ := hbs.exists_pairAt hp
  rcases hmem with rfl | rfl
  · have hleft := hp.matched.left
    rw [hp.fst, Option.map_some, hside] at hleft
    cases hleft
  · rw [hbs.place_inj hb hp.snd]
    exact ⟨i', hp.matched⟩

/-- Where every right bracket has its left one, no beginning has right brackets left over. -/
theorem Balanced.unopened_eq (hbal : Balanced bs) (hbs : Located bs) (k : Nat) :
    (between Bracket.side bs 0 k).unopened = 0 := by
  induction k using Nat.strongRecOn with
  | ind k ih =>
      cases k with
      | zero => rfl
      | succ k =>
          have hk := ih k (Nat.lt_succ_self k)
          cases hside : (bs[k]?).map Bracket.side with
          | none =>
              rw [Option.map_eq_none_iff, List.getElem?_eq_none_iff] at hside
              rw [between_zero, List.take_of_length_le (by omega),
                ← List.take_of_length_le hside, ← between_zero]
              exact hk
          | some s =>
              cases s with
              | left =>
                  rw [between_eq_mul_last hside (Nat.zero_le k)]
                  simp [hk]
              | right =>
                  -- What stands before the left bracket is all that counts.
                  obtain ⟨i, hi⟩ := hbal.exists_left hbs hside
                  have hik := hi.lt
                  have hstretch : between Bracket.side bs 0 (k + 1) =
                      between Bracket.side bs 0 i := by
                    rw [← between_mul (Nat.zero_le i) (by omega), hi.between_eq_one, mul_one]
                  rw [hstretch]
                  exact ih i (by omega)

/-- Where every left bracket has its right one, nothing is left open at the end. -/
theorem Balanced.unclosed_eq (hbal : Balanced bs) (hbs : Located bs) (hk : k ≤ bs.length) :
    (between Bracket.side bs k bs.length).unclosed = 0 := by
  induction hn : bs.length - k using Nat.strongRecOn generalizing k with
  | ind n ih =>
      subst hn
      rcases Nat.lt_or_eq_of_le hk with hlt | rfl
      · have hnext := ih _ (by omega) (k := k + 1) (by omega) rfl
        have hget : (bs[k]?).map Bracket.side = some (bs[k].side) := by
          rw [List.getElem?_eq_getElem hlt, Option.map_some]
        cases hside : bs[k].side with
        | right =>
            rw [hside] at hget
            rw [between_eq_mul hget hlt]
            simp [hnext]
        | left =>
            -- What stands behind the right bracket is all that counts.
            rw [hside] at hget
            obtain ⟨j, hj⟩ := hbal.exists_right hbs hget
            have hjlen : j < bs.length := by
              obtain ⟨r, hr, -⟩ := Option.map_eq_some_iff.mp hj.right
              exact (List.getElem?_eq_some_iff.mp hr).1
            have hkj := hj.lt
            have hstretch : between Bracket.side bs k bs.length =
                between Bracket.side bs (j + 1) bs.length := by
              rw [← between_mul (by omega : k ≤ j + 1) hjlen, hj.between_eq_one, one_mul]
            rw [hstretch]
            exact ih _ (by omega) (k := j + 1) (by omega) rfl
      · simp

end Balance

/-! ### Counting pairs -/

/-- A count is the sum of the counts of two parts. -/
theorem countP_eq_add {α : Type} {l : List α} {c a b : α → Prop} [DecidablePred c]
    [DecidablePred a] [DecidablePred b] (hor : ∀ x ∈ l, (c x ↔ a x ∨ b x))
    (hand : ∀ x ∈ l, ¬ (a x ∧ b x)) :
    l.countP (fun x => c x) = l.countP (fun x => a x) + l.countP (fun x => b x) := by
  induction l with
  | nil => rfl
  | cons x l ih =>
      have hx := hor x List.mem_cons_self
      have hx' := hand x List.mem_cons_self
      rw [List.countP_cons, List.countP_cons, List.countP_cons,
        ih (fun y hy => hor y (List.mem_cons_of_mem _ hy))
          (fun y hy => hand y (List.mem_cons_of_mem _ hy))]
      by_cases ha : a x <;> by_cases hb : b x <;> simp_all <;> omega

theorem countP_lt_countP {α : Type} {l : List α} {a b : α → Prop} [DecidablePred a]
    [DecidablePred b] (hle : ∀ x ∈ l, a x → b x) {x : α} (hx : x ∈ l) (hb : b x) (ha : ¬ a x) :
    l.countP (fun y => a y) < l.countP (fun y => b y) := by
  have hsum : l.countP (fun y => b y) =
      l.countP (fun y => a y) + l.countP (fun y => b y ∧ ¬ a y) := by
    refine countP_eq_add (fun y hy => ?_) (fun y _ h => h.2.2 h.1)
    have := hle y hy
    tauto
  have hpos : 0 < l.countP (fun y => b y ∧ ¬ a y) :=
    List.countP_pos_iff.mpr ⟨x, hx, by simp [hb, ha]⟩
  omega

section Reaching

variable {α : Type} {side : α → Side} {bs : List α} {depth m k : Nat}

/-- A stretch with that many right brackets left over closes a left one before it. -/
theorem exists_closer? (h : depth < (residue side bs).unopened) :
    ∃ x, closer? side depth bs = some x := by
  induction bs generalizing depth with
  | nil => simp at h
  | cons b bs ih =>
      rw [residue_cons, Residue.unopened_mul] at h
      cases hb : side b with
      | left =>
          rw [hb, Side.residue_left] at h
          rw [closer?_left hb]
          exact ih (by dsimp only at h; omega)
      | right =>
          rw [hb, Side.residue_right] at h
          cases depth with
          | zero => exact ⟨b, closer?_right_zero hb⟩
          | succ depth =>
              rw [closer?_right_succ hb]
              exact ih (by dsimp only at h; omega)

/-- A bracket is among the first ones if its place is. -/
theorem mem_take_iff {b : α} {i : Nat} (hnodup : bs.Nodup) (hb : bs[i]? = some b) :
    b ∈ bs.take m ↔ i < m := by
  rw [List.mem_iff_getElem?]
  constructor
  · intro hex
    obtain ⟨k, hk⟩ := hex
    rw [List.getElem?_take] at hk
    split at hk
    · have hlen := (List.getElem?_eq_some_iff.mp hk).1
      have := (List.getElem?_inj hlen hnodup).mp (hk.trans hb.symm)
      omega
    · cases hk
  · intro h
    exact ⟨i, by rw [List.getElem?_take_of_lt h, hb]⟩

/-- Right brackets are left over behind the closing bracket, and not before it. -/
theorem unopened_eq_zero_iff {j : Nat} (hright : (bs[j]?).map side = some .right)
    (hres : between side bs 0 j = 1) : (between side bs 0 k).unopened = 0 ↔ k ≤ j := by
  constructor
  · intro h
    by_contra hlt
    have hstretch : between side bs 0 k = Side.right.residue * between side bs (j + 1) k := by
      rw [← between_eq_mul hright (by omega), ← one_mul (between side bs j k), ← hres,
        between_mul (Nat.zero_le j) (by omega)]
    rw [hstretch] at h
    simp at h
  · intro h
    have hstretch : between side bs 0 k * between side bs k j = 1 := by
      rw [between_mul (Nat.zero_le k) h, hres]
    rw [Residue.eq_one_iff, Residue.unopened_mul] at hstretch
    omega

/-- If nothing is left open at the end, the left brackets that are open behind a stretch are those
of pairs that reach over it. -/
theorem countP_closings [DecidableEq α] (hnodup : bs.Nodup)
    (hclosed : (residue side bs).unclosed = 0) (hmk : m ≤ k) :
    (closings side bs).countP (fun p => p.1 ∈ bs.take m ∧ p.2 ∉ bs.take k) =
      (between side bs 0 m).unclosed - (between side bs m k).unopened := by
  induction bs generalizing m k with
  | nil => simp [closings, between]
  | cons b bs ih =>
      obtain ⟨hb, hnodup⟩ := List.nodup_cons.mp hnodup
      rw [residue_cons, Residue.unclosed_mul] at hclosed
      cases m with
      | zero => simp
      | succ m =>
          obtain ⟨k, rfl⟩ : ∃ n, k = n + 1 := ⟨k - 1, by omega⟩
          have ih := ih hnodup (by omega) (Nat.le_of_succ_le_succ hmk)
          -- The pairs of the rest are not about the first bracket.
          have hrest : (closings side bs).countP
              (fun p => p.1 ∈ (b :: bs).take (m + 1) ∧ p.2 ∉ (b :: bs).take (k + 1)) =
              (closings side bs).countP (fun p => p.1 ∈ bs.take m ∧ p.2 ∉ bs.take k) := by
            refine List.countP_congr fun p hp => ?_
            obtain ⟨hl, hr⟩ := mem_of_mem_closings hp
            have hl' : p.1 ≠ b := fun h => hb (h ▸ hl)
            have hr' : p.2 ≠ b := fun h => hb (h ▸ hr)
            simp [hl', hr']
          rw [between_cons_zero, between_cons_succ, Residue.unclosed_mul]
          cases hside : side b with
          | right =>
              rw [closings_right hside, hrest, ih]
              simp
          | left =>
              rw [hside] at hclosed
              obtain ⟨r, hr⟩ : ∃ r, closer? side 0 bs = some r :=
                exists_closer? (by simp only [Side.residue_left] at hclosed; omega)
              obtain ⟨j, hj, hright, hres⟩ := closer?_eq_some_iff.mp hr
              have hreach : r ∉ bs.take k ↔ k ≤ j := by
                rw [mem_take_iff hnodup hj, Nat.not_lt]
              have hparts : between side bs 0 m * between side bs m k = between side bs 0 k :=
                between_mul (Nat.zero_le m) (Nat.le_of_succ_le_succ hmk)
              have hopen := unopened_eq_zero_iff (k := k) (by rw [hj, Option.map_some, hright]) hres
              rw [← hparts, Residue.unopened_mul] at hopen
              -- The pair of the first bracket reaches over the stretch if that does not close it.
              have hhead : (b ∈ (b :: bs).take (m + 1) ∧ r ∉ (b :: bs).take (k + 1)) ↔ k ≤ j := by
                have hne : r ≠ b := fun h => hb (h ▸ List.mem_of_getElem? hj)
                rw [← hreach]
                simp [hne]
              rw [closings_left hside, hr, Option.map_some, Option.toList_some,
                List.singleton_append, List.countP_cons, hrest, ih]
              simp only [hhead, decide_eq_true_eq, Side.residue_left]
              split <;> omega

end Reaching

/-- The number of pairs that start before one place and do not end before another. -/
def reaching (bs : List Bracket) (m k : Nat) : Nat :=
  (lifoPairs bs).countP fun p => p.1 ∈ bs.take m ∧ p.2 ∉ bs.take k

theorem PairAt.reaches_iff {bs : List Bracket} {p : Bracket × Bracket} {i j m k : Nat}
    (hp : PairAt bs p i j) (hbs : Located bs) :
    (p.1 ∈ bs.take m ∧ p.2 ∉ bs.take k) ↔ i < m ∧ k ≤ j := by
  rw [mem_take_iff hbs.nodup hp.fst, mem_take_iff hbs.nodup hp.snd, Nat.not_lt]

/-- In balanced brackets the pairs that reach over a stretch are counted by residues. -/
theorem Balanced.reaching_eq {bs : List Bracket} {m k : Nat} (hbal : Balanced bs)
    (hbs : Located bs) (hmk : m ≤ k) :
    reaching bs m k =
      (between Bracket.side bs 0 m).unclosed - (between Bracket.side bs m k).unopened := by
  have hclosed := hbal.unclosed_eq hbs (Nat.zero_le bs.length)
  rw [between_zero, List.take_length] at hclosed
  rw [reaching, lifoPairs_eq_closings hbs]
  exact countP_closings hbs.nodup hclosed hmk

end BracketPaint
