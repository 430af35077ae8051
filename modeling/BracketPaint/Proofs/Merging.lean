import BracketPaint.Nesting
/-!
# Merged indices

Merging the indices of several cursors takes both levels to their minimum, and so the result is told
by its bounds: a merged level is at most a number exactly if the level of some cursor is
(`exists_mergeIndices`). Inner and outer levels are bounded by different cursors, in general.
-/

namespace BracketPaint

/-- The outer level is a number that is not above the given one. -/
def Outer.AtMost : Outer → Nat → Prop
  | level m, n => m ≤ n
  | unreachable, _ => False

theorem Outer.atMost_min {o p : Outer} {n : Nat} :
    (o.min p).AtMost n ↔ o.AtMost n ∨ p.AtMost n := by
  cases o with
  | unreachable => simp [Outer.min, AtMost]
  | level m =>
      cases p with
      | unreachable => simp [Outer.min, AtMost]
      | level k =>
          show Min.min m k ≤ n ↔ m ≤ n ∨ k ≤ n
          omega

theorem Outer.eq_of_atMost_iff {o p : Outer} (h : ∀ n, o.AtMost n ↔ p.AtMost n) : o = p := by
  cases o with
  | unreachable =>
      cases p with
      | unreachable => rfl
      | level k => exact absurd ((h k).mpr (Nat.le_refl k)) id
  | level m =>
      cases p with
      | unreachable => exact absurd ((h m).mp (Nat.le_refl m)) id
      | level k =>
          have hkm : k ≤ m := (h m).mp (Nat.le_refl m)
          have hmk : m ≤ k := (h k).mpr (Nat.le_refl k)
          rw [Nat.le_antisymm hmk hkm]

/-- Both levels of the index are the least ones that the lists have at the place. -/
structure LeastAt (lists : List (List NestingIndex)) (i : Nat) (a : NestingIndex) : Prop where
  inner_le_iff : ∀ n, a.inner ≤ n ↔ ∃ l ∈ lists, ∃ x, l[i]? = some x ∧ x.inner ≤ n
  outer_atMost_iff : ∀ n, a.outer.AtMost n ↔ ∃ l ∈ lists, ∃ x, l[i]? = some x ∧ x.outer.AtMost n

variable {lists : List (List NestingIndex)} {first next : List NestingIndex} {a b : NestingIndex}
  {i j : Nat}

theorem LeastAt.unique (ha : LeastAt lists i a) (hb : LeastAt lists i b) : a = b := by
  obtain ⟨outer, inner⟩ := a
  obtain ⟨outer', inner'⟩ := b
  have hle : inner ≤ inner' := (ha.inner_le_iff _).mpr ((hb.inner_le_iff _).mp (Nat.le_refl _))
  have hge : inner' ≤ inner := (hb.inner_le_iff _).mpr ((ha.inner_le_iff _).mp (Nat.le_refl _))
  have houter : outer = outer' :=
    Outer.eq_of_atMost_iff fun n => (ha.outer_atMost_iff n).trans (hb.outer_atMost_iff n).symm
  rw [Nat.le_antisymm hle hge, houter]

/-- Places with the same indices in every list have the same least index. -/
theorem LeastAt.congr (ha : LeastAt lists i a) (h : ∀ l ∈ lists, l[i]? = l[j]?) :
    LeastAt lists j a := by
  constructor
  · intro n
    rw [ha.inner_le_iff]
    refine exists_congr fun l => and_congr_right fun hl => ?_
    rw [h l hl]
  · intro n
    rw [ha.outer_atMost_iff]
    refine exists_congr fun l => and_congr_right fun hl => ?_
    rw [h l hl]

/-- Some list has a bounded level at the place exactly if some list has after two were merged. -/
theorem exists_zipWith_iff {P : NestingIndex → Prop}
    (hP : ∀ x y : NestingIndex, P (x.merge y) ↔ P x ∨ P y) (hlen : next.length = first.length) :
    (∃ l ∈ List.zipWith NestingIndex.merge first next :: lists, ∃ x, l[i]? = some x ∧ P x) ↔
      ∃ l ∈ first :: next :: lists, ∃ x, l[i]? = some x ∧ P x := by
  have hplace : (∃ x, (List.zipWith NestingIndex.merge first next)[i]? = some x ∧ P x) ↔
      (∃ x, first[i]? = some x ∧ P x) ∨ ∃ x, next[i]? = some x ∧ P x := by
    rcases Nat.lt_or_ge i first.length with hi | hi
    · rw [List.getElem?_zipWith, List.getElem?_eq_getElem hi,
        List.getElem?_eq_getElem (hlen.symm ▸ hi)]
      simp [hP]
    · rw [List.getElem?_zipWith, List.getElem?_eq_none hi, List.getElem?_eq_none (by omega)]
      simp
  simp only [List.mem_cons, exists_eq_or_imp, hplace, or_assoc]

/-- One step: two lists may be replaced by the merged one. -/
theorem LeastAt.of_zipWith (hlen : next.length = first.length)
    (ha : LeastAt (List.zipWith NestingIndex.merge first next :: lists) i a) :
    LeastAt (first :: next :: lists) i a := by
  constructor
  · intro n
    have hmerge : ∀ x y : NestingIndex, (x.merge y).inner ≤ n ↔ x.inner ≤ n ∨ y.inner ≤ n := by
      intro x y
      show min x.inner y.inner ≤ n ↔ _
      omega
    rw [ha.inner_le_iff]
    exact exists_zipWith_iff hmerge hlen
  · intro n
    have hmerge : ∀ x y : NestingIndex,
        (x.merge y).outer.AtMost n ↔ x.outer.AtMost n ∨ y.outer.AtMost n :=
      fun x y => Outer.atMost_min
    rw [ha.outer_atMost_iff]
    exact exists_zipWith_iff hmerge hlen

/-- A whole run: lists of one length can be merged, and the result is the least at every place. -/
theorem foldlM_mergeNext (hlen : ∀ l ∈ lists, l.length = first.length) :
    ∃ merged, lists.foldlM mergeNext first = .ok merged ∧ merged.length = first.length ∧
      ∀ i a, merged[i]? = some a → LeastAt (first :: lists) i a := by
  -- The first list is what has been merged so far.
  induction lists generalizing first with
  | nil =>
      refine ⟨first, rfl, rfl, fun i a ha => ⟨fun n => ?_, fun n => ?_⟩⟩ <;> simp [ha]
  | cons next lists ih =>
      have hnext := hlen next List.mem_cons_self
      have hzip : (List.zipWith NestingIndex.merge first next).length = first.length := by
        rw [List.length_zipWith, hnext, Nat.min_self]
      have hlen' : ∀ l ∈ lists, l.length = (List.zipWith NestingIndex.merge first next).length :=
        fun l hl => by rw [hzip, hlen l (List.mem_cons_of_mem _ hl)]
      obtain ⟨merged, hok, hmerged, hleast⟩ := ih hlen'
      have hstep : mergeNext first next = .ok (List.zipWith NestingIndex.merge first next) :=
        if_pos hnext
      refine ⟨merged, ?_, hmerged.trans hzip, fun i a ha => (hleast i a ha).of_zipWith hnext⟩
      rw [List.foldlM_cons, hstep]
      exact hok

/-- Lists of one length can be merged, and the result is the least at every place. -/
theorem exists_mergeIndices {size : Nat} (hne : lists ≠ []) (hlen : ∀ l ∈ lists, l.length = size) :
    ∃ merged, mergeIndices lists = .ok merged ∧ merged.length = size ∧
      ∀ i a, merged[i]? = some a → LeastAt lists i a := by
  cases lists with
  | nil => exact absurd rfl hne
  | cons first rest =>
      have hfirst := hlen first List.mem_cons_self
      have hrest : ∀ l ∈ rest, l.length = first.length :=
        fun l hl => by rw [hfirst, hlen l (List.mem_cons_of_mem _ hl)]
      obtain ⟨merged, hok, hmerged, hleast⟩ := foldlM_mergeNext hrest
      exact ⟨merged, hok, hmerged.trans hfirst, hleast⟩

end BracketPaint
