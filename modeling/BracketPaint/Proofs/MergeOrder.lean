import Mathlib.Data.ENat.Basic
import Mathlib.Order.Bounds.Basic
import BracketPaint.Proofs.Merging
/-!
# Merging in any order

Merging the indices of several cursors fails on no cursors and on lists that differ in length, and
else gives the least levels at every place (`mergeIndices_minimum`). Least levels depend on nothing
but which lists there are. So the order of the cursors does not matter, nor how often each one
occurs, nor whether some of them have been merged before the others.

All of this is read off one equivalence (`mergeIndices_eq_ok_iff`): a result is what the lists are
merged to exactly if it has their length and the least index at every place.
-/

namespace BracketPaint

variable {lists lists' group rest : List (List NestingIndex)} {first l part merged : List NestingIndex}
  {a x : NestingIndex} {i : Nat} {e : NestingError}

/-! ### Least levels -/

/-- The outer levels in their order, the unreachable one being above all others. -/
def Outer.rank : Outer → ℕ∞
  | level n => n
  | unreachable => ⊤

theorem Outer.rank_le_coe_iff {o : Outer} {n : ℕ} : o.rank ≤ n ↔ o.AtMost n := by
  cases o with
  | level m => exact Nat.cast_le
  | unreachable => simp [rank, AtMost]

/-- The indices that the lists have at a place. -/
def column (lists : List (List NestingIndex)) (i : Nat) : Set NestingIndex :=
  {x | ∃ l ∈ lists, l[i]? = some x}

/-- Both levels of the index are the minimum of what the lists have at the place. -/
structure MinimumAt (lists : List (List NestingIndex)) (i : Nat) (a : NestingIndex) : Prop where
  outer : IsLeast ((fun x => x.outer.rank) '' column lists i) a.outer.rank
  inner : IsLeast (NestingIndex.inner '' column lists i) a.inner

theorem exists_mem_column_iff {P : NestingIndex → Prop} :
    (∃ l ∈ lists, ∃ x, l[i]? = some x ∧ P x) ↔ ∃ x ∈ column lists i, P x := by
  constructor
  · rintro ⟨l, hl, x, hx, h⟩
    exact ⟨x, ⟨l, hl, hx⟩, h⟩
  · rintro ⟨x, ⟨l, hl, hx⟩, h⟩
    exact ⟨l, hl, x, hx, h⟩

/-- A value is the least one exactly if the same bounds hold for it and for some member. -/
theorem isLeast_image_iff {α β : Type} [PartialOrder β] {f : α → β} {s : Set α} {b : β} :
    IsLeast (f '' s) b ↔ ∀ c, b ≤ c ↔ ∃ x ∈ s, f x ≤ c := by
  constructor
  · rintro ⟨⟨x, hx, rfl⟩, hlower⟩ c
    constructor
    · intro hle
      exact ⟨x, hx, hle⟩
    · rintro ⟨y, hy, hle⟩
      exact (hlower (Set.mem_image_of_mem f hy)).trans hle
  · intro h
    have hlower : ∀ x ∈ s, b ≤ f x := fun x hx => (h (f x)).mpr ⟨x, hx, le_refl _⟩
    obtain ⟨x, hx, hle⟩ := (h b).mp (le_refl b)
    exact ⟨⟨x, hx, le_antisymm hle (hlower x hx)⟩, Set.forall_mem_image.mpr hlower⟩

theorem leastAt_iff_minimumAt : LeastAt lists i a ↔ MinimumAt lists i a := by
  constructor
  · intro h
    have hinner : ∀ n, a.inner ≤ n ↔ ∃ x ∈ column lists i, x.inner ≤ n := fun n =>
      (h.inner_le_iff n).trans exists_mem_column_iff
    refine ⟨isLeast_image_iff.mpr fun c => ?_, isLeast_image_iff.mpr hinner⟩
    cases c with
    | top =>
        -- Every level is at most unreachable, and the column is not empty.
        obtain ⟨x, hx, -⟩ := (hinner _).mp (Nat.le_refl _)
        exact iff_of_true le_top ⟨x, hx, le_top⟩
    | coe n =>
        simp only [Outer.rank_le_coe_iff]
        exact (h.outer_atMost_iff n).trans exists_mem_column_iff
  · intro h
    constructor
    · intro n
      rw [exists_mem_column_iff]
      exact isLeast_image_iff.mp h.inner n
    · intro n
      rw [exists_mem_column_iff]
      simp only [← Outer.rank_le_coe_iff]
      exact isLeast_image_iff.mp h.outer n

/-- Least levels depend on nothing but the bounds of the levels at the place. -/
theorem leastAt_congr
    (hinner : ∀ n, (∃ l ∈ lists, ∃ x, l[i]? = some x ∧ x.inner ≤ n) ↔
      ∃ l ∈ lists', ∃ x, l[i]? = some x ∧ x.inner ≤ n)
    (houter : ∀ n, (∃ l ∈ lists, ∃ x, l[i]? = some x ∧ x.outer.AtMost n) ↔
      ∃ l ∈ lists', ∃ x, l[i]? = some x ∧ x.outer.AtMost n) :
    LeastAt lists i a ↔ LeastAt lists' i a := by
  constructor
  · intro ha
    exact ⟨fun n => (ha.inner_le_iff n).trans (hinner n),
      fun n => (ha.outer_atMost_iff n).trans (houter n)⟩
  · intro ha
    exact ⟨fun n => (ha.inner_le_iff n).trans (hinner n).symm,
      fun n => (ha.outer_atMost_iff n).trans (houter n).symm⟩

/-- Least levels depend on the set of the lists only. -/
theorem leastAt_iff_of_mem_iff (h : ∀ l, l ∈ lists' ↔ l ∈ lists) :
    LeastAt lists' i a ↔ LeastAt lists i a :=
  leastAt_congr (fun n => by simp only [h]) (fun n => by simp only [h])

/-- Some list has a bounded level at the place exactly if some list has after a group was replaced
by its least index. -/
theorem exists_cons_iff {P : NestingIndex → Prop} (hx : part[i]? = some x)
    (hP : P x ↔ ∃ l ∈ group, ∃ y, l[i]? = some y ∧ P y) :
    (∃ l ∈ part :: rest, ∃ y, l[i]? = some y ∧ P y) ↔
      ∃ l ∈ group ++ rest, ∃ y, l[i]? = some y ∧ P y := by
  have hpart : (∃ y, part[i]? = some y ∧ P y) ↔ P x := by simp [hx]
  simp only [List.mem_cons, List.mem_append, or_and_right, exists_or, exists_eq_left]
  rw [hpart, hP]

/-- A group of lists may be replaced by what it is merged to. -/
theorem leastAt_cons_iff (hx : part[i]? = some x) (h : LeastAt group i x) :
    LeastAt (part :: rest) i a ↔ LeastAt (group ++ rest) i a :=
  leastAt_congr (fun n => exists_cons_iff hx (h.inner_le_iff n))
    (fun n => exists_cons_iff hx (h.outer_atMost_iff n))

/-! ### When merging fails -/

/-- Merging stops at the first list that has not the length of the first one. -/
theorem foldlM_mergeNext_of_find? (h : rest.find? (·.length ≠ first.length) = some l) :
    rest.foldlM mergeNext first = .error (.lengthMismatch first.length l.length) := by
  -- What has been merged so far keeps the length of the first list.
  induction rest generalizing first with
  | nil => cases h
  | cons next rest ih =>
      rw [List.foldlM_cons]
      by_cases hnext : next.length = first.length
      · have hzip : (List.zipWith NestingIndex.merge first next).length = first.length := by
          rw [List.length_zipWith, hnext, Nat.min_self]
        have hstep : mergeNext first next = .ok (List.zipWith NestingIndex.merge first next) :=
          if_pos hnext
        rw [List.find?_cons_of_neg (by simp [hnext]), ← hzip] at h
        rw [hstep, ← hzip]
        exact ih h
      · have hstep : mergeNext first next =
            .error (.lengthMismatch first.length next.length) := if_neg hnext
        rw [List.find?_cons_of_pos (by simp [hnext])] at h
        obtain rfl := Option.some.inj h
        rw [hstep]
        rfl

theorem mergeIndices_of_find? (h : rest.find? (·.length ≠ first.length) = some l) :
    mergeIndices (first :: rest) = .error (.lengthMismatch first.length l.length) :=
  foldlM_mergeNext_of_find? h

/-- Merging fails, or the lists have one length. -/
theorem mergeIndices_cases (lists : List (List NestingIndex)) :
    lists = [] ∨
      (∃ first rest l, lists = first :: rest ∧
        rest.find? (·.length ≠ first.length) = some l) ∨
      ∃ first rest, lists = first :: rest ∧ ∀ l ∈ lists, l.length = first.length := by
  cases lists with
  | nil => exact Or.inl rfl
  | cons first rest =>
      cases hfind : rest.find? (·.length ≠ first.length) with
      | some l => exact Or.inr (Or.inl ⟨first, rest, l, rfl, hfind⟩)
      | none =>
          refine Or.inr (Or.inr ⟨first, rest, rfl, List.forall_mem_cons.mpr ⟨rfl, ?_⟩⟩)
          simpa using hfind

theorem mergeIndices_eq_error_iff : mergeIndices lists = .error e ↔
    lists = [] ∧ e = .noCursors ∨
      ∃ first rest l, lists = first :: rest ∧ rest.find? (·.length ≠ first.length) = some l ∧
        e = .lengthMismatch first.length l.length := by
  constructor
  · intro h
    rcases mergeIndices_cases lists with rfl | ⟨first, rest, l, rfl, hfind⟩ | ⟨first, rest, rfl, hlen⟩
    · cases h
      exact Or.inl ⟨rfl, rfl⟩
    · rw [mergeIndices_of_find? hfind] at h
      cases h
      exact Or.inr ⟨first, rest, l, rfl, hfind, rfl⟩
    · obtain ⟨merged, hok, -⟩ := exists_mergeIndices (List.cons_ne_nil first rest) hlen
      rw [hok] at h
      cases h
  · rintro (⟨rfl, rfl⟩ | ⟨first, rest, l, rfl, hfind, rfl⟩)
    · rfl
    · exact mergeIndices_of_find? hfind

/-! ### What lists are merged to -/

/-- What is merged has one length. -/
theorem length_eq_of_mergeIndices (h : mergeIndices lists = .ok merged) :
    lists ≠ [] ∧ ∃ size, ∀ l ∈ lists, l.length = size := by
  rcases mergeIndices_cases lists with rfl | ⟨first, rest, l, rfl, hfind⟩ | ⟨first, rest, rfl, hlen⟩
  · cases h
  · rw [mergeIndices_of_find? hfind] at h
    cases h
  · exact ⟨List.cons_ne_nil first rest, first.length, hlen⟩

/-- The result is told by its length and its least indices. -/
theorem mergeIndices_eq_ok_iff : mergeIndices lists = .ok merged ↔
    lists ≠ [] ∧ (∀ l ∈ lists, l.length = merged.length) ∧
      ∀ i a, merged[i]? = some a → LeastAt lists i a := by
  constructor
  · intro h
    obtain ⟨hne, size, hlen⟩ := length_eq_of_mergeIndices h
    obtain ⟨merged', hok, hlength, hleast⟩ := exists_mergeIndices hne hlen
    obtain rfl := Except.ok.inj (h.symm.trans hok)
    exact ⟨hne, fun l hl => (hlen l hl).trans hlength.symm, hleast⟩
  · rintro ⟨hne, hlen, hleast⟩
    obtain ⟨merged', hok, hlength, hleast'⟩ := exists_mergeIndices hne hlen
    have heq : merged' = merged := by
      refine List.ext_getElem hlength fun i h h' => ?_
      exact (hleast' i _ (List.getElem?_eq_getElem h)).unique
        (hleast i _ (List.getElem?_eq_getElem h'))
    rw [hok, heq]

theorem exists_mergeIndices_iff : (∃ merged, mergeIndices lists = .ok merged) ↔
    lists ≠ [] ∧ ∀ l ∈ lists, ∀ l' ∈ lists, l.length = l'.length := by
  constructor
  · rintro ⟨merged, h⟩
    obtain ⟨hne, hlen, -⟩ := mergeIndices_eq_ok_iff.mp h
    exact ⟨hne, fun l hl l' hl' => (hlen l hl).trans (hlen l' hl').symm⟩
  · rintro ⟨hne, hlen⟩
    obtain ⟨first, hfirst⟩ := List.exists_mem_of_ne_nil lists hne
    obtain ⟨merged, hok, -⟩ := exists_mergeIndices hne fun l hl => hlen l hl first hfirst
    exact ⟨merged, hok⟩

/-- Only the set of the lists matters. -/
theorem mergeIndices_congr (h : ∀ l, l ∈ lists' ↔ l ∈ lists) :
    mergeIndices lists' = .ok merged ↔ mergeIndices lists = .ok merged := by
  have hne : lists' ≠ [] ↔ lists ≠ [] := by
    simp only [ne_eq, List.eq_nil_iff_forall_not_mem, h]
  simp only [mergeIndices_eq_ok_iff, hne, h, leastAt_iff_of_mem_iff h]

/-- A group may be merged first. -/
theorem mergeIndices_append_iff (hgroup : group ≠ []) :
    mergeIndices (group ++ rest) = .ok merged ↔
      ∃ part, mergeIndices group = .ok part ∧ mergeIndices (part :: rest) = .ok merged := by
  -- Where the merged group has an index, it is the least one of the group.
  have hplace : ∀ {part}, mergeIndices group = .ok part → part.length = merged.length →
      ∀ i a, merged[i]? = some a → (LeastAt (part :: rest) i a ↔ LeastAt (group ++ rest) i a) := by
    intro part hpart hlength i a ha
    have hi : i < part.length := by
      rw [hlength]
      exact (List.getElem?_eq_some_iff.mp ha).1
    exact leastAt_cons_iff (List.getElem?_eq_getElem hi)
      ((mergeIndices_eq_ok_iff.mp hpart).2.2 i _ (List.getElem?_eq_getElem hi))
  constructor
  · intro h
    obtain ⟨-, hlen, hleast⟩ := mergeIndices_eq_ok_iff.mp h
    rw [List.forall_mem_append] at hlen
    obtain ⟨part, hpart, hlength, -⟩ := exists_mergeIndices hgroup hlen.1
    refine ⟨part, hpart, mergeIndices_eq_ok_iff.mpr ⟨List.cons_ne_nil _ _,
      List.forall_mem_cons.mpr ⟨hlength, hlen.2⟩, fun i a ha => ?_⟩⟩
    exact (hplace hpart hlength i a ha).mpr (hleast i a ha)
  · rintro ⟨part, hpart, h⟩
    obtain ⟨-, hlen, hleast⟩ := mergeIndices_eq_ok_iff.mp h
    obtain ⟨hlength, hrest⟩ := List.forall_mem_cons.mp hlen
    obtain ⟨-, hgroupLen, -⟩ := mergeIndices_eq_ok_iff.mp hpart
    refine mergeIndices_eq_ok_iff.mpr ⟨List.append_ne_nil_of_left_ne_nil hgroup rest,
      List.forall_mem_append.mpr ⟨fun l hl => (hgroupLen l hl).trans hlength, hrest⟩,
      fun i a ha => ?_⟩
    exact (hplace hpart hlength i a ha).mp (hleast i a ha)

/-- **Merging is a minimum.** Merging fails on no lists, and on lists of different lengths with the
first length and the first other one; else the result has the least levels at every place. The order
of the lists and their repetitions do not matter, nor does it if a group of them is merged first. -/
theorem mergeIndices_minimum (lists : List (List NestingIndex)) :
    (∀ e, mergeIndices lists = .error e ↔ lists = [] ∧ e = .noCursors ∨
      ∃ first rest l, lists = first :: rest ∧ rest.find? (·.length ≠ first.length) = some l ∧
        e = .lengthMismatch first.length l.length) ∧
    ((∃ merged, mergeIndices lists = .ok merged) ↔
      lists ≠ [] ∧ ∀ l ∈ lists, ∀ l' ∈ lists, l.length = l'.length) ∧
    (∀ merged, mergeIndices lists = .ok merged ↔ lists ≠ [] ∧
      (∀ l ∈ lists, l.length = merged.length) ∧
        ∀ i a, merged[i]? = some a → MinimumAt lists i a) ∧
    (∀ lists', (∀ l, l ∈ lists' ↔ l ∈ lists) → ∀ merged,
      mergeIndices lists' = .ok merged ↔ mergeIndices lists = .ok merged) ∧
    ∀ group rest, group ≠ [] → (∀ l, l ∈ group ++ rest ↔ l ∈ lists) → ∀ merged,
      mergeIndices lists = .ok merged ↔
        ∃ part, mergeIndices group = .ok part ∧ mergeIndices (part :: rest) = .ok merged := by
  refine ⟨fun e => mergeIndices_eq_error_iff, exists_mergeIndices_iff, fun merged => ?_,
    fun lists' h merged => mergeIndices_congr h, fun group rest hgroup h merged => ?_⟩
  · simp only [← leastAt_iff_minimumAt]
    exact mergeIndices_eq_ok_iff
  · rw [← mergeIndices_append_iff hgroup]
    exact (mergeIndices_congr h).symm

/-- Three cursors and two brackets. The merged outer level of the second bracket comes from the second
cursor, all other levels of the result come from the first one or the third one. -/
theorem mergeIndices_threeCursors :
    let first : List NestingIndex := [⟨.level 2, 0⟩, ⟨.unreachable, 1⟩]
    let second : List NestingIndex := [⟨.unreachable, 3⟩, ⟨.level 0, 2⟩]
    let third : List NestingIndex := [⟨.level 1, 1⟩, ⟨.unreachable, 0⟩]
    let merged : List NestingIndex := [⟨.level 1, 0⟩, ⟨.level 0, 0⟩]
    mergeIndices [first, second, third] = .ok merged ∧
      (∀ l, l ∈ [third, second, third, first] ↔ l ∈ [first, second, third]) ∧
      mergeIndices [third, second, third, first] = .ok merged ∧
      ∃ part, mergeIndices [third, first] = .ok part ∧ mergeIndices [part, second] = .ok merged := by
  intro first second third merged
  have hok : mergeIndices [first, second, third] = .ok merged := rfl
  have hsame : ∀ l, l ∈ [third, second, third, first] ↔ l ∈ [first, second, third] := by
    intro l
    simp only [List.mem_cons, List.not_mem_nil, or_false]
    tauto
  have hgroup : ∀ l, l ∈ [third, first] ++ [second] ↔ l ∈ [first, second, third] := by
    intro l
    simp only [List.cons_append, List.nil_append, List.mem_cons, List.not_mem_nil, or_false]
    tauto
  obtain ⟨-, -, -, hset, hregroup⟩ := mergeIndices_minimum [first, second, third]
  exact ⟨hok, hsame, (hset _ hsame merged).mpr hok,
    (hregroup [third, first] [second] (List.cons_ne_nil _ _) hgroup merged).mp hok⟩

end BracketPaint
