import Mathlib.Data.List.Induction
import Mathlib.Data.List.Nodup
import BracketPaint.Annotation
/-!
# Names of offsets

However annotations are pushed, a map names an offset as the plain list of them would: it takes the
annotations that hold the offset, orders them by where they start, those that start together by
their arrival, and writes their names behind the root name (`nameAt_ofList`).

A map keeps two promises (`Keeps`). Its spans are all annotations pushed so far, in that order, and
its reaches are those that its spans would have if they were pushed in order. The first promise makes
the annotations that start too late a last part of the spans. By the second one a reach is the
largest stop so far (`getElem?_extendReach`), so that those that are passed are a first part. Between
the two parts lies all that can hold the offset (`holding_eq_filter`).
-/

namespace BracketPaint

namespace AnnotationMap

variable {m : AnnotationMap} {as bs : List Annotation} {a : Annotation} {i n p : Nat}

/-! ### The order of arrivals -/

/-- An annotation with the number of its arrival. -/
abbrev Arrival := Annotation × Nat

/-- Annotations come in the order in which they start, and those that start together in the order of
their arrival. -/
abbrev ComesFirst (x y : Arrival) : Prop :=
  x.1.region.start < y.1.region.start ∨ x.1.region.start = y.1.region.start ∧ x.2 ≤ y.2

/-- Annotations with the numbers of their arrival, in order. -/
def inOrder (arrivals : List Arrival) : List Arrival :=
  arrivals.mergeSort fun x y => decide (ComesFirst x y)

theorem inOrder_perm (arrivals : List Arrival) : (inOrder arrivals).Perm arrivals :=
  List.mergeSort_perm _ _

theorem pairwise_inOrder (arrivals : List Arrival) :
    (inOrder arrivals).Pairwise ComesFirst := by
  refine (List.pairwise_mergeSort ?_ ?_ _).imp of_decide_eq_true
  · intro x y z hxy hyz
    simp only [decide_eq_true_eq] at hxy hyz ⊢
    omega
  · intro x y
    simp only [Bool.or_eq_true, decide_eq_true_eq]
    omega

/-- There is one order of arrivals only. -/
theorem eq_inOrder {arrivals ordered : List Arrival} (hperm : ordered.Perm arrivals)
    (hnodup : (arrivals.map Prod.snd).Nodup) (hordered : ordered.Pairwise ComesFirst) :
    ordered = inOrder arrivals := by
  refine List.Perm.eq_of_pairwise ?_ hordered (pairwise_inOrder arrivals)
    (hperm.trans (inOrder_perm arrivals).symm)
  -- What comes first both ways has one number, and no number is given twice.
  intro x y hx hy hxy hyx
  exact List.inj_on_of_nodup_map hnodup (hperm.mem_iff.mp hx)
    ((inOrder_perm arrivals).mem_iff.mp hy) (by omega)

theorem nodup_snd_zipIdx (as : List Annotation) : (as.zipIdx.map Prod.snd).Nodup := by
  rw [List.zipIdx_map_snd]
  exact List.nodup_range'

/-! ### Reaches -/

/-- The largest stop of some annotations. -/
def largestStop (as : List Annotation) : Nat := as.foldl (fun reach a => max reach a.region.stop) 0

theorem largestStop_append_singleton :
    largestStop (as ++ [a]) = max (largestStop as) a.region.stop := by
  simp [largestStop]

theorem largestStop_le_iff : largestStop as ≤ p ↔ ∀ a ∈ as, a.region.stop ≤ p := by
  induction as using List.reverseRecOn with
  | nil => simp [largestStop]
  | append_singleton as a ih =>
      rw [largestStop_append_singleton, Nat.max_le, ih]
      simp [or_imp, forall_and]

theorem extendReach_append (reach : Array Nat) :
    extendReach reach (as ++ bs) = extendReach (extendReach reach as) bs := List.foldl_append

theorem extendReach_append_singleton (reach : Array Nat) :
    extendReach reach (as ++ [a]) = (extendReach reach as).push
      (max ((extendReach reach as).back?.getD 0) a.region.stop) := by
  rw [extendReach_append]
  rfl

@[simp] theorem size_extendReach (as : List Annotation) : (extendReach #[] as).size = as.length := by
  induction as using List.reverseRecOn with
  | nil => rfl
  | append_singleton as a ih =>
      rw [extendReach_append_singleton, Array.size_push, ih, List.length_append]
      rfl

theorem back?_extendReach (as : List Annotation) :
    (extendReach #[] as).back?.getD 0 = largestStop as := by
  induction as using List.reverseRecOn with
  | nil => rfl
  | append_singleton as a ih =>
      rw [extendReach_append_singleton, Array.back?_push, Option.getD_some, ih,
        largestStop_append_singleton]

/-- Each reach is the largest stop so far. -/
theorem getElem?_extendReach (hi : i < as.length) :
    (extendReach #[] as)[i]? = some (largestStop (as.take (i + 1))) := by
  induction as using List.reverseRecOn with
  | nil => cases hi
  | append_singleton as a ih =>
      rw [List.length_append, List.length_singleton] at hi
      rw [extendReach_append_singleton, Array.getElem?_push, size_extendReach,
        back?_extendReach]
      rcases Nat.lt_succ_iff_lt_or_eq.mp hi with hlt | rfl
      · rw [if_neg (by omega), ih hlt, List.take_append_of_le_length hlt]
      · rw [if_pos rfl, List.take_of_length_le (by simp), largestStop_append_singleton]

theorem take_extendReach (as : List Annotation) (n : Nat) :
    (extendReach #[] as).take n = extendReach #[] (as.take n) := by
  refine Array.ext_getElem? fun i => ?_
  rw [Array.take_eq_extract, Array.getElem?_extract, size_extendReach]
  rcases Nat.lt_or_ge i (min n as.length) with hi | hi
  · rw [if_pos (by omega), Nat.zero_add, getElem?_extendReach (by omega),
      getElem?_extendReach (by rw [List.length_take]; omega), List.take_take,
      Nat.min_eq_left (by omega)]
  · rw [if_neg (by omega), Array.getElem?_eq_none (by rw [size_extendReach, List.length_take]; omega)]

/-! ### What a map keeps -/

/-- The map holds the annotations that were pushed, in order, with their reaches. -/
structure Keeps (m : AnnotationMap) (as : List Annotation) : Prop where
  spans_eq : m.spans.toList = (inOrder as.zipIdx).map Prod.fst
  reach_eq : m.reach = extendReach #[] m.spans.toList

theorem keeps_empty : Keeps ∅ [] := ⟨by simp [inOrder]; rfl, rfl⟩

theorem Keeps.pairwise_start (h : Keeps m as) :
    m.spans.toList.Pairwise fun a b => a.region.start ≤ b.region.start := by
  rw [h.spans_eq, List.pairwise_map]
  exact (pairwise_inOrder as.zipIdx).imp fun hfirst => by omega

theorem startedBy_le (m : AnnotationMap) (p : Nat) : m.startedBy p ≤ m.spans.size :=
  boundary_le _ _

theorem passedBy_le (m : AnnotationMap) (n p : Nat) : m.passedBy n p ≤ n := boundary_le _ _

/-- The spans that start at or before an offset are a first part of all. -/
theorem Keeps.lt_startedBy_iff (h : Keeps m as) (ha : m.spans[i]? = some a) :
    i < m.startedBy p ↔ a.region.start ≤ p := by
  unfold startedBy
  rw [lt_boundary_iff _ (Array.getElem?_eq_some_iff.mp ha).1, ha]
  · simp
  · intro j k hjk hk hstart
    have hj : j < m.spans.size := Nat.lt_of_le_of_lt hjk hk
    rw [Array.getElem?_eq_getElem hk, Option.any_some, decide_eq_true_eq] at hstart
    rw [Array.getElem?_eq_getElem hj, Option.any_some, decide_eq_true_eq]
    rcases Nat.lt_or_eq_of_le hjk with hlt | rfl
    · exact Nat.le_trans (List.pairwise_iff_getElem.mp h.pairwise_start j k hj hk hlt) hstart
    · exact hstart

theorem Keeps.start_le_of_mem_take (h : Keeps m as)
    (ha : a ∈ m.spans.toList.take (m.startedBy p)) : a.region.start ≤ p := by
  obtain ⟨i, hlt, rfl⟩ := List.mem_take_iff_getElem.mp ha
  rw [Array.length_toList] at hlt
  have hi : i < m.startedBy p := by omega
  exact (h.lt_startedBy_iff (Array.getElem?_eq_getElem (by omega))).mp hi

theorem Keeps.lt_start_of_mem_drop (h : Keeps m as)
    (ha : a ∈ m.spans.toList.drop (m.startedBy p)) : p < a.region.start := by
  obtain ⟨i, hi⟩ := List.getElem?_of_mem ha
  rw [List.getElem?_drop, Array.getElem?_toList] at hi
  have := (h.lt_startedBy_iff (p := p) hi).mpr
  omega

/-- The spans that are passed are a first part of those before a place. -/
theorem Keeps.lt_passedBy_iff (h : Keeps m as) (hn : n ≤ m.spans.size) (hi : i < n) :
    i < m.passedBy n p ↔ ∀ a ∈ m.spans.toList.take (i + 1), a.region.stop ≤ p := by
  have hreach : ∀ k < n, m.reach[k]? = some (largestStop (m.spans.toList.take (k + 1))) := by
    intro k hk
    rw [h.reach_eq]
    exact getElem?_extendReach (by rw [Array.length_toList]; omega)
  unfold passedBy
  rw [lt_boundary_iff _ hi, hreach i hi, Option.any_some, decide_eq_true_eq, largestStop_le_iff]
  intro j k hjk hk hstop
  rw [hreach k hk, Option.any_some, decide_eq_true_eq, largestStop_le_iff] at hstop
  rw [hreach j (by omega), Option.any_some, decide_eq_true_eq, largestStop_le_iff]
  exact fun a ha => hstop a (List.take_subset_take_left _ (by omega) ha)

theorem Keeps.stop_le_of_mem_take (h : Keeps m as) (hn : n ≤ m.spans.size)
    (ha : a ∈ m.spans.toList.take (m.passedBy n p)) : a.region.stop ≤ p := by
  have hle := m.passedBy_le n p
  rcases Nat.eq_zero_or_pos (m.passedBy n p) with hzero | hpos
  · rw [hzero, List.take_zero] at ha
    cases ha
  · refine (h.lt_passedBy_iff hn (i := m.passedBy n p - 1) (by omega)).mp (by omega) a ?_
    rwa [Nat.sub_add_cancel hpos]

/-- What comes behind a place can be left out if nothing there passes the test. -/
theorem filter_take_eq_filter {α : Type} {q : α → Bool} {xs : List α}
    (h : ∀ x ∈ xs.drop n, ¬ q x) : (xs.take n).filter q = xs.filter q := by
  conv_rhs => rw [← List.take_append_drop n xs, List.filter_append, List.filter_eq_nil_iff.mpr h]
  exact (List.append_nil _).symm

/-- What comes before a place can be left out if nothing there passes the test. -/
theorem filter_drop_eq_filter {α : Type} {q : α → Bool} {xs : List α}
    (h : ∀ x ∈ xs.take n, ¬ q x) : (xs.drop n).filter q = xs.filter q := by
  conv_rhs => rw [← List.take_append_drop n xs, List.filter_append, List.filter_eq_nil_iff.mpr h]
  exact (List.nil_append _).symm

/-- No annotation that holds the offset is skipped. -/
theorem Keeps.holding_eq_filter (h : Keeps m as) (p : Nat) :
    m.holding p = m.spans.toList.filter fun a => p ∈ a.region := by
  have hbetween : m.holding p = ((m.spans.toList.take (m.startedBy p)).drop
      (m.passedBy (m.startedBy p) p)).filter fun a => p ∈ a.region := by
    rw [holding, Array.toList_extract, List.extract_eq_take_drop, List.drop_take]
  rw [hbetween, filter_drop_eq_filter, filter_take_eq_filter]
  · intro a ha
    have := h.lt_start_of_mem_drop ha
    rw [decide_eq_true_eq, Region.mem_def]
    omega
  · intro a ha
    rw [List.take_take, Nat.min_eq_left (m.passedBy_le _ p)] at ha
    have := h.stop_le_of_mem_take (m.startedBy_le p) ha
    rw [decide_eq_true_eq, Region.mem_def]
    omega

/-! ### Pushing -/

theorem insertIdx_eq_take_append (as : List Annotation) (h : i ≤ as.length) :
    as.insertIdx i a = as.take i ++ a :: as.drop i := by
  induction i generalizing as with
  | zero => rfl
  | succ i ih =>
      cases as with
      | nil => cases h
      | cons b as => rw [List.insertIdx_succ_cons, ih as (Nat.le_of_succ_le_succ h)]; rfl

/-- The spans after an annotation was pushed. -/
theorem toList_spans_push (m : AnnotationMap) (a : Annotation) :
    (m.push a).spans.toList = m.spans.toList.take (m.startedBy a.region.start) ++
      a :: m.spans.toList.drop (m.startedBy a.region.start) := by
  have hplace := m.startedBy_le a.region.start
  have hspans : (m.push a).spans = m.spans.insertIdxIfInBounds (m.startedBy a.region.start) a := rfl
  rw [hspans, Array.insertIdxIfInBounds, dif_pos hplace, Array.toList_insertIdx]
  exact insertIdx_eq_take_append _ hplace

/-- A new arrival goes behind the annotations that start at or before its start. -/
theorem inOrder_zipIdx_append_singleton
    (hbefore : ∀ x ∈ (inOrder as.zipIdx).take n, x.1.region.start ≤ a.region.start)
    (hbehind : ∀ x ∈ (inOrder as.zipIdx).drop n, a.region.start < x.1.region.start) :
    inOrder (as ++ [a]).zipIdx =
      (inOrder as.zipIdx).take n ++ (a, as.length) :: (inOrder as.zipIdx).drop n := by
  have hold := pairwise_inOrder as.zipIdx
  have hperm := inOrder_perm as.zipIdx
  have hnumber : ∀ x ∈ inOrder as.zipIdx, x.2 < as.length := fun x hx =>
    List.snd_lt_of_mem_zipIdx (hperm.mem_iff.mp hx)
  refine (eq_inOrder ?_ (nodup_snd_zipIdx _) ?_).symm
  · rw [List.zipIdx_append, List.zipIdx_singleton, Nat.zero_add]
    refine List.perm_middle.trans ?_
    rw [List.take_append_drop]
    exact (hperm.cons _).trans (List.perm_append_singleton _ _).symm
  · rw [← List.take_append_drop n (inOrder as.zipIdx), List.pairwise_append] at hold
    obtain ⟨htake, hdrop, hboth⟩ := hold
    refine List.pairwise_append.mpr ⟨htake, List.pairwise_cons.mpr ⟨fun y hy => ?_, hdrop⟩,
      fun x hx y hy => ?_⟩
    · exact Or.inl (hbehind y hy)
    · rcases List.mem_cons.mp hy with rfl | hy
      · have hle := hbefore x hx
        have hlt := hnumber x (List.mem_of_mem_take hx)
        show x.1.region.start < a.region.start ∨ x.1.region.start = a.region.start ∧ x.2 ≤ as.length
        omega
      · exact hboth x hx y hy

/-- One push keeps both promises: the annotation goes behind those that start where it does, and the
reaches from there on are made anew. -/
theorem Keeps.push (h : Keeps m as) (a : Annotation) : Keeps (m.push a) (as ++ [a]) := by
  have hplace := m.startedBy_le a.region.start
  have hspans := toList_spans_push m a
  constructor
  · rw [hspans, inOrder_zipIdx_append_singleton (n := m.startedBy a.region.start),
      List.map_append, List.map_cons, List.map_take, List.map_drop, h.spans_eq]
    · intro x hx
      refine h.start_le_of_mem_take ?_
      rw [h.spans_eq, ← List.map_take]
      exact List.mem_map_of_mem hx
    · intro x hx
      refine h.lt_start_of_mem_drop ?_
      rw [h.spans_eq, ← List.map_drop]
      exact List.mem_map_of_mem hx
  · have hlen : (m.spans.toList.take (m.startedBy a.region.start)).length =
        m.startedBy a.region.start := by
      rw [List.length_take, Array.length_toList, Nat.min_eq_left hplace]
    have hreach : (m.push a).reach = extendReach (m.reach.take (m.startedBy a.region.start))
        ((m.push a).spans.toList.drop (m.startedBy a.region.start)) := rfl
    rw [hreach, hspans, List.drop_left' hlen, h.reach_eq, take_extendReach, ← extendReach_append]

/-- A run of pushes keeps both promises. -/
theorem keeps_ofList (as : List Annotation) : Keeps (ofList as) as := by
  induction as using List.reverseRecOn with
  | nil => exact keeps_empty
  | append_singleton as a ih =>
      rw [ofList, List.foldl_append]
      exact ih.push a

theorem Keeps.nameAt_eq (h : Keeps m as) (p : Nat) : m.nameAt p = " ".intercalate
    (rootName :: (m.spans.toList.filter fun a => p ∈ a.region).map (·.name)) := by
  rw [nameAt, h.holding_eq_filter]

/-- Annotations that are pushed in the order in which they start stay in that order. -/
theorem toList_spans_ofList (h : as.Pairwise fun a b => a.region.start ≤ b.region.start) :
    (ofList as).spans.toList = as := by
  have hordered : as.zipIdx.Pairwise ComesFirst := by
    rw [List.pairwise_iff_getElem] at h ⊢
    intro i j hi hj hij
    rw [List.length_zipIdx] at hi hj
    have hle := h i j hi hj hij
    simp only [List.getElem_zipIdx, ComesFirst]
    omega
  rw [(keeps_ofList as).spans_eq,
    ← eq_inOrder (List.Perm.refl _) (nodup_snd_zipIdx as) hordered, List.zipIdx_map_fst]

/-- **Names of offsets.** An offset is named by the annotations that hold it, in the order in which
they start, and those that start together in the order of their arrival. -/
theorem nameAt_ofList (as : List Annotation) (p : Nat) :
    (ofList as).nameAt p = " ".intercalate (rootName ::
      (inOrder (as.zipIdx.filter fun arrival => p ∈ arrival.1.region)).map (·.1.name)) := by
  have hfilter : (inOrder as.zipIdx).filter (fun arrival => p ∈ arrival.1.region) =
      inOrder (as.zipIdx.filter fun arrival => p ∈ arrival.1.region) :=
    eq_inOrder ((inOrder_perm as.zipIdx).filter _)
      ((nodup_snd_zipIdx as).sublist (List.filter_sublist.map _))
      ((pairwise_inOrder as.zipIdx).filter _)
  have hkeeps := keeps_ofList as
  rw [hkeeps.nameAt_eq, hkeeps.spans_eq, List.filter_map, List.map_map, ← hfilter]
  rfl

/-- Annotations that are pushed out of order. -/
example : (ofList [⟨⟨20, 25, by omega⟩, "comment.line"⟩, ⟨⟨0, 30, by omega⟩, "meta.block"⟩,
    ⟨⟨5, 8, by omega⟩, "string.quoted"⟩]).nameAt 22 = "source meta.block comment.line" := by
  decide +kernel

end AnnotationMap
end BracketPaint
