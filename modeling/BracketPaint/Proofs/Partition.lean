import Mathlib.Data.List.Sort
import BracketPaint.Span.Disjoint
/-!
# Disjoint spans are a partition

What `splitDisjoint` gives back cuts up the characters of the spans: no piece is empty, no two have
a character in common, together they have the characters of the spans, each is a part of one of
them, and no boundary of a line lies inside a piece (`splitDisjoint_partition`).

The queue of the sweep is ordered, and boundaries have no size (`Queued`). If the spans have some,
the fragments of no size are the boundaries, in every queue that the sweep leaves (`Ready`).
A step either takes the foremost part of the queue away, and everything that is left lies behind
it (`Step`), or it makes a fragment shorter by what another one has (`Recut`). Both say which
characters are covered, so that what is said of the rest of the sweep can be said of the whole.
-/

namespace BracketPaint

namespace Fragment

variable {a b f : Fragment} {fs gs queue : List Fragment} {r : Region} {out : List Span}

/-! ### The order of the queue -/

instance : Std.Total ((· ≤ ·) : Fragment → Fragment → Prop) where
  total a b := by
    simp only [le_def]
    omega

instance : IsTrans Fragment (· ≤ ·) where
  trans a b c hab hbc := by
    simp only [le_def] at hab hbc ⊢
    omega

theorem insert_eq_orderedInsert (f : Fragment) (fs : List Fragment) :
    insert f fs = fs.orderedInsert (· ≤ ·) f := by
  induction fs with
  | nil => rfl
  | cons g fs ih =>
      rw [insert, List.orderedInsert_cons, ih]

@[simp] theorem mem_insert : a ∈ insert f fs ↔ a = f ∨ a ∈ fs := by
  rw [insert_eq_orderedInsert, List.mem_orderedInsert]

/-- What holds of a first fragment, of one put behind it and of the others holds of all. -/
theorem forall_mem_cons_insert {P : Fragment → Prop} (ha : P a) (hf : P f)
    (hqueue : ∀ g ∈ queue, P g) : ∀ g ∈ a :: insert f queue, P g := by
  intro g hg
  rcases List.mem_cons.mp hg with rfl | hg
  · exact ha
  · rcases mem_insert.mp hg with rfl | hg
    · exact hf
    · exact hqueue g hg

theorem start_le_of_le (h : a ≤ b) : a.extent.start ≤ b.extent.start := by
  rw [le_def] at h
  omega

/-- The queue is ordered, and boundaries have no size. Spans may have none either. -/
structure Queued (fs : List Fragment) : Prop where
  sorted : fs.Pairwise (· ≤ ·)
  isEmpty : ∀ f ∈ fs, f.source = none → f.extent.IsEmpty

theorem Queued.tail (h : Queued (a :: fs)) : Queued fs :=
  ⟨h.sorted.of_cons, fun f hf => h.isEmpty f (List.mem_cons_of_mem _ hf)⟩

theorem Queued.cons (h : Queued fs) (ha : a.source = none → a.extent.IsEmpty)
    (hle : ∀ f ∈ fs, a ≤ f) : Queued (a :: fs) := by
  refine ⟨List.pairwise_cons.mpr ⟨hle, h.sorted⟩, fun f hf => ?_⟩
  rcases List.mem_cons.mp hf with rfl | hf
  · exact ha
  · exact h.isEmpty f hf

theorem Queued.insert (h : Queued fs) (hf : f.source = none → f.extent.IsEmpty) :
    Queued (insert f fs) := by
  refine ⟨?_, fun g hg => ?_⟩
  · rw [insert_eq_orderedInsert]
    exact h.sorted.orderedInsert f fs
  · rcases mem_insert.mp hg with rfl | hg
    · exact hf
    · exact h.isEmpty g hg

theorem Queued.head_le (h : Queued (a :: fs)) : ∀ f ∈ fs, a ≤ f :=
  (List.pairwise_cons.mp h.sorted).1

theorem Queued.start_le (h : Queued (a :: fs)) : ∀ f ∈ fs, a.extent.start ≤ f.extent.start :=
  fun f hf => start_le_of_le (h.head_le f hf)

/-- All that waits behind the first fragment starts where the second one does, or later. -/
theorem Queued.start_le_tail (h : Queued (a :: b :: queue)) :
    ∀ f ∈ b :: queue, b.extent.start ≤ f.extent.start := by
  intro f hf
  rcases List.mem_cons.mp hf with rfl | hf
  · exact Nat.le_refl _
  · exact h.tail.start_le f hf

/-- The first fragment without the second one. -/
theorem Queued.drop_second (h : Queued (a :: b :: queue)) : Queued (a :: queue) :=
  h.tail.tail.cons (h.isEmpty a List.mem_cons_self) fun f hf =>
    h.head_le f (List.mem_cons_of_mem _ hf)

/-- A fragment that another one overlaps from its start on is not a boundary. -/
theorem Queued.source_ne_none (h : Queued (a :: b :: queue))
    (hover : b.extent.start < a.extent.stop) (hstart : b.extent.start = a.extent.start) :
    b.source ≠ none := by
  intro hnone
  have hempty := h.isEmpty b (List.mem_cons_of_mem _ List.mem_cons_self) hnone
  have hle := le_def.mp (h.head_le b List.mem_cons_self)
  omega

/-- So a boundary of the queue is not the second fragment. -/
theorem Queued.mem_of_source_eq_none (h : Queued (a :: b :: queue))
    (hover : b.extent.start < a.extent.stop) (hstart : b.extent.start = a.extent.start)
    (hf : f ∈ a :: b :: queue) (hnone : f.source = none) : f ∈ a :: queue := by
  rcases List.mem_cons.mp hf with rfl | hf
  · exact List.mem_cons_self
  · rcases List.mem_cons.mp hf with rfl | hf
    · exact absurd hnone (h.source_ne_none hover hstart)
    · exact List.mem_cons_of_mem _ hf

/-- Of two fragments that start together, what the longer one keeps is put back. -/
theorem Queued.rest (h : Queued (a :: b :: queue)) (hover : b.extent.start < a.extent.stop)
    (hstart : b.extent.start = a.extent.start) (hr : r.start = a.extent.stop) :
    Queued (a :: Fragment.insert { b with extent := r } queue) := by
  have hqueue : Queued (Fragment.insert { b with extent := r } queue) :=
    h.tail.tail.insert fun hnone => absurd hnone (h.source_ne_none hover hstart)
  refine hqueue.cons (h.isEmpty a List.mem_cons_self) fun f hf => ?_
  rcases mem_insert.mp hf with rfl | hf
  · have hlt : a.extent.start < r.start := by omega
    exact Or.inl hlt
  · exact h.head_le f (List.mem_cons_of_mem _ hf)

/-- What sticks out of the first fragment behind the second one is put back. -/
theorem Queued.tail_back (h : Queued (a :: b :: queue)) (hlt : a.extent.start < b.extent.start)
    (hr : r.start = b.extent.stop) (hr' : r.stop = a.extent.stop)
    (htail : b.extent.stop < a.extent.stop) :
    Queued (b :: Fragment.insert { a with extent := r } queue) := by
  have hb := b.extent.start_le_stop
  have hsource : a.source ≠ none := by
    intro hnone
    have := h.isEmpty a List.mem_cons_self hnone
    omega
  have hqueue : Queued (Fragment.insert { a with extent := r } queue) :=
    h.tail.tail.insert fun hnone => absurd hnone hsource
  refine hqueue.cons (h.tail.isEmpty b List.mem_cons_self) fun f hf => ?_
  rcases mem_insert.mp hf with rfl | hf
  · rw [le_def]
    dsimp only
    omega
  · exact h.tail.head_le f hf

/-- The queue is ordered, and its fragments of no size are the boundaries. -/
structure Ready (fs : List Fragment) : Prop where
  sorted : fs.Pairwise (· ≤ ·)
  source_eq_none_iff : ∀ f ∈ fs, f.source = none ↔ f.extent.IsEmpty

theorem Ready.queued (h : Ready fs) : Queued fs :=
  ⟨h.sorted, fun f hf => (h.source_eq_none_iff f hf).mp⟩

theorem Ready.tail (h : Ready (a :: fs)) : Ready fs :=
  ⟨h.queued.tail.sorted, fun f hf => h.source_eq_none_iff f (List.mem_cons_of_mem _ hf)⟩

/-! ### What a sweep gives -/

/-- The second fragment is a part of the first one. -/
abbrev HasPart (f g : Fragment) : Prop := f.source = g.source ∧ f.extent.Contains g.extent

theorem hasPart_self (f : Fragment) : f.HasPart f := ⟨rfl, Nat.le_refl _, Nat.le_refl _⟩

/-- The spans are a partition of what the fragments of the queue cover. -/
structure Cut (fs : List Fragment) (out : List Span) : Prop where
  nonempty : ∀ s ∈ out, ¬ s.extent.IsEmpty
  apart : out.Pairwise fun s t => s.extent.stop ≤ t.extent.start
  covers : ∀ p, (∃ s ∈ out, p ∈ s.extent) ↔ ∃ f ∈ fs, p ∈ f.extent
  within : ∀ s ∈ out, ∃ f ∈ fs, ∃ span, f.source = some span ∧ f.extent.Contains s.extent ∧
    s = { span with extent := s.extent }
  uncut : ∀ s ∈ out, ∀ f ∈ fs, f.source = none →
    ¬ (s.extent.start < f.extent.start ∧ f.extent.start < s.extent.stop)

/-- A part of a fragment is done, and the other queue is left, all of it behind that part. -/
structure Step (fs : List Fragment) (a : Fragment) (r : Region) (gs : List Fragment) : Prop where
  mem : a ∈ fs
  contains : a.extent.Contains r
  source_eq_none_iff : a.source = none ↔ r.IsEmpty
  behind : ∀ g ∈ gs, r.stop ≤ g.extent.start
  covers : ∀ p, (∃ f ∈ fs, p ∈ f.extent) ↔ p ∈ r ∨ ∃ g ∈ gs, p ∈ g.extent
  within : ∀ g ∈ gs, ∃ f ∈ fs, f.HasPart g
  boundaries : ∀ f ∈ fs, f.source = none → f = a ∨ f ∈ gs

/-- Nothing is done, but the other queue covers the same. -/
structure Recut (fs gs : List Fragment) : Prop where
  covers : ∀ p, (∃ f ∈ fs, p ∈ f.extent) ↔ ∃ g ∈ gs, p ∈ g.extent
  within : ∀ g ∈ gs, ∃ f ∈ fs, f.HasPart g
  boundaries : ∀ f ∈ fs, f.source = none → f ∈ gs

/-- Every piece of a later queue is a piece of an earlier one. -/
theorem Cut.within_of_within (h : Cut gs out) (hwithin : ∀ g ∈ gs, ∃ f ∈ fs, f.HasPart g) :
    ∀ s ∈ out, ∃ f ∈ fs, ∃ span, f.source = some span ∧ f.extent.Contains s.extent ∧
      s = { span with extent := s.extent } := by
  intro s hs
  obtain ⟨g, hg, span, hsource, hcontains, heq⟩ := h.within s hs
  obtain ⟨f, hf, hsame, hcontains'⟩ := hwithin g hg
  exact ⟨f, hf, span, hsame.trans hsource, ⟨Nat.le_trans hcontains'.1 hcontains.1,
    Nat.le_trans hcontains.2 hcontains'.2⟩, heq⟩

theorem Recut.cut (h : Recut fs gs) (hout : Cut gs out) : Cut fs out where
  nonempty := hout.nonempty
  apart := hout.apart
  covers p := (hout.covers p).trans (h.covers p).symm
  within := hout.within_of_within h.within
  uncut s hs f hf hnone := hout.uncut s hs f (h.boundaries f hf hnone) hnone

/-- An empty queue covers nothing. -/
theorem cut_nil : Cut [] [] := by
  constructor <;> simp

/-- What the rest of the sweep gives lies behind the part that is done. -/
theorem Step.stop_le (h : Step fs a r gs) (hout : Cut gs out) :
    ∀ s ∈ out, r.stop ≤ s.extent.start := by
  intro s hs
  obtain ⟨g, hg, _, -, hcontains, -⟩ := hout.within s hs
  exact Nat.le_trans (h.behind g hg) hcontains.1

/-- One step: the part that is done, in front of what the rest gives. -/
theorem Step.cut (h : Step fs a r gs) (hout : Cut gs out) : Cut fs (a.piece r ++ out) := by
  have hbehind := h.stop_le hout
  have hwithin := hout.within_of_within h.within
  cases hsource : a.source with
  | none =>
      -- A boundary gives no piece, and all pieces lie behind it.
      have hempty : r.IsEmpty := h.source_eq_none_iff.mp hsource
      have hpiece : a.piece r = [] := by rw [piece, hsource]; rfl
      rw [hpiece, List.nil_append]
      refine ⟨hout.nonempty, hout.apart, fun p => ?_, hwithin, fun s hs f hf hnone => ?_⟩
      · rw [hout.covers, h.covers, Region.mem_def]
        exact (or_iff_right (by omega)).symm
      · rcases h.boundaries f hf hnone with rfl | hf
        · have := hbehind s hs
          have := h.contains.1
          omega
        · exact hout.uncut s hs f hf hnone
  | some span =>
      have hpiece : a.piece r = [{ span with extent := r }] := by rw [piece, hsource]; rfl
      rw [hpiece, List.singleton_append]
      refine ⟨fun s hs => ?_, List.pairwise_cons.mpr ⟨hbehind, hout.apart⟩, fun p => ?_,
        fun s hs => ?_, fun s hs f hf hnone => ?_⟩
      · rcases List.mem_cons.mp hs with rfl | hs
        · intro hempty
          rw [h.source_eq_none_iff.mpr hempty] at hsource
          cases hsource
        · exact hout.nonempty s hs
      · rw [h.covers, ← hout.covers]
        simp
      · rcases List.mem_cons.mp hs with rfl | hs
        · exact ⟨a, h.mem, span, hsource, h.contains, rfl⟩
        · exact hwithin s hs
      · rcases h.boundaries f hf hnone with rfl | hf
        · rw [hsource] at hnone
          cases hnone
        · rcases List.mem_cons.mp hs with rfl | hs
          · have := h.behind f hf
            dsimp only
            omega
          · exact hout.uncut s hs f hf hnone

/-! ### The steps of the sweep -/

theorem Ready.head_le (h : Ready (a :: b :: queue)) : a ≤ b :=
  h.queued.head_le b List.mem_cons_self

theorem Ready.start_le (h : Ready (a :: b :: queue)) :
    ∀ f ∈ b :: queue, b.extent.start ≤ f.extent.start :=
  h.queued.start_le_tail

theorem Ready.drop_second (h : Ready (a :: b :: queue)) : Ready (a :: queue) :=
  ⟨h.queued.drop_second.sorted, List.forall_mem_cons.mpr
    ⟨h.source_eq_none_iff a List.mem_cons_self, h.tail.tail.source_eq_none_iff⟩⟩

/-- A fragment with nothing behind it is done. -/
theorem Ready.step_last (h : Ready [a]) : Step [a] a a.extent [] where
  mem := List.mem_cons_self
  contains := ⟨Nat.le_refl _, Nat.le_refl _⟩
  source_eq_none_iff := h.source_eq_none_iff a List.mem_cons_self
  behind g hg := by cases hg
  covers p := by simp
  within g hg := by cases hg
  boundaries f hf _ := Or.inl (List.mem_singleton.mp hf)

/-- A fragment that ends before the next one starts is done. -/
theorem Ready.step_apart (h : Ready (a :: b :: queue)) (hapart : a.extent.stop ≤ b.extent.start) :
    Step (a :: b :: queue) a a.extent (b :: queue) where
  mem := List.mem_cons_self
  contains := ⟨Nat.le_refl _, Nat.le_refl _⟩
  source_eq_none_iff := h.source_eq_none_iff a List.mem_cons_self
  behind g hg := Nat.le_trans hapart (h.start_le g hg)
  covers p := by simp
  within g hg := ⟨g, List.mem_cons_of_mem _ hg, g.hasPart_self⟩
  boundaries f hf _ := List.mem_cons.mp hf

/-- Of two fragments with one extent, the second one adds nothing. -/
theorem Ready.recut_same (h : Ready (a :: b :: queue)) (hsame : b.extent = a.extent)
    (hne : ¬ a.extent.IsEmpty) : Recut (a :: b :: queue) (a :: queue) where
  covers p := by simp [hsame]
  within g hg := by
    refine ⟨g, ?_, g.hasPart_self⟩
    rcases List.mem_cons.mp hg with rfl | hg
    · exact List.mem_cons_self
    · exact List.mem_cons_of_mem _ (List.mem_cons_of_mem _ hg)
  boundaries f hf hnone := by
    have ha := a.extent.start_le_stop
    have hstart : b.extent.start = a.extent.start := by rw [hsame]
    exact h.queued.mem_of_source_eq_none (by omega) hstart hf hnone

/-- Of two fragments that start together, the longer one loses what the other one has. -/
theorem Ready.recut_rest (h : Ready (a :: b :: queue)) (hover : b.extent.start < a.extent.stop)
    (hstart : b.extent.start = a.extent.start) (hr : r.start = a.extent.stop)
    (hr' : r.stop = b.extent.stop) :
    Recut (a :: b :: queue) (a :: insert { b with extent := r } queue) where
  covers p := by
    have hlast := r.start_le_stop
    simp only [List.mem_cons, mem_insert, exists_eq_or_imp, Region.mem_def]
    simp only [← or_assoc]
    refine or_congr_left ?_
    omega
  within := by
    refine forall_mem_cons_insert ?_ ?_ fun g hg => ?_
    · exact ⟨a, List.mem_cons_self, a.hasPart_self⟩
    · refine ⟨b, List.mem_cons_of_mem _ List.mem_cons_self, rfl, ?_, Nat.le_of_eq hr'⟩
      show b.extent.start ≤ r.start
      omega
    · exact ⟨g, List.mem_cons_of_mem _ (List.mem_cons_of_mem _ hg), g.hasPart_self⟩
  boundaries f hf hnone := by
    rcases List.mem_cons.mp (h.queued.mem_of_source_eq_none hover hstart hf hnone) with rfl | hf
    · exact List.mem_cons_self
    · exact List.mem_cons_of_mem _ (mem_insert.mpr (Or.inr hf))

theorem Ready.ready_rest (h : Ready (a :: b :: queue)) (hover : b.extent.start < a.extent.stop)
    (hstart : b.extent.start = a.extent.start) (hr : r.start = a.extent.stop)
    (hne : ¬ r.IsEmpty) : Ready (a :: insert { b with extent := r } queue) :=
  ⟨(h.queued.rest hover hstart hr).sorted,
    forall_mem_cons_insert (h.source_eq_none_iff a List.mem_cons_self)
      (iff_of_false (h.queued.source_ne_none hover hstart) hne) h.tail.tail.source_eq_none_iff⟩

/-- The first fragment is done up to where the second one starts, and ends before it does. -/
theorem Ready.step_head (h : Ready (a :: b :: queue)) (hlt : a.extent.start < b.extent.start)
    (hover : b.extent.start < a.extent.stop) (htail : a.extent.stop ≤ b.extent.stop)
    (hr : r.start = a.extent.start) (hr' : r.stop = b.extent.start) :
    Step (a :: b :: queue) a r (b :: queue) where
  mem := List.mem_cons_self
  contains := by
    constructor <;> omega
  source_eq_none_iff := by
    rw [h.source_eq_none_iff a List.mem_cons_self]
    omega
  behind g hg := Nat.le_trans (Nat.le_of_eq hr') (h.start_le g hg)
  covers p := by
    simp only [List.mem_cons, exists_eq_or_imp, Region.mem_def]
    simp only [← or_assoc]
    refine or_congr_left ?_
    omega
  within g hg := ⟨g, List.mem_cons_of_mem _ hg, g.hasPart_self⟩
  boundaries f hf _ := List.mem_cons.mp hf

/-- The first fragment is done up to where the second one starts, and sticks out behind it. -/
theorem Ready.step_tail (h : Ready (a :: b :: queue)) (tail : Region)
    (hlt : a.extent.start < b.extent.start) (hstart : tail.start = b.extent.stop)
    (hstop : tail.stop = a.extent.stop) (htail : b.extent.stop < a.extent.stop)
    (hr : r.start = a.extent.start) (hr' : r.stop = b.extent.start) :
    Step (a :: b :: queue) a r (b :: insert { a with extent := tail } queue) where
  mem := List.mem_cons_self
  contains := by
    have hb := b.extent.start_le_stop
    constructor <;> omega
  source_eq_none_iff := by
    have hb := b.extent.start_le_stop
    rw [h.source_eq_none_iff a List.mem_cons_self]
    omega
  behind := by
    refine forall_mem_cons_insert (Nat.le_of_eq hr') ?_ fun g hg => ?_
    · have hb := b.extent.start_le_stop
      show r.stop ≤ tail.start
      omega
    · exact Nat.le_trans (Nat.le_of_eq hr') (h.start_le g (List.mem_cons_of_mem _ hg))
  covers p := by
    have hb := b.extent.start_le_stop
    simp only [List.mem_cons, mem_insert, exists_eq_or_imp, Region.mem_def]
    simp only [← or_assoc]
    refine or_congr_left ?_
    omega
  within := by
    refine forall_mem_cons_insert ?_ ?_ fun g hg => ?_
    · exact ⟨b, List.mem_cons_of_mem _ List.mem_cons_self, b.hasPart_self⟩
    · have hb := b.extent.start_le_stop
      refine ⟨a, List.mem_cons_self, rfl, ?_, Nat.le_of_eq hstop⟩
      show a.extent.start ≤ tail.start
      omega
    · exact ⟨g, List.mem_cons_of_mem _ (List.mem_cons_of_mem _ hg), g.hasPart_self⟩
  boundaries f hf _ := by
    rcases List.mem_cons.mp hf with rfl | hf
    · exact Or.inl rfl
    · rcases List.mem_cons.mp hf with rfl | hf
      · exact Or.inr List.mem_cons_self
      · exact Or.inr (List.mem_cons_of_mem _ (mem_insert.mpr (Or.inr hf)))

theorem Ready.ready_tail (h : Ready (a :: b :: queue)) (tail : Region)
    (hlt : a.extent.start < b.extent.start) (hstart : tail.start = b.extent.stop)
    (hstop : tail.stop = a.extent.stop) (htail : b.extent.stop < a.extent.stop) :
    Ready (b :: insert { a with extent := tail } queue) := by
  have hb := b.extent.start_le_stop
  have hsource : a.source = none ↔ tail.IsEmpty := by
    rw [h.source_eq_none_iff a List.mem_cons_self]
    omega
  exact ⟨(h.queued.tail_back hlt hstart hstop htail).sorted,
    forall_mem_cons_insert (h.tail.source_eq_none_iff b List.mem_cons_self) hsource
      h.tail.tail.source_eq_none_iff⟩

/-- A whole sweep: it succeeds, and gives a partition. -/
theorem Ready.exists_sweep (h : Ready fs) : ∃ out, sweep fs = .ok out ∧ Cut fs out := by
  -- The cases are the branches of the sweep, each with the queue that it leaves.
  fun_induction sweep fs with
  | case1 => exact ⟨[], rfl, cut_nil⟩
  | case2 a =>
      refine ⟨_, rfl, ?_⟩
      have := h.step_last.cut cut_nil
      rwa [List.append_nil] at this
  | case3 a b queue hapart ih =>
      obtain ⟨out, hok, hcut⟩ := ih h.tail
      exact ⟨_, by rw [hok]; rfl, (h.step_apart hapart).cut hcut⟩
  | case4 a b queue hapart hstart fault hrest =>
      -- The order of the queue puts the shorter one first.
      have hle := le_def.mp h.head_le
      rw [Region.ofBounds_of_le (by omega)] at hrest
      cases hrest
  | case5 a b queue hapart hstart rest hrest hempty ih =>
      obtain ⟨hstart', hstop'⟩ := Region.ofBounds_eq_ok_iff.mp hrest
      obtain ⟨out, hok, hcut⟩ := ih h.drop_second
      have hsame : b.extent = a.extent := Region.ext hstart (by omega)
      exact ⟨out, hok, (h.recut_same hsame (by omega)).cut hcut⟩
  | case6 a b queue hapart hstart rest hrest hempty ih =>
      obtain ⟨hstart', hstop'⟩ := Region.ofBounds_eq_ok_iff.mp hrest
      have hover : b.extent.start < a.extent.stop := by omega
      obtain ⟨out, hok, hcut⟩ := ih (h.ready_rest hover hstart hstart' hempty)
      exact ⟨out, hok, (h.recut_rest hover hstart hstart' hstop').cut hcut⟩
  | case7 a b queue hapart hstart fault hhead =>
      have hle := start_le_of_le h.head_le
      rw [Region.ofBounds_of_le hle] at hhead
      cases hhead
  | case8 a b queue hapart hstart head hhead htail tail ih =>
      obtain ⟨hstart', hstop'⟩ := Region.ofBounds_eq_ok_iff.mp hhead
      have hle := start_le_of_le h.head_le
      have hlt : a.extent.start < b.extent.start := by omega
      obtain ⟨out, hok, hcut⟩ := ih (h.ready_tail tail hlt rfl rfl htail)
      exact ⟨_, by rw [hok]; rfl, (h.step_tail tail hlt rfl rfl htail hstart' hstop').cut hcut⟩
  | case9 a b queue hapart hstart head hhead htail ih =>
      obtain ⟨hstart', hstop'⟩ := Region.ofBounds_eq_ok_iff.mp hhead
      have hle := start_le_of_le h.head_le
      obtain ⟨out, hok, hcut⟩ := ih h.tail
      exact ⟨_, by rw [hok]; rfl,
        (h.step_head (by omega) (by omega) (by omega) hstart' hstop').cut hcut⟩

end Fragment

/-! ### The fragments of spans and lines -/

section Split

variable {spans : List Span} {lines : List Region} {f : Fragment}

theorem map_fragments (spans : List Span) (lines : List Region) :
    (fragments spans lines).map (fun f => (f.extent, f.source)) =
      spans.map (fun span => (span.extent, some span)) ++
        lines.flatMap fun line =>
          [(Region.point line.start, none), (Region.point line.stop, none)] := by
  rw [fragments, List.map_map]
  exact List.zipIdx_map_fst 0 _

/-- The fragments are the whole spans and the boundaries of the lines. -/
theorem exists_fragment_iff (spans : List Span) (lines : List Region) {extent : Region}
    {source : Option Span} :
    (∃ f ∈ fragments spans lines, f.extent = extent ∧ f.source = source) ↔
      (∃ span ∈ spans, span.extent = extent ∧ some span = source) ∨
        ∃ line ∈ lines, ∃ p ∈ [line.start, line.stop], .point p = extent ∧ none = source := by
  have hmem : (∃ f ∈ fragments spans lines, f.extent = extent ∧ f.source = source) ↔
      (extent, source) ∈ (fragments spans lines).map fun f => (f.extent, f.source) := by
    simp
  rw [hmem, map_fragments, List.mem_append, List.mem_map, List.mem_flatMap]
  simp [eq_comm]

theorem mem_queue : f ∈ (fragments spans lines).foldr Fragment.insert [] ↔
    f ∈ fragments spans lines := by
  induction fragments spans lines with
  | nil => rfl
  | cons g fs ih => rw [List.foldr_cons, Fragment.mem_insert, ih, List.mem_cons]

theorem queue_eq_insertionSort (fs : List Fragment) :
    fs.foldr Fragment.insert [] = fs.insertionSort (· ≤ ·) := by
  induction fs with
  | nil => rfl
  | cons f fs ih =>
      rw [List.foldr_cons, ih, Fragment.insert_eq_orderedInsert, List.insertionSort_cons]

/-- The queue that the sweep starts with. -/
theorem queued_fragments (spans : List Span) (lines : List Region) :
    Fragment.Queued ((fragments spans lines).foldr Fragment.insert []) := by
  refine ⟨?_, fun f hf hnone => ?_⟩
  · rw [queue_eq_insertionSort]
    exact List.pairwise_insertionSort _ _
  · rcases (exists_fragment_iff spans lines).mp ⟨f, mem_queue.mp hf, rfl, rfl⟩ with
      ⟨span, -, -, hsource⟩ | ⟨line, -, q, -, hextent, -⟩
    · rw [hnone] at hsource
      cases hsource
    · rw [← hextent]
      exact rfl

/-- The queue that the sweep of spans with some size starts with. -/
theorem ready_fragments (hne : ∀ s ∈ spans, ¬ s.extent.IsEmpty) :
    Fragment.Ready ((fragments spans lines).foldr Fragment.insert []) := by
  refine ⟨(queued_fragments spans lines).sorted, fun f hf => ?_⟩
  rcases (exists_fragment_iff spans lines).mp ⟨f, mem_queue.mp hf, rfl, rfl⟩ with
    ⟨span, hspan, hextent, hsource⟩ | ⟨line, -, p, -, hextent, hsource⟩
  · rw [← hextent, ← hsource]
    exact iff_of_false (by simp) (hne span hspan)
  · rw [← hextent, ← hsource]
    exact iff_of_true rfl rfl

/-- **Disjoint spans are a partition.** Cutting spans succeeds. No piece is empty, the pieces stand
one behind the other, and together they have the characters of the spans. Each piece is a part of a
span with the same colours, and no boundary of a line lies inside a piece. -/
theorem splitDisjoint_partition (lines : List Region) (hne : ∀ s ∈ spans, ¬ s.extent.IsEmpty) :
    ∃ out, splitDisjoint spans lines = .ok out ∧
      (∀ s ∈ out, ¬ s.extent.IsEmpty) ∧
      (out.Pairwise fun s t => s.extent.stop ≤ t.extent.start) ∧
      (∀ p, (∃ s ∈ out, p ∈ s.extent) ↔ ∃ s ∈ spans, p ∈ s.extent) ∧
      (∀ s ∈ out, ∃ t ∈ spans, t.extent.Contains s.extent ∧ s.foreground = t.foreground ∧
        s.background = t.background) ∧
      ∀ s ∈ out, ∀ line ∈ lines, ∀ p ∈ [line.start, line.stop],
        ¬ (s.extent.start < p ∧ p < s.extent.stop) := by
  unfold splitDisjoint
  split
  · rename_i hnil
    rw [List.isEmpty_iff] at hnil
    subst hnil
    exact ⟨[], rfl, by simp⟩
  · obtain ⟨out, hok, hcut⟩ := (ready_fragments hne).exists_sweep
    refine ⟨out, hok, hcut.nonempty, hcut.apart, fun p => ?_, fun s hs => ?_,
      fun s hs line hline p hp => ?_⟩
    · rw [hcut.covers]
      constructor
      · intro hex
        obtain ⟨f, hf, hp⟩ := hex
        rcases (exists_fragment_iff spans lines).mp ⟨f, mem_queue.mp hf, rfl, rfl⟩ with
          ⟨span, hspan, hextent, -⟩ | ⟨line, -, q, -, hextent, -⟩
        · exact ⟨span, hspan, hextent ▸ hp⟩
        · rw [← hextent] at hp
          exact absurd hp Region.not_mem_point
      · intro hex
        obtain ⟨span, hspan, hp⟩ := hex
        obtain ⟨f, hf, hextent, -⟩ :=
          (exists_fragment_iff spans lines).mpr (Or.inl ⟨span, hspan, rfl, rfl⟩)
        exact ⟨f, mem_queue.mpr hf, hextent ▸ hp⟩
    · obtain ⟨f, hf, span, hsource, hcontains, heq⟩ := hcut.within s hs
      rcases (exists_fragment_iff spans lines).mp ⟨f, mem_queue.mp hf, rfl, rfl⟩ with
        ⟨t, ht, hextent, hsame⟩ | ⟨line, -, q, -, -, hnone⟩
      · rw [hsource] at hsame
        obtain rfl := Option.some.inj hsame
        rw [heq]
        exact ⟨t, ht, hextent ▸ hcontains, rfl, rfl⟩
      · rw [hsource] at hnone
        cases hnone
    · obtain ⟨f, hf, hextent, hsource⟩ :=
        (exists_fragment_iff spans lines).mpr (Or.inr ⟨line, hline, p, hp, rfl, rfl⟩)
      have := hcut.uncut s hs f (mem_queue.mpr hf) hsource
      rwa [hextent] at this

/-- Two spans, one in the other, and a line that starts inside both. -/
theorem splitDisjoint_nested :
    (∀ s ∈ ([⟨⟨0, 6, by omega⟩, .primary, []⟩, ⟨⟨2, 4, by omega⟩, .adjacent, []⟩] : List Span),
      ¬ s.extent.IsEmpty) ∧
    ∃ out, splitDisjoint
        [⟨⟨0, 6, by omega⟩, .primary, []⟩, ⟨⟨2, 4, by omega⟩, .adjacent, []⟩] [⟨3, 9, by omega⟩] =
          .ok out ∧
      (∀ p, (∃ s ∈ out, p ∈ s.extent) ↔ p < 6) ∧
      ∀ s ∈ out, ¬ (s.extent.start < 3 ∧ 3 < s.extent.stop) := by
  have hne : ∀ s ∈
      ([⟨⟨0, 6, by omega⟩, .primary, []⟩, ⟨⟨2, 4, by omega⟩, .adjacent, []⟩] : List Span),
      ¬ s.extent.IsEmpty := by decide
  obtain ⟨out, hok, -, -, hcovers, -, huncut⟩ := splitDisjoint_partition [⟨3, 9, by omega⟩] hne
  refine ⟨hne, out, hok, fun p => ?_, fun s hs => huncut s hs _ List.mem_cons_self 3 (by decide)⟩
  rw [hcovers]
  simp only [List.mem_cons, List.not_mem_nil, or_false, exists_eq_or_imp, exists_eq_left,
    Region.mem_def]
  omega

end Split
end BracketPaint
