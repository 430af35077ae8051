import BracketPaint.Proofs.Outcome
import BracketPaint.Proofs.Partition
/-!
# The innermost span wins

Where spans are nested, each piece that `splitDisjoint` cuts off belongs to the span that ends first
among those that cover it (`splitDisjoint_endsFirst`).

The sweep decides between two fragments at a time, and puts tails of fragments back into the queue,
so the queue is not as tidy as the spans were: a tail may start inside a fragment that ends before
it. It does so only where a third fragment ends still earlier, which is why nesting is asked for
only from the fragment that ends first at an offset (`Nested`). A step does not change which
fragments end first at the offsets that are left (`Trim`).
-/

namespace BracketPaint

namespace Fragment

variable {a b f : Fragment} {fs gs queue : List Fragment} {r : Region} {out : List Span}
variable {lo p : Nat}

/-! ### The fragment that ends first -/

/-- Of the fragments that cover the offset, this one ends first. -/
structure EndsFirst (fs : List Fragment) (f : Fragment) (p : Nat) : Prop where
  mem : p ∈ f.extent
  stop_le : ∀ g ∈ fs, p ∈ g.extent → f.extent.stop ≤ g.extent.stop

/-- What starts inside a fragment, behind an offset where that one ends first, ends inside it. -/
def Nested (fs : List Fragment) : Prop :=
  ∀ f ∈ fs, ∀ p, EndsFirst fs f p → ∀ g ∈ fs, p < g.extent.start →
    g.extent.start < f.extent.stop → g.extent.stop < f.extent.stop

theorem endsFirst_head (hstart : ∀ g ∈ queue, r.stop ≤ g.extent.start)
    (hcontains : a.extent.Contains r) (hp : p ∈ r) : EndsFirst (a :: queue) a p := by
  rw [Region.mem_def] at hp
  constructor
  · rw [Region.mem_def]
    omega
  · intro g hg hpg
    rcases List.mem_cons.mp hg with rfl | hg
    · exact Nat.le_refl _
    · have := hstart g hg
      rw [Region.mem_def] at hpg
      omega

/-- The other queue has the fragments that are left behind an offset. They stop where they did, and
one that starts later than it did starts where another one stops. -/
structure Trim (lo : Nat) (fs gs : List Fragment) : Prop where
  start_le : ∀ g ∈ gs, lo ≤ g.extent.start
  within : ∀ g ∈ gs, ∃ f ∈ fs, f.HasPart g ∧ f.extent.stop = g.extent.stop ∧
    (f.extent.start = g.extent.start ∨
      ∃ h ∈ gs, h.extent.start ≤ lo ∧ h.extent.stop = g.extent.start)
  covers : ∀ f ∈ fs, ∀ p ∈ f.extent, lo ≤ p →
    ∃ g ∈ gs, p ∈ g.extent ∧ g.extent.stop ≤ f.extent.stop

/-- What ends first among the fragments that are left ended first before. -/
theorem Trim.endsFirst (h : Trim lo fs gs) {g : Fragment} (hg : g ∈ gs) (hpart : f.HasPart g)
    (hstop : f.extent.stop = g.extent.stop) (hfirst : EndsFirst gs g p) : EndsFirst fs f p := by
  have hp := Region.mem_def.mp hfirst.mem
  have hcontains := hpart.2
  constructor
  · rw [Region.mem_def]
    omega
  · intro k hk hpk
    have hlo := h.start_le g hg
    obtain ⟨k', hk', hpk', hle⟩ := h.covers k hk p hpk (by omega)
    rw [hstop]
    exact Nat.le_trans (hfirst.stop_le k' hk' hpk') hle

theorem Trim.nested (h : Trim lo fs gs) (hnested : Nested fs) : Nested gs := by
  intro f hf p hfirst g hg hlt hinside
  obtain ⟨f', hf', hpart, hstop, -⟩ := h.within f hf
  obtain ⟨g', hg', -, hstop', hstart⟩ := h.within g hg
  rcases hstart with hstart | ⟨k, hk, hle, hmeet⟩
  · rw [← hstop, ← hstop']
    exact hnested f' hf' p (h.endsFirst hf hpart hstop hfirst) g' hg' (by omega) (by omega)
  · -- A tail starts where another fragment stops, and that one covers the offset.
    have hp := Region.mem_def.mp hfirst.mem
    have hlo := h.start_le f hf
    have hpk : p ∈ k.extent := by
      rw [Region.mem_def]
      omega
    have := hfirst.stop_le k hk hpk
    omega

/-! ### Pieces of the innermost fragments -/

/-- Each piece belongs to a fragment that ends first wherever the piece lies. -/
def Won (fs : List Fragment) (out : List Span) : Prop :=
  ∀ s ∈ out, ∃ f ∈ fs, ∃ span, f.source = some span ∧ s = { span with extent := s.extent } ∧
    ∀ p ∈ s.extent, EndsFirst fs f p

theorem Trim.won (h : Trim lo fs gs) (hout : Won gs out) : Won fs out := by
  intro s hs
  obtain ⟨g, hg, span, hsource, heq, hfirst⟩ := hout s hs
  obtain ⟨f, hf, hpart, hstop, -⟩ := h.within g hg
  exact ⟨f, hf, span, hpart.1.trans hsource, heq,
    fun p hp => h.endsFirst hg hpart hstop (hfirst p hp)⟩

/-- A piece of the first fragment that lies before all others. -/
theorem won_piece (hstart : ∀ g ∈ queue, r.stop ≤ g.extent.start)
    (hcontains : a.extent.Contains r) : Won (a :: queue) (a.piece r) := by
  intro s hs
  unfold piece at hs
  cases hsource : a.source with
  | none => simp [hsource] at hs
  | some span =>
      simp only [hsource, Option.map_some, Option.toList_some, List.mem_singleton] at hs
      subst hs
      exact ⟨a, List.mem_cons_self, span, hsource, rfl,
        fun p hp => endsFirst_head hstart hcontains hp⟩

theorem Won.append {out' : List Span} (h : Won fs out) (h' : Won fs out') :
    Won fs (out ++ out') := by
  intro s hs
  rcases List.mem_append.mp hs with hs | hs
  · exact h s hs
  · exact h' s hs

/-! ### The steps of the sweep -/

theorem Ready.trim_apart (h : Ready (a :: b :: queue)) (hapart : a.extent.stop ≤ b.extent.start) :
    Trim b.extent.start (a :: b :: queue) (b :: queue) where
  start_le := h.start_le
  within g hg := ⟨g, List.mem_cons_of_mem _ hg, g.hasPart_self, rfl, Or.inl rfl⟩
  covers f hf p hp hlo := by
    rcases List.mem_cons.mp hf with rfl | hf
    · rw [Region.mem_def] at hp
      omega
    · exact ⟨f, hf, hp, Nat.le_refl _⟩

theorem Ready.trim_same (h : Ready (a :: b :: queue)) (hsame : b.extent = a.extent) :
    Trim b.extent.start (a :: b :: queue) (a :: queue) where
  start_le g hg := by
    rcases List.mem_cons.mp hg with rfl | hg
    · rw [hsame]
    · exact h.start_le g (List.mem_cons_of_mem _ hg)
  within g hg := by
    refine ⟨g, ?_, g.hasPart_self, rfl, Or.inl rfl⟩
    rcases List.mem_cons.mp hg with rfl | hg
    · exact List.mem_cons_self
    · exact List.mem_cons_of_mem _ (List.mem_cons_of_mem _ hg)
  covers f hf p hp _ := by
    rcases List.mem_cons.mp hf with rfl | hf
    · exact ⟨f, List.mem_cons_self, hp, Nat.le_refl _⟩
    · rcases List.mem_cons.mp hf with rfl | hf
      · rw [hsame] at hp ⊢
        exact ⟨a, List.mem_cons_self, hp, Nat.le_refl _⟩
      · exact ⟨f, List.mem_cons_of_mem _ hf, hp, Nat.le_refl _⟩

/-- Of two fragments that start together, the longer one starts where the other one stops. -/
theorem Ready.trim_rest (h : Ready (a :: b :: queue)) (hstart : b.extent.start = a.extent.start)
    (hr : r.start = a.extent.stop) (hr' : r.stop = b.extent.stop) :
    Trim b.extent.start (a :: b :: queue) (a :: insert { b with extent := r } queue) where
  start_le := by
    refine forall_mem_cons_insert (Nat.le_of_eq hstart) ?_ fun g hg =>
      h.start_le g (List.mem_cons_of_mem _ hg)
    have := a.extent.start_le_stop
    show b.extent.start ≤ r.start
    omega
  within := by
    refine forall_mem_cons_insert ?_ ?_ fun g hg => ?_
    · exact ⟨a, List.mem_cons_self, a.hasPart_self, rfl, Or.inl rfl⟩
    · refine ⟨b, List.mem_cons_of_mem _ List.mem_cons_self, ⟨rfl, ?_, Nat.le_of_eq hr'⟩, hr'.symm,
        Or.inr ⟨a, List.mem_cons_self, Nat.le_of_eq hstart.symm, hr.symm⟩⟩
      have := a.extent.start_le_stop
      show b.extent.start ≤ r.start
      omega
    · exact ⟨g, List.mem_cons_of_mem _ (List.mem_cons_of_mem _ hg), g.hasPart_self, rfl, Or.inl rfl⟩
  covers f hf p hp hlo := by
    rcases List.mem_cons.mp hf with rfl | hf
    · exact ⟨f, List.mem_cons_self, hp, Nat.le_refl _⟩
    · rcases List.mem_cons.mp hf with rfl | hf
      · rw [Region.mem_def] at hp
        by_cases hlt : p < a.extent.stop
        · have hle := le_def.mp h.head_le
          exact ⟨a, List.mem_cons_self, ⟨by omega, hlt⟩, by omega⟩
        · refine ⟨_, List.mem_cons_of_mem _ (mem_insert.mpr (Or.inl rfl)), ?_, Nat.le_of_eq hr'⟩
          rw [Region.mem_def]
          dsimp only
          omega
      · exact ⟨f, List.mem_cons_of_mem _ (mem_insert.mpr (Or.inr hf)), hp, Nat.le_refl _⟩

/-- Of a first fragment that sticks out behind the second one, the tail is left. -/
theorem Ready.trim_tail (h : Ready (a :: b :: queue)) (tail : Region)
    (hlt : a.extent.start < b.extent.start) (hstart : tail.start = b.extent.stop)
    (hstop : tail.stop = a.extent.stop) (htail : b.extent.stop < a.extent.stop) :
    Trim b.extent.start (a :: b :: queue) (b :: insert { a with extent := tail } queue) where
  start_le := by
    refine forall_mem_cons_insert (Nat.le_refl _) ?_ fun g hg =>
      h.start_le g (List.mem_cons_of_mem _ hg)
    have := b.extent.start_le_stop
    show b.extent.start ≤ tail.start
    omega
  within := by
    refine forall_mem_cons_insert ?_ ?_ fun g hg => ?_
    · exact ⟨b, List.mem_cons_of_mem _ List.mem_cons_self, b.hasPart_self, rfl, Or.inl rfl⟩
    · refine ⟨a, List.mem_cons_self, ⟨rfl, ?_, Nat.le_of_eq hstop⟩, hstop.symm,
        Or.inr ⟨b, List.mem_cons_self, Nat.le_refl _, hstart.symm⟩⟩
      have := b.extent.start_le_stop
      show a.extent.start ≤ tail.start
      omega
    · exact ⟨g, List.mem_cons_of_mem _ (List.mem_cons_of_mem _ hg), g.hasPart_self, rfl, Or.inl rfl⟩
  covers f hf p hp hlo := by
    rcases List.mem_cons.mp hf with rfl | hf
    · rw [Region.mem_def] at hp
      by_cases hin : p < b.extent.stop
      · exact ⟨b, List.mem_cons_self, ⟨hlo, hin⟩, Nat.le_of_lt htail⟩
      · refine ⟨_, List.mem_cons_of_mem _ (mem_insert.mpr (Or.inl rfl)), ?_, Nat.le_of_eq hstop⟩
        rw [Region.mem_def]
        dsimp only
        omega
    · rcases List.mem_cons.mp hf with rfl | hf
      · exact ⟨f, List.mem_cons_self, hp, Nat.le_refl _⟩
      · exact ⟨f, List.mem_cons_of_mem _ (mem_insert.mpr (Or.inr hf)), hp, Nat.le_refl _⟩

/-- In a nested queue, what starts inside the first fragment ends inside it. -/
theorem Ready.stop_lt (h : Ready (a :: b :: queue)) (hnested : Nested (a :: b :: queue))
    (hlt : a.extent.start < b.extent.start) (hover : b.extent.start < a.extent.stop) :
    b.extent.stop < a.extent.stop := by
  have hfirst : EndsFirst (a :: b :: queue) a a.extent.start := by
    refine endsFirst_head (r := ⟨a.extent.start, b.extent.start, Nat.le_of_lt hlt⟩) h.start_le
      ⟨Nat.le_refl _, Nat.le_of_lt hover⟩ ⟨Nat.le_refl _, hlt⟩
  exact hnested a List.mem_cons_self _ hfirst b (List.mem_cons_of_mem _ List.mem_cons_self) hlt
    hover

/-- A whole sweep of a nested queue gives every piece to the fragment that ends first there. -/
theorem Ready.won_of_sweep (h : Ready fs) (hnested : Nested fs) (hok : sweep fs = .ok out) :
    Won fs out := by
  -- The cases are those of `Ready.exists_sweep`; where a region is built, that it succeeds is known.
  fun_induction sweep fs generalizing out with
  | case1 =>
      cases hok
      intro s hs
      cases hs
  | case2 a =>
      cases hok
      exact won_piece (fun g hg => by cases hg) ⟨Nat.le_refl _, Nat.le_refl _⟩
  | case3 a b queue hapart ih =>
      obtain ⟨rest, hrest, rfl⟩ := map_eq_ok_iff.mp hok
      have htrim := h.trim_apart hapart
      exact (won_piece (fun g hg => Nat.le_trans hapart (h.start_le g hg))
        ⟨Nat.le_refl _, Nat.le_refl _⟩).append
          (htrim.won (ih h.tail (htrim.nested hnested) hrest))
  | case4 => cases hok
  | case5 a b queue hapart hstart rest hrest hempty ih =>
      obtain ⟨hstart', hstop'⟩ := Region.ofBounds_eq_ok_iff.mp hrest
      have htrim := h.trim_same (Region.ext hstart (by omega))
      exact htrim.won (ih h.drop_second (htrim.nested hnested) hok)
  | case6 a b queue hapart hstart rest hrest hempty ih =>
      obtain ⟨hstart', hstop'⟩ := Region.ofBounds_eq_ok_iff.mp hrest
      have htrim := h.trim_rest hstart hstart' hstop'
      have hready := h.ready_rest (by omega) hstart hstart' hempty
      exact htrim.won (ih hready (htrim.nested hnested) hok)
  | case7 => cases hok
  | case8 a b queue hapart hstart head hhead htail tail =>
      rename_i ih
      obtain ⟨hstart', hstop'⟩ := Region.ofBounds_eq_ok_iff.mp hhead
      have hle := start_le_of_le h.head_le
      have hlt : a.extent.start < b.extent.start := by omega
      obtain ⟨rest, hrest, rfl⟩ := map_eq_ok_iff.mp hok
      have htrim := h.trim_tail tail hlt rfl rfl htail
      have hready := h.ready_tail tail hlt rfl rfl htail
      refine (won_piece (fun g hg => ?_) ?_).append
        (htrim.won (ih hready (htrim.nested hnested) hrest))
      · exact Nat.le_trans (Nat.le_of_eq hstop') (h.start_le g hg)
      · have := b.extent.start_le_stop
        constructor <;> omega
  | case9 a b queue hapart hstart head hhead htail ih =>
      -- The second fragment would start inside the first one and not end inside it.
      have hle := start_le_of_le h.head_le
      exact absurd (h.stop_lt hnested (by omega) (by omega)) htail

end Fragment

/-! ### The pieces of spans -/

section Split

variable {spans out : List Span} {lines : List Region} {f : Fragment} {p : Nat}

/-- A region that starts inside another one ends before it does. -/
def Laminar (rs : List Region) : Prop :=
  ∀ a ∈ rs, ∀ b ∈ rs, a.start < b.start → b.start < a.stop → b.stop < a.stop

/-- A fragment of the queue that belongs to a span is that span as a whole. -/
theorem mem_of_source_eq_some {span : Span}
    (hf : f ∈ (fragments spans lines).foldr Fragment.insert []) (hsource : f.source = some span) :
    span ∈ spans ∧ span.extent = f.extent := by
  rcases (exists_fragment_iff spans lines).mp ⟨f, mem_queue.mp hf, rfl, rfl⟩ with
    ⟨t, ht, hextent, hsame⟩ | ⟨line, -, q, -, -, hnone⟩
  · rw [hsource] at hsame
    obtain rfl := Option.some.inj hsame
    exact ⟨ht, hextent⟩
  · rw [hsource] at hnone
    cases hnone

theorem exists_span_of_mem (hne : ∀ s ∈ spans, ¬ s.extent.IsEmpty)
    (hf : f ∈ (fragments spans lines).foldr Fragment.insert []) (hp : p ∈ f.extent) :
    ∃ span ∈ spans, f.source = some span ∧ span.extent = f.extent := by
  rw [Region.mem_def] at hp
  cases hsource : f.source with
  | none =>
      have hempty := ((ready_fragments hne).source_eq_none_iff f hf).mp hsource
      omega
  | some span =>
      obtain ⟨hspan, hextent⟩ := mem_of_source_eq_some hf hsource
      exact ⟨span, hspan, rfl, hextent⟩

theorem exists_fragment_of_mem (lines : List Region) {span : Span} (hspan : span ∈ spans) :
    ∃ f ∈ (fragments spans lines).foldr Fragment.insert [], f.extent = span.extent := by
  obtain ⟨f, hf, hextent, -⟩ :=
    (exists_fragment_iff spans lines).mpr (Or.inl ⟨span, hspan, rfl, rfl⟩)
  exact ⟨f, mem_queue.mpr hf, hextent⟩

/-- Cutting spans cuts the queue of their fragments. -/
theorem exists_cut (lines : List Region) (hne : ∀ s ∈ spans, ¬ s.extent.IsEmpty) :
    ∃ out, splitDisjoint spans lines = .ok out ∧
      Fragment.Cut ((fragments spans lines).foldr Fragment.insert []) out := by
  unfold splitDisjoint
  split
  · -- Without spans all fragments are boundaries, and no piece is needed to cover them.
    rename_i hnil
    refine ⟨[], rfl, by simp, List.Pairwise.nil, fun p => iff_of_false (by simp) ?_, by simp, by simp⟩
    rintro ⟨f, hf, hp⟩
    obtain ⟨span, hspan, -⟩ := exists_span_of_mem hne hf hp
    rw [List.isEmpty_iff.mp hnil] at hspan
    cases hspan
  · exact (ready_fragments hne).exists_sweep

/-- The pieces of spans: none is empty, one stands behind the other, and they cover the same. -/
theorem exists_splitDisjoint (lines : List Region) (hne : ∀ s ∈ spans, ¬ s.extent.IsEmpty) :
    ∃ out, splitDisjoint spans lines = .ok out ∧ (∀ s ∈ out, ¬ s.extent.IsEmpty) ∧
      (out.Pairwise fun s t => s.extent.stop ≤ t.extent.start) ∧
      ∀ p, (∃ s ∈ out, p ∈ s.extent) ↔ ∃ s ∈ spans, p ∈ s.extent := by
  obtain ⟨out, hok, hcut⟩ := exists_cut lines hne
  refine ⟨out, hok, hcut.nonempty, hcut.apart, fun p => (hcut.covers p).trans ⟨?_, ?_⟩⟩
  · rintro ⟨f, hf, hp⟩
    obtain ⟨span, hspan, -, hextent⟩ := exists_span_of_mem hne hf hp
    exact ⟨span, hspan, hextent ▸ hp⟩
  · rintro ⟨span, hspan, hp⟩
    obtain ⟨f, hf, hextent⟩ := exists_fragment_of_mem lines hspan
    exact ⟨f, hf, hextent ▸ hp⟩

theorem nested_fragments (hne : ∀ s ∈ spans, ¬ s.extent.IsEmpty)
    (hlaminar : Laminar (spans.map (·.extent))) :
    Fragment.Nested ((fragments spans lines).foldr Fragment.insert []) := by
  intro f hf p hfirst g hg hlt hinside
  have hp := Region.mem_def.mp hfirst.mem
  obtain ⟨s, hs, -, hextent⟩ := exists_span_of_mem hne hf hfirst.mem
  rcases Nat.eq_or_lt_of_le g.extent.start_le_stop with hempty | hsize
  · -- A boundary ends where it starts.
    omega
  · have hpg : g.extent.start ∈ g.extent := ⟨Nat.le_refl _, hsize⟩
    obtain ⟨t, ht, -, hextent'⟩ := exists_span_of_mem hne hg hpg
    rw [← hextent] at hp hinside ⊢
    rw [← hextent'] at hlt hinside ⊢
    exact hlaminar _ (List.mem_map_of_mem hs) _ (List.mem_map_of_mem ht) (by omega) hinside

/-- **The innermost span wins.** Of nested spans, each piece takes its colours from the one that
ends first among those that cover it. -/
theorem splitDisjoint_endsFirst (hne : ∀ s ∈ spans, ¬ s.extent.IsEmpty)
    (hlaminar : Laminar (spans.map (·.extent))) (hok : splitDisjoint spans lines = .ok out) :
    ∀ s ∈ out, ∃ t ∈ spans, s = { t with extent := s.extent } ∧ ∀ p ∈ s.extent,
      p ∈ t.extent ∧ ∀ u ∈ spans, p ∈ u.extent → t.extent.stop ≤ u.extent.stop := by
  intro s hs
  unfold splitDisjoint at hok
  split at hok
  · cases hok
    cases hs
  · have hwon := (ready_fragments hne).won_of_sweep (nested_fragments hne hlaminar) hok
    obtain ⟨f, hf, t, hsource, heq, hfirst⟩ := hwon s hs
    obtain ⟨ht, hextent⟩ := mem_of_source_eq_some hf hsource
    refine ⟨t, ht, heq, fun p hp => ⟨hextent ▸ (hfirst p hp).mem, fun u hu hpu => ?_⟩⟩
    obtain ⟨g, hg, hextent'⟩ := exists_fragment_of_mem lines hu
    rw [hextent, ← hextent']
    exact (hfirst p hp).stop_le g hg (hextent' ▸ hpu)

end Split
end BracketPaint
