import BracketPaint.Proofs.StartsLast
/-!
# Cutting again

What `splitDisjoint` gives back is left alone when it is cut once more at the same lines
(`splitDisjoint_splitDisjoint`). Here spans may be empty, which makes order matter: pieces of no
size at one place come in the order of their spans, and a cut must not exchange them.

The pieces of a sweep stand one behind the other, and no boundary lies inside one of them (`Laid`).
These are the spans that are left alone (`splitDisjoint_eq_self_iff`): in the queue of such spans
and the boundaries each fragment ends where the next one starts or before, and a sweep of that queue
takes no other branch than the first one (`sweep_of_apart`). It gives the spans in the order of the
queue, and that is the order they came in, because the number of a span decides among spans of one
extent.
-/

namespace BracketPaint

namespace Fragment

variable {a : Fragment} {fs gs queue : List Fragment} {r : Region} {out : List Span}

/-! ### Pieces one behind the other -/

/-- The pieces stand one behind the other and not before the fragments of the queue, and no boundary
of the queue lies inside one. -/
structure Laid (fs : List Fragment) (out : List Span) : Prop where
  apart : out.Pairwise fun s t => s.extent.stop ≤ t.extent.start
  behind : ∀ lo, (∀ f ∈ fs, lo ≤ f.extent.start) → ∀ s ∈ out, lo ≤ s.extent.start
  uncut : ∀ s ∈ out, ∀ f ∈ fs, f.source = none →
    ¬ (s.extent.start < f.extent.start ∧ f.extent.start < s.extent.stop)

theorem laid_nil (fs : List Fragment) : Laid fs [] := by
  constructor <;> simp

/-- One step: a part of the first fragment is done, and the rest is behind it. -/
theorem Laid.step (h : Laid gs out) (hbehind : ∀ g ∈ gs, r.stop ≤ g.extent.start)
    (hstart : r.start = a.extent.start)
    (hboundary : ∀ f ∈ queue, f.source = none → f ∈ gs) :
    Laid (a :: queue) (a.piece r ++ out) := by
  have hr := r.start_le_stop
  have hout := h.behind r.stop hbehind
  have hpiece : ∀ s ∈ a.piece r, s.extent = r := by
    intro s hs
    rw [piece, Option.mem_toList, Option.map_eq_some_iff] at hs
    obtain ⟨span, -, rfl⟩ := hs
    rfl
  refine ⟨List.pairwise_append.mpr ⟨?_, h.apart, fun s hs t ht => ?_⟩, fun lo hlo s hs => ?_,
    fun s hs f hf hnone => ?_⟩
  · unfold piece
    cases a.source <;> simp
  · rw [hpiece s hs]
    exact hout t ht
  · have := hlo a List.mem_cons_self
    rcases List.mem_append.mp hs with hs | hs
    · rw [hpiece s hs]
      omega
    · have := hout s hs
      omega
  · have hf : f = a ∨ f ∈ gs := (List.mem_cons.mp hf).imp_right fun hf => hboundary f hf hnone
    rcases List.mem_append.mp hs with hmem | hmem
    · rw [hpiece s hmem]
      rcases hf with rfl | hf
      · omega
      · have := hbehind f hf
        omega
    · rcases hf with rfl | hf
      · have := hout s hmem
        omega
      · exact h.uncut s hmem f hf hnone

/-- Nothing is done, and the other queue starts where this one does and has its boundaries. -/
theorem Laid.recut (h : Laid gs out)
    (hstart : ∀ lo, (∀ f ∈ fs, lo ≤ f.extent.start) → ∀ g ∈ gs, lo ≤ g.extent.start)
    (hboundary : ∀ f ∈ fs, f.source = none → f ∈ gs) : Laid fs out :=
  ⟨h.apart, fun lo hlo => h.behind lo (hstart lo hlo),
    fun s hs f hf hnone => h.uncut s hs f (hboundary f hf hnone) hnone⟩

/-- A whole sweep: it succeeds, and its pieces stand one behind the other. -/
theorem Queued.exists_sweep (h : Queued fs) : ∃ out, sweep fs = .ok out ∧ Laid fs out := by
  fun_induction sweep fs with
  | case1 => exact ⟨[], rfl, laid_nil []⟩
  | case2 a =>
      have hlaid : Laid [a] (a.piece a.extent ++ []) :=
        (laid_nil []).step (by simp) rfl (by simp)
      rw [List.append_nil] at hlaid
      exact ⟨_, rfl, hlaid⟩
  | case3 a b queue hapart ih =>
      obtain ⟨out, hok, hlaid⟩ := ih h.tail
      refine ⟨_, by rw [hok]; rfl, hlaid.step (fun g hg => ?_) rfl fun f hf _ => hf⟩
      exact Nat.le_trans hapart (h.start_le_tail g hg)
  | case4 a b queue hapart hstart fault hrest =>
      have hle := le_def.mp (h.head_le b List.mem_cons_self)
      rw [Region.ofBounds_of_le (by omega)] at hrest
      cases hrest
  | case5 a b queue hapart hstart rest hrest hempty ih =>
      obtain ⟨out, hok, hlaid⟩ := ih h.drop_second
      refine ⟨out, hok, hlaid.recut (fun lo hlo g hg => hlo g ?_) fun f hf hnone => ?_⟩
      · rcases List.mem_cons.mp hg with rfl | hg
        · exact List.mem_cons_self
        · exact List.mem_cons_of_mem _ (List.mem_cons_of_mem _ hg)
      · exact h.mem_of_source_eq_none (by omega) hstart hf hnone
  | case6 a b queue hapart hstart rest hrest hempty ih =>
      obtain ⟨hstart', hstop'⟩ := Region.ofBounds_eq_ok_iff.mp hrest
      obtain ⟨out, hok, hlaid⟩ := ih (h.rest (by omega) hstart hstart')
      refine ⟨out, hok, hlaid.recut (fun lo hlo => ?_) fun f hf hnone => ?_⟩
      · have ha := hlo a List.mem_cons_self
        refine forall_mem_cons_insert ha ?_ fun g hg =>
          hlo g (List.mem_cons_of_mem _ (List.mem_cons_of_mem _ hg))
        show lo ≤ rest.start
        omega
      · have hmem := h.mem_of_source_eq_none (by omega) hstart hf hnone
        exact (List.mem_cons.mp hmem).elim (fun heq => heq ▸ List.mem_cons_self) fun hmem =>
          List.mem_cons_of_mem _ (mem_insert.mpr (Or.inr hmem))
  | case7 a b queue hapart hstart fault hhead =>
      rw [Region.ofBounds_of_le (h.start_le b List.mem_cons_self)] at hhead
      cases hhead
  | case8 a b queue hapart hstart head hhead htail tail ih =>
      obtain ⟨hstart', hstop'⟩ := Region.ofBounds_eq_ok_iff.mp hhead
      have hle := h.start_le b List.mem_cons_self
      obtain ⟨out, hok, hlaid⟩ := ih (h.tail_back (by omega) rfl rfl htail)
      refine ⟨_, by rw [hok]; rfl, hlaid.step ?_ hstart' fun f hf _ => ?_⟩
      · refine forall_mem_cons_insert (Nat.le_of_eq hstop') ?_ fun g hg =>
          Nat.le_trans (Nat.le_of_eq hstop') (h.tail.start_le g hg)
        have hb := b.extent.start_le_stop
        show head.stop ≤ b.extent.stop
        omega
      · rcases List.mem_cons.mp hf with rfl | hf
        · exact List.mem_cons_self
        · exact List.mem_cons_of_mem _ (mem_insert.mpr (Or.inr hf))
  | case9 a b queue hapart hstart head hhead htail ih =>
      obtain ⟨hstart', hstop'⟩ := Region.ofBounds_eq_ok_iff.mp hhead
      obtain ⟨out, hok, hlaid⟩ := ih h.tail
      refine ⟨_, by rw [hok]; rfl, hlaid.step (fun g hg => ?_) hstart' fun f hf _ => hf⟩
      exact Nat.le_trans (Nat.le_of_eq hstop') (h.start_le_tail g hg)

/-! ### Queues that are not cut -/

/-- If each fragment ends where the next one starts or before, all pieces are whole. -/
theorem sweep_of_apart (h : fs.Pairwise fun f g => f.extent.stop ≤ g.extent.start) :
    sweep fs = .ok (fs.flatMap fun f => f.piece f.extent) := by
  induction fs with
  | nil => rw [sweep, List.flatMap_nil]
  | cons a fs ih =>
      obtain ⟨hapart, hrest⟩ := List.pairwise_cons.mp h
      cases fs with
      | nil => rw [sweep, List.flatMap_cons, List.flatMap_nil, List.append_nil]
      | cons b queue =>
          rw [sweep, if_pos (hapart b List.mem_cons_self), ih hrest, List.flatMap_cons]
          rfl

end Fragment

/-! ### Pieces and boundaries in a queue -/

section Split

variable {spans out : List Span} {lines : List Region} {s t : Span} {f g : Fragment} {p : Nat}

/-- The pieces are in order, and no line begins or ends inside one. -/
structure Settled (lines : List Region) (spans : List Span) : Prop where
  apart : spans.Pairwise fun s t => s.extent.stop ≤ t.extent.start
  uncut : ∀ s ∈ spans, ∀ line ∈ lines, ∀ p ∈ [line.start, line.stop],
    ¬ (s.extent.start < p ∧ p < s.extent.stop)

/-- Cutting succeeds for all spans, and settles them. -/
theorem exists_settled (spans : List Span) (lines : List Region) :
    ∃ out, splitDisjoint spans lines = .ok out ∧ Settled lines out := by
  unfold splitDisjoint
  split
  · exact ⟨[], rfl, List.Pairwise.nil, by simp⟩
  · obtain ⟨out, hok, hlaid⟩ := (queued_fragments spans lines).exists_sweep
    refine ⟨out, hok, hlaid.apart, fun s hs line hline p hp => ?_⟩
    obtain ⟨f, hf, hextent, hsource⟩ :=
      (exists_fragment_iff spans lines).mpr (Or.inr ⟨line, hline, p, hp, rfl, rfl⟩)
    have := hlaid.uncut s hs f (mem_queue.mpr hf) hsource
    rwa [hextent] at this

/-- The fragments come in the order of their numbers. -/
theorem pairwise_seq_fragments (spans : List Span) (lines : List Region) :
    (fragments spans lines).Pairwise fun f g => f.seq < g.seq := by
  have hseqs : (fragments spans lines).map Fragment.seq =
      List.range' 0 (fragments spans lines).length := by
    rw [fragments, List.map_map, List.length_map, List.length_zipIdx]
    exact List.zipIdx_map_snd 0 _
  rw [← List.pairwise_map, hseqs]
  exact List.pairwise_lt_range'

/-- A fragment is a span with its number, or a boundary. -/
theorem fragment_cases (hf : f ∈ fragments spans lines) :
    (∃ s, spans[f.seq]? = some s ∧ f.extent = s.extent ∧ f.source = some s) ∨
      ∃ line ∈ lines, ∃ p ∈ [line.start, line.stop], f.extent = .point p ∧ f.source = none := by
  have hget := mem_fragments_iff.mp hf
  by_cases hlt : f.seq < spans.length
  · rw [List.getElem?_append_left (by simpa using hlt), List.getElem?_map,
      List.getElem?_eq_getElem hlt] at hget
    obtain ⟨hextent, hsource⟩ := Prod.mk.inj (Option.some.inj hget)
    exact Or.inl ⟨_, List.getElem?_eq_getElem hlt, hextent.symm, hsource.symm⟩
  · rw [List.getElem?_append_right (by simpa using hlt)] at hget
    obtain ⟨line, hline, hmem⟩ := List.mem_flatMap.mp (List.mem_of_getElem? hget)
    rcases List.mem_pair.mp hmem with heq | heq <;>
      obtain ⟨hextent, hsource⟩ := Prod.mk.inj heq
    · exact Or.inr ⟨line, hline, line.start, by simp, hextent, hsource⟩
    · exact Or.inr ⟨line, hline, line.stop, by simp, hextent, hsource⟩

/-- The whole pieces of the fragments are the spans. -/
theorem flatMap_piece_fragments (spans : List Span) (lines : List Region) :
    ((fragments spans lines).flatMap fun f => f.piece f.extent) = spans := by
  have hpieces : ((fragments spans lines).flatMap fun f => f.piece f.extent) =
      ((fragments spans lines).map fun f => (f.extent, f.source)).flatMap fun x =>
        (x.2.map fun span => { span with extent := x.1 }).toList := by
    rw [List.flatMap_map]
    rfl
  have hboundaries : ((lines.flatMap fun line =>
      [(Region.point line.start, none), (Region.point line.stop, none)]).flatMap
        fun x : Region × Option Span =>
          (x.2.map fun span => { span with extent := x.1 }).toList) = [] := by
    rw [List.flatMap_eq_nil_iff]
    intro x hx
    obtain ⟨line, -, hmem⟩ := List.mem_flatMap.mp hx
    rcases List.mem_pair.mp hmem with rfl | rfl <;> rfl
  rw [hpieces, map_fragments, List.flatMap_append, hboundaries, List.append_nil, List.flatMap_map]
  exact (List.flatMap_pure_eq_map _ _).trans (List.map_id _)

/-! ### Settled spans -/

namespace Settled

/-- Of two spans, the one with the lower number ends before the other one starts. -/
theorem stop_le_of_seq_lt (h : Settled lines spans) {i j : Nat} (hs : spans[i]? = some s)
    (ht : spans[j]? = some t) (hij : i < j) : s.extent.stop ≤ t.extent.start := by
  obtain ⟨hi, rfl⟩ := List.getElem?_eq_some_iff.mp hs
  obtain ⟨hj, rfl⟩ := List.getElem?_eq_some_iff.mp ht
  exact List.pairwise_iff_getElem.mp h.apart i j hi hj hij

/-- In a queue of settled spans, each fragment ends where a later one starts or before. -/
theorem stop_le_of_le (h : Settled lines spans) (hf : f ∈ fragments spans lines)
    (hg : g ∈ fragments spans lines) (hne : f ≠ g) (hle : f ≤ g) :
    f.extent.stop ≤ g.extent.start := by
  have hle' := Fragment.le_def.mp hle
  have hgs := g.extent.start_le_stop
  rcases fragment_cases hf with ⟨s, hs, hextent, -⟩ | ⟨line, hline, p, hp, hextent, -⟩
  · rcases fragment_cases hg with ⟨t, ht, hextent', -⟩ | ⟨line, hline, p, hp, hextent', -⟩
    · rcases Nat.lt_trichotomy f.seq g.seq with hlt | heq | hlt
      · rw [hextent, hextent']
        exact h.stop_le_of_seq_lt hs ht hlt
      · exact absurd (numbered_fragments spans lines f hf g hg heq) hne
      · -- The other way round, both have no size and are at one place.
        have := h.stop_le_of_seq_lt ht hs hlt
        rw [← hextent, ← hextent'] at this
        omega
    · have huncut := h.uncut s (List.mem_of_getElem? hs) line hline p hp
      have hstart : g.extent.start = p := by rw [hextent']; rfl
      have hstop : g.extent.stop = p := by rw [hextent']; rfl
      rw [← hextent] at huncut
      omega
  · have hstart : f.extent.start = p := by rw [hextent]; rfl
    have hstop : f.extent.stop = p := by rw [hextent]; rfl
    omega

/-- The spans among the fragments of settled spans are in the order of the queue. -/
theorem le_of_seq_lt (h : Settled lines spans) (hf : f ∈ fragments spans lines)
    (hg : g ∈ fragments spans lines) (hsource : f.source.isSome) (hsource' : g.source.isSome)
    (hlt : f.seq < g.seq) : f ≤ g := by
  rcases fragment_cases hf with ⟨s, hs, hextent, -⟩ | ⟨_, -, _, -, -, hnone⟩
  · rcases fragment_cases hg with ⟨t, ht, hextent', -⟩ | ⟨_, -, _, -, -, hnone⟩
    · have hstop := h.stop_le_of_seq_lt hs ht hlt
      have hfs := f.extent.start_le_stop
      have hgs := g.extent.start_le_stop
      rw [← hextent, ← hextent'] at hstop
      rw [Fragment.le_def]
      omega
    · rw [hnone] at hsource'
      cases hsource'
  · rw [hnone] at hsource
    cases hsource

end Settled

theorem flatMap_piece_filter (fs : List Fragment) :
    ((fs.filter fun f => f.source.isSome).flatMap fun f => f.piece f.extent) =
      fs.flatMap fun f => f.piece f.extent := by
  induction fs with
  | nil => rfl
  | cons f fs ih =>
      rw [List.filter_cons, List.flatMap_cons]
      cases hsource : f.source with
      | none =>
          have hpiece : f.piece f.extent = [] := by rw [Fragment.piece, hsource]; rfl
          rw [hpiece, List.nil_append]
          exact ih
      | some span => exact congrArg _ ih

/-- The queue has the spans in the order in which they come. -/
theorem Settled.flatMap_queue (h : Settled lines spans) :
    (((fragments spans lines).foldr Fragment.insert []).flatMap fun f => f.piece f.extent) =
      spans := by
  have hperm : ((fragments spans lines).foldr Fragment.insert []).Perm (fragments spans lines) := by
    rw [queue_eq_insertionSort]
    exact List.perm_insertionSort _ _
  have hordered : ((fragments spans lines).filter fun f => f.source.isSome).Pairwise (· ≤ ·) := by
    rw [List.pairwise_filter]
    refine (pairwise_seq_fragments spans lines).imp_of_mem fun hf hg hlt hsource hsource' => ?_
    exact h.le_of_seq_lt hf hg hsource hsource' hlt
  have hqueue := (queued_fragments spans lines).sorted.filter fun f => f.source.isSome
  have hsame : (((fragments spans lines).foldr Fragment.insert []).filter
      fun f => f.source.isSome) = (fragments spans lines).filter fun f => f.source.isSome := by
    refine List.Perm.eq_of_pairwise (fun f g hf hg hfg hgf => ?_) hqueue hordered
      (hperm.filter _)
    -- Two fragments that come before each other have one number.
    refine numbered_fragments spans lines f (hperm.mem_iff.mp (List.mem_of_mem_filter hf)) g
      (List.mem_of_mem_filter hg) ?_
    rw [Fragment.le_def] at hfg hgf
    omega
  rw [← flatMap_piece_filter, hsame, flatMap_piece_filter, flatMap_piece_fragments]

/-- Settled spans are those that are not cut. -/
theorem splitDisjoint_eq_self_iff :
    splitDisjoint spans lines = .ok spans ↔ Settled lines spans := by
  refine ⟨fun h => ?_, fun h => ?_⟩
  · obtain ⟨out, hok, hsettled⟩ := exists_settled spans lines
    rw [h] at hok
    exact Except.ok.inj hok ▸ hsettled
  unfold splitDisjoint
  split
  · rename_i hnil
    rw [List.isEmpty_iff.mp hnil]
  · have hsorted := (queued_fragments spans lines).sorted
    have hseqs : ((fragments spans lines).foldr Fragment.insert []).Nodup := by
      rw [queue_eq_insertionSort, (List.perm_insertionSort _ _).nodup_iff]
      exact (pairwise_seq_fragments spans lines).imp fun hlt heq =>
        Nat.ne_of_lt hlt (congrArg Fragment.seq heq)
    have hapart : ((fragments spans lines).foldr Fragment.insert []).Pairwise fun f g =>
        f.extent.stop ≤ g.extent.start :=
      (hsorted.and hseqs).imp_of_mem fun hf hg hfg =>
        h.stop_le_of_le (mem_queue.mp hf) (mem_queue.mp hg) hfg.2 hfg.1
    rw [Fragment.sweep_of_apart hapart, h.flatMap_queue]

/-- **Cutting again changes nothing.** Cutting spans succeeds, whether they are empty or not, and
cutting the pieces once more at the same lines gives the same pieces in the same order. -/
theorem splitDisjoint_splitDisjoint (spans : List Span) (lines : List Region) :
    ∃ out, splitDisjoint spans lines = .ok out ∧ splitDisjoint out lines = .ok out := by
  obtain ⟨out, hok, hsettled⟩ := exists_settled spans lines
  exact ⟨out, hok, splitDisjoint_eq_self_iff.mpr hsettled⟩

end Split

end BracketPaint
