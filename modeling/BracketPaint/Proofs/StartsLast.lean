import BracketPaint.Proofs.Winner
/-!
# Which span paints a character

Of the spans that cover a character, the one that starts last is meant to paint it. The sweep knows
fragments only, and the tail of a span that was interrupted starts where it is taken up again, so a
span may win by a start that is not its own.

What can be said of the sweep is said of ends, since a tail stops where its span does. As long as
every fragment that starts inside another one is met there by one that stops first, each piece
belongs to the span that stops first, the number breaking ties (`Fragment.Ready.stopsFirst_of_sweep`).
So the span that starts last paints every character, whatever the lines are, if it is also the one
that stops first; and else some lines make another one paint it (`splitDisjoint_startsLast`).
-/

namespace BracketPaint

/-- Of the members of a list that have a property, one is first in a total order. -/
theorem exists_first_of_mem {α : Type} {R : α → α → Prop} (htotal : ∀ a b, R a b ∨ R b a)
    (htrans : ∀ a b c, R a b → R b c → R a c) {P : α → Prop} {l : List α} {a : α} (ha : a ∈ l)
    (hP : P a) : ∃ b ∈ l, P b ∧ ∀ c ∈ l, P c → R b c := by
  have hrefl : ∀ a, R a a := fun a => (htotal a a).elim id id
  induction l generalizing a with
  | nil => cases ha
  | cons x l ih =>
      by_cases hrest : ∃ y ∈ l, P y
      · obtain ⟨y, hy, hPy⟩ := hrest
        obtain ⟨b, hb, hPb, hfirst⟩ := ih hy hPy
        by_cases hx : P x ∧ R x b
        · refine ⟨x, List.mem_cons_self, hx.1, fun c hc hPc => ?_⟩
          rcases List.mem_cons.mp hc with rfl | hc
          · exact hrefl c
          · exact htrans _ _ _ hx.2 (hfirst c hc hPc)
        · refine ⟨b, List.mem_cons_of_mem _ hb, hPb, fun c hc hPc => ?_⟩
          rcases List.mem_cons.mp hc with rfl | hc
          · exact (htotal b c).resolve_right fun h => hx ⟨hPc, h⟩
          · exact hfirst c hc hPc
      · rcases List.mem_cons.mp ha with rfl | ha
        · refine ⟨a, List.mem_cons_self, hP, fun c hc hPc => ?_⟩
          rcases List.mem_cons.mp hc with rfl | hc
          · exact hrefl c
          · exact absurd ⟨c, hc, hPc⟩ hrest
        · exact absurd ⟨a, ha, hP⟩ hrest

namespace Fragment

variable {a b f g : Fragment} {all fs queue : List Fragment} {r : Region} {out : List Span}
variable {lo p : Nat}

/-! ### The fragment that stops first -/

/-- The first fragment stops before the other one, or with it and has no higher number. -/
def StopsBefore (f g : Fragment) : Prop :=
  f.extent.stop < g.extent.stop ∨ f.extent.stop = g.extent.stop ∧ f.seq ≤ g.seq

theorem stopsBefore_self (f : Fragment) : f.StopsBefore f := Or.inr ⟨rfl, Nat.le_refl _⟩

theorem StopsBefore.trans {h : Fragment} (hfg : f.StopsBefore g) (hgh : g.StopsBefore h) :
    f.StopsBefore h := by
  unfold StopsBefore at hfg hgh ⊢
  omega

theorem stopsBefore_total (f g : Fragment) : f.StopsBefore g ∨ g.StopsBefore f := by
  unfold StopsBefore
  omega

/-- Fragments that start together are in the order of their ends. -/
theorem stopsBefore_of_le (h : f ≤ g) (hstart : f.extent.start = g.extent.start) :
    f.StopsBefore g := by
  rw [le_def] at h
  unfold StopsBefore
  omega

/-- Of the fragments that cover the offset, this one stops first. -/
structure StopsFirst (fs : List Fragment) (f : Fragment) (p : Nat) : Prop where
  mem : f ∈ fs
  covers : p ∈ f.extent
  stopsBefore : ∀ g ∈ fs, p ∈ g.extent → f.StopsBefore g

theorem exists_stopsFirst (hg : g ∈ fs) (hp : p ∈ g.extent) : ∃ f, StopsFirst fs f p := by
  obtain ⟨f, hf, hpf, hfirst⟩ := exists_first_of_mem stopsBefore_total
    (fun _ _ _ => StopsBefore.trans) (P := fun f => p ∈ f.extent) hg hp
  exact ⟨f, hf, hpf, hfirst⟩

/-- No two fragments have one number. -/
def Numbered (all : List Fragment) : Prop := ∀ f ∈ all, ∀ g ∈ all, f.seq = g.seq → f = g

/-- Where a fragment starts inside the one that stops first, one starts that stops before it. -/
def Interrupted (all : List Fragment) : Prop :=
  ∀ f p, StopsFirst all f p → ∀ g ∈ all, p < g.extent.start → g.extent.start < f.extent.stop →
    ∃ h ∈ all, h.extent.start = g.extent.start ∧ h.StopsBefore f

/-! ### What remains of the fragments -/

/-- The second fragment is what is left of the first one. Behind the place that the sweep has
reached, it is the whole of it or starts where another one stops. -/
structure Left (all : List Fragment) (lo : Nat) (f g : Fragment) : Prop where
  seq : f.seq = g.seq
  source : f.source = g.source
  stop : f.extent.stop = g.extent.stop
  start_le : f.extent.start ≤ g.extent.start
  start : lo < g.extent.start → f.extent.start = g.extent.start ∨
    ∃ h ∈ all, h.extent.start < h.extent.stop ∧ h.extent.stop = g.extent.start

/-- The queue is what remains of all fragments from a place on. At each offset it still has the
fragment that stops first there. -/
structure Remains (all : List Fragment) (lo : Nat) (fs : List Fragment) : Prop where
  left : ∀ g ∈ fs, ∃ f ∈ all, Left all lo f g
  whole : ∀ f ∈ all, lo < f.extent.start → f ∈ fs
  first : ∀ p, lo ≤ p → ∀ f, StopsFirst all f p → ∃ g ∈ fs, g.seq = f.seq ∧ p ∈ g.extent

theorem Left.mono {hi : Nat} (h : Left all lo f g) (hle : lo ≤ hi) : Left all hi f g :=
  ⟨h.seq, h.source, h.stop, h.start_le, fun hlt => h.start (Nat.lt_of_le_of_lt hle hlt)⟩

theorem Left.covers (h : Left all lo f g) (hp : p ∈ g.extent) : p ∈ f.extent := by
  have := h.start_le
  have := h.stop
  rw [Region.mem_def] at hp ⊢
  omega

/-- What covers an offset stops behind the fragment that stops first there. -/
theorem Left.stopsBefore (h : Left all lo f g) (hf : f ∈ all) {k : Fragment}
    (hfirst : StopsFirst all k p) (hp : p ∈ g.extent) : k.StopsBefore g := by
  have hbefore := hfirst.stopsBefore f hf (h.covers hp)
  have := h.stop
  have := h.seq
  unfold StopsBefore at hbefore ⊢
  omega

/-- At the start nothing is done. -/
theorem remains_of_mem_iff (hmem : ∀ f, f ∈ fs ↔ f ∈ all) : Remains all 0 fs where
  left g hg := ⟨g, (hmem g).mp hg, rfl, rfl, rfl, Nat.le_refl _, fun _ => Or.inl rfl⟩
  whole f hf _ := (hmem f).mpr hf
  first _ _ f hf := ⟨f, (hmem f).mpr hf.mem, rfl, hf.covers⟩

/-- The fragment that alone covers an offset is what is left of the one that stops first there. -/
theorem Remains.exists_stopsFirst (h : Remains all lo (a :: queue)) (hnum : Numbered all)
    (hlo : lo ≤ p) (hp : p ∈ a.extent) (hqueue : ∀ g ∈ queue, p < g.extent.start) :
    ∃ f, StopsFirst all f p ∧ Left all lo f a := by
  obtain ⟨fa, hfa, hleft⟩ := h.left a List.mem_cons_self
  obtain ⟨f, hfirst⟩ := Fragment.exists_stopsFirst hfa (hleft.covers hp)
  obtain ⟨g, hg, hseq, hpg⟩ := h.first p hlo f hfirst
  rcases List.mem_cons.mp hg with rfl | hg
  · obtain rfl := hnum fa hfa f hfirst.mem (hleft.seq.trans hseq)
    exact ⟨fa, hfirst, hleft⟩
  · have := hqueue g hg
    rw [Region.mem_def] at hpg
    omega

/-! ### The steps of the sweep -/

/-- A fragment that starts inside the first one stops before it. -/
theorem Remains.stopsBefore (h : Remains all lo (a :: b :: queue)) (hready : Ready (a :: b :: queue))
    (hnum : Numbered all) (hinter : Interrupted all) (hlo : lo ≤ a.extent.start)
    (hlt : a.extent.start < b.extent.start) (hover : b.extent.start < a.extent.stop) :
    b.StopsBefore a := by
  have hmem : b.extent.start - 1 ∈ a.extent := by
    rw [Region.mem_def]
    omega
  have hbehind : ∀ g ∈ b :: queue, b.extent.start - 1 < g.extent.start := by
    intro g hg
    have := hready.start_le g hg
    omega
  obtain ⟨fa, hfirst, hleft⟩ := h.exists_stopsFirst hnum (by omega) hmem hbehind
  obtain ⟨fb, hfb, hleftb⟩ := h.left b (List.mem_cons_of_mem _ List.mem_cons_self)
  have hstop := hleft.stop
  rcases hleftb.start (by omega) with hwhole | ⟨k, hk, hne, hstopk⟩
  · -- Nothing of the fragments that start here is done, and the second one is their first.
    obtain ⟨k, hk, hstart, hbefore⟩ := hinter fa _ hfirst fb hfb (by omega) (by omega)
    have hkfs := h.whole k hk (by omega)
    have hbk : b.StopsBefore k := by
      rcases List.mem_cons.mp hkfs with rfl | hkfs
      · omega
      · rcases List.mem_cons.mp hkfs with rfl | hkfs
        · exact k.stopsBefore_self
        · exact stopsBefore_of_le (List.rel_of_pairwise_cons hready.tail.sorted hkfs) (by omega)
    have hbefore' := hbk.trans hbefore
    have hseq := hleft.seq
    unfold StopsBefore at hbefore' ⊢
    omega
  · -- A fragment that stops here would stop before the first one.
    have hbefore := hfirst.stopsBefore k hk (by rw [Region.mem_def]; omega)
    unfold StopsBefore at hbefore
    omega

/-- What starts behind a place is still whole behind a later one, unless it is the first fragment. -/
theorem Remains.whole_tail (h : Remains all lo (a :: queue)) (hlo : lo ≤ p)
    (ha : a.extent.start ≤ p) : ∀ f ∈ all, p < f.extent.start → f ∈ queue := by
  intro f hf hlt
  rcases List.mem_cons.mp (h.whole f hf (by omega)) with rfl | hmem
  · omega
  · exact hmem

/-- A first fragment that ends before the next one starts is done. -/
theorem Remains.apart (h : Remains all lo (a :: b :: queue)) (hlo : lo ≤ a.extent.start)
    (hapart : a.extent.stop ≤ b.extent.start) : Remains all b.extent.start (b :: queue) := by
  have hstop := a.extent.start_le_stop
  refine ⟨fun g hg => ?_, h.whole_tail (by omega) (by omega), fun p hp f hfirst => ?_⟩
  · obtain ⟨f, hf, hleft⟩ := h.left g (List.mem_cons_of_mem _ hg)
    exact ⟨f, hf, hleft.mono (by omega)⟩
  · obtain ⟨g, hg, hseq, hpg⟩ := h.first p (by omega) f hfirst
    rcases List.mem_cons.mp hg with rfl | hg
    · rw [Region.mem_def] at hpg
      omega
    · exact ⟨g, hg, hseq, hpg⟩

/-- What covers an offset and does not stop behind what is left of the fragment that stops first
there is what is left of that fragment. -/
theorem Remains.seq_eq (h : Remains all lo fs) (hnum : Numbered all) (hf : f ∈ fs) (hg : g ∈ fs)
    (hfg : f.StopsBefore g) (hp : p ∈ f.extent) {k : Fragment} (hfirst : StopsFirst all k p)
    (hseq : g.seq = k.seq) : f.seq = k.seq := by
  obtain ⟨f₀, hf₀, hleft⟩ := h.left f hf
  obtain ⟨g₀, hg₀, hleft'⟩ := h.left g hg
  obtain rfl := hnum g₀ hg₀ k hfirst.mem (hleft'.seq.trans hseq)
  have hbefore := hleft.stopsBefore hf₀ hfirst hp
  have hstop := hleft'.stop
  unfold StopsBefore at hfg hbefore
  omega

/-- Of two fragments with one extent, the second one is done. -/
theorem Remains.same (h : Remains all lo (a :: b :: queue)) (hnum : Numbered all)
    (hlo : lo ≤ a.extent.start) (hab : a.StopsBefore b) (hsame : b.extent = a.extent) :
    Remains all a.extent.start (a :: queue) := by
  refine ⟨fun g hg => ?_, fun f hf hlt => ?_, fun p hp f hfirst => ?_⟩
  · have hmem : g ∈ a :: b :: queue := by
      rcases List.mem_cons.mp hg with rfl | hg
      · exact List.mem_cons_self
      · exact List.mem_cons_of_mem _ (List.mem_cons_of_mem _ hg)
    obtain ⟨f, hf, hleft⟩ := h.left g hmem
    exact ⟨f, hf, hleft.mono hlo⟩
  · rcases List.mem_cons.mp (h.whole_tail hlo (Nat.le_refl _) f hf hlt) with rfl | hmem
    · rw [hsame] at hlt
      exact absurd hlt (Nat.lt_irrefl _)
    · exact List.mem_cons_of_mem _ hmem
  · obtain ⟨g, hg, hseq, hpg⟩ := h.first p (by omega) f hfirst
    rcases List.mem_cons.mp hg with rfl | hg
    · exact ⟨g, List.mem_cons_self, hseq, hpg⟩
    · rcases List.mem_cons.mp hg with rfl | hg
      · have hpa : p ∈ a.extent := hsame ▸ hpg
        exact ⟨a, List.mem_cons_self, h.seq_eq hnum List.mem_cons_self
          (List.mem_cons_of_mem _ List.mem_cons_self) hab hpa hfirst hseq, hpa⟩
      · exact ⟨g, List.mem_cons_of_mem _ hg, hseq, hpg⟩

/-- Of two fragments that start together, the longer one is left behind the end of the other. -/
theorem Remains.rest (h : Remains all lo (a :: b :: queue)) (hnum : Numbered all)
    (hlo : lo ≤ a.extent.start) (hab : a.StopsBefore b) (hstart : b.extent.start = a.extent.start)
    (hover : a.extent.start < a.extent.stop) (hr : r.start = a.extent.stop)
    (hr' : r.stop = b.extent.stop) :
    Remains all a.extent.start (a :: insert { b with extent := r } queue) := by
  refine ⟨?_, fun f hf hlt => ?_, fun p hp f hfirst => ?_⟩
  · obtain ⟨fa, hfa, hlefta⟩ := h.left a List.mem_cons_self
    obtain ⟨fb, hfb, hleftb⟩ := h.left b (List.mem_cons_of_mem _ List.mem_cons_self)
    refine forall_mem_cons_insert ⟨fa, hfa, hlefta.mono hlo⟩ ⟨fb, hfb, ?_⟩ fun g hg => ?_
    · have hstart' := hleftb.start_le
      have hstarta := hlefta.start_le
      refine ⟨hleftb.seq, hleftb.source, hleftb.stop.trans hr'.symm, ?_, fun _ => Or.inr ?_⟩
      · show fb.extent.start ≤ r.start
        omega
      · have hstop := hlefta.stop
        exact ⟨fa, hfa, by omega, hstop.trans hr.symm⟩
    · obtain ⟨f, hf, hleft⟩ := h.left g (List.mem_cons_of_mem _ (List.mem_cons_of_mem _ hg))
      exact ⟨f, hf, hleft.mono hlo⟩
  · rcases List.mem_cons.mp (h.whole_tail hlo (Nat.le_refl _) f hf hlt) with rfl | hmem
    · omega
    · exact List.mem_cons_of_mem _ (mem_insert.mpr (Or.inr hmem))
  · obtain ⟨g, hg, hseq, hpg⟩ := h.first p (by omega) f hfirst
    rcases List.mem_cons.mp hg with rfl | hg
    · exact ⟨g, List.mem_cons_self, hseq, hpg⟩
    · rcases List.mem_cons.mp hg with rfl | hg
      · rw [Region.mem_def] at hpg
        by_cases hin : p < a.extent.stop
        · have hpa : p ∈ a.extent := Region.mem_def.mpr ⟨hp, hin⟩
          exact ⟨a, List.mem_cons_self, h.seq_eq hnum List.mem_cons_self
            (List.mem_cons_of_mem _ List.mem_cons_self) hab hpa hfirst hseq, hpa⟩
        · refine ⟨_, List.mem_cons_of_mem _ (mem_insert.mpr (Or.inl rfl)), hseq, ?_⟩
          rw [Region.mem_def]
          dsimp only
          omega
      · exact ⟨g, List.mem_cons_of_mem _ (mem_insert.mpr (Or.inr hg)), hseq, hpg⟩

/-- Of a first fragment that sticks out behind the second one, the tail is left. -/
theorem Remains.tail (h : Remains all lo (a :: b :: queue)) (hnum : Numbered all)
    (hlo : lo ≤ a.extent.start) (tail : Region) (hlt : a.extent.start < b.extent.start)
    (hstart : tail.start = b.extent.stop) (hstop : tail.stop = a.extent.stop)
    (htail : b.extent.stop < a.extent.stop) :
    Remains all b.extent.start (b :: insert { a with extent := tail } queue) := by
  have hb := b.extent.start_le_stop
  refine ⟨?_, fun f hf hlt' => ?_, fun p hp f hfirst => ?_⟩
  · obtain ⟨fa, hfa, hlefta⟩ := h.left a List.mem_cons_self
    obtain ⟨fb, hfb, hleftb⟩ := h.left b (List.mem_cons_of_mem _ List.mem_cons_self)
    refine forall_mem_cons_insert ⟨fb, hfb, hleftb.mono (by omega)⟩ ⟨fa, hfa, ?_⟩ fun g hg => ?_
    · have hstarta := hlefta.start_le
      have hstartb := hleftb.start_le
      refine ⟨hlefta.seq, hlefta.source, hlefta.stop.trans hstop.symm, ?_, fun hbehind => Or.inr ?_⟩
      · show fa.extent.start ≤ tail.start
        omega
      · have hbehind' : b.extent.start < tail.start := hbehind
        have hstopb := hleftb.stop
        exact ⟨fb, hfb, by omega, hstopb.trans hstart.symm⟩
    · obtain ⟨f, hf, hleft⟩ := h.left g (List.mem_cons_of_mem _ (List.mem_cons_of_mem _ hg))
      exact ⟨f, hf, hleft.mono (by omega)⟩
  · rcases List.mem_cons.mp (h.whole_tail (by omega) (by omega) f hf hlt') with rfl | hmem
    · exact List.mem_cons_self
    · exact List.mem_cons_of_mem _ (mem_insert.mpr (Or.inr hmem))
  · obtain ⟨g, hg, hseq, hpg⟩ := h.first p (by omega) f hfirst
    rcases List.mem_cons.mp hg with rfl | hg
    · rw [Region.mem_def] at hpg
      by_cases hin : p < b.extent.stop
      · have hpb : p ∈ b.extent := Region.mem_def.mpr ⟨hp, hin⟩
        exact ⟨b, List.mem_cons_self, h.seq_eq hnum (List.mem_cons_of_mem _ List.mem_cons_self)
          List.mem_cons_self (Or.inl htail) hpb hfirst hseq, hpb⟩
      · refine ⟨_, List.mem_cons_of_mem _ (mem_insert.mpr (Or.inl rfl)), hseq, ?_⟩
        rw [Region.mem_def]
        dsimp only
        omega
    · rcases List.mem_cons.mp hg with rfl | hg
      · exact ⟨g, List.mem_cons_self, hseq, hpg⟩
      · exact ⟨g, List.mem_cons_of_mem _ (mem_insert.mpr (Or.inr hg)), hseq, hpg⟩

/-- A first fragment that the second one outlasts, though it stops before it, is done: the two stop
together. -/
theorem Remains.head (h : Remains all lo (a :: b :: queue)) (hnum : Numbered all)
    (hlo : lo ≤ a.extent.start) (hlt : a.extent.start < b.extent.start)
    (hba : b.StopsBefore a) (htail : a.extent.stop ≤ b.extent.stop) :
    Remains all b.extent.start (b :: queue) := by
  refine ⟨fun g hg => ?_, h.whole_tail (by omega) (by omega), fun p hp f hfirst => ?_⟩
  · obtain ⟨f, hf, hleft⟩ := h.left g (List.mem_cons_of_mem _ hg)
    exact ⟨f, hf, hleft.mono (by omega)⟩
  · obtain ⟨g, hg, hseq, hpg⟩ := h.first p (by omega) f hfirst
    rcases List.mem_cons.mp hg with rfl | hg
    · have hpb : p ∈ b.extent := by
        rw [Region.mem_def] at hpg ⊢
        omega
      exact ⟨b, List.mem_cons_self, h.seq_eq hnum (List.mem_cons_of_mem _ List.mem_cons_self)
        List.mem_cons_self hba hpb hfirst hseq, hpb⟩
    · exact ⟨g, hg, hseq, hpg⟩

/-! ### The whole sweep -/

theorem start_le_of_mem_head? (hf : f ∈ (a :: queue).head?) :
    a.extent.start ≤ f.extent.start := by
  obtain rfl := Option.some.inj hf
  exact Nat.le_refl _

/-- Each piece belongs to a fragment that stops first wherever the piece lies. -/
def Decided (all : List Fragment) (out : List Span) : Prop :=
  ∀ s ∈ out, ∃ f, ∃ span, f.source = some span ∧ s = { span with extent := s.extent } ∧
    ∀ p ∈ s.extent, StopsFirst all f p

theorem Decided.append {out' : List Span} (h : Decided all out) (h' : Decided all out') :
    Decided all (out ++ out') := by
  intro s hs
  rcases List.mem_append.mp hs with hs | hs
  · exact h s hs
  · exact h' s hs

/-- A piece of the first fragment that lies before all others. -/
theorem Remains.decided_piece (h : Remains all lo (a :: queue)) (hnum : Numbered all)
    (hlo : lo ≤ a.extent.start) (hcontains : a.extent.Contains r)
    (hbehind : ∀ g ∈ queue, r.stop ≤ g.extent.start) : Decided all (a.piece r) := by
  intro s hs
  unfold piece at hs
  cases hsource : a.source with
  | none => simp [hsource] at hs
  | some span =>
      simp only [hsource, Option.map_some, Option.toList_some, List.mem_singleton] at hs
      subst hs
      obtain ⟨fa, hfa, hleft⟩ := h.left a List.mem_cons_self
      refine ⟨fa, span, hleft.source.trans hsource, rfl, fun p hp => ?_⟩
      have hp' : r.start ≤ p ∧ p < r.stop := Region.mem_def.mp hp
      have hpa : p ∈ a.extent := Region.mem_def.mpr (by omega)
      obtain ⟨f, hfirst, hleft'⟩ := h.exists_stopsFirst hnum (by omega) hpa fun g hg => by
        have := hbehind g hg
        omega
      rwa [hnum fa hfa f hfirst.mem (hleft.seq.trans hleft'.seq.symm)]

/-- A whole sweep gives every piece to the fragment that stops first there. -/
theorem Ready.decided_of_sweep (h : Ready fs) (hnum : Numbered all) (hinter : Interrupted all)
    (hrem : Remains all lo fs) (hlo : ∀ a ∈ fs.head?, lo ≤ a.extent.start)
    (hok : sweep fs = .ok out) : Decided all out := by
  fun_induction sweep fs generalizing out lo with
  | case1 =>
      cases hok
      intro s hs
      cases hs
  | case2 a =>
      cases hok
      exact hrem.decided_piece hnum (hlo a rfl) ⟨Nat.le_refl _, Nat.le_refl _⟩
        fun g hg => by cases hg
  | case3 a b queue hapart ih =>
      obtain ⟨rest, hrest, rfl⟩ := map_eq_ok_iff.mp hok
      have hpiece := hrem.decided_piece hnum (hlo a rfl) ⟨Nat.le_refl _, Nat.le_refl _⟩
        fun g hg => Nat.le_trans hapart (h.start_le g hg)
      exact hpiece.append (ih h.tail (hrem.apart (hlo a rfl) hapart) (fun _ => start_le_of_mem_head?) hrest)
  | case4 => cases hok
  | case5 a b queue hapart hstart rest hrest hempty ih =>
      obtain ⟨hstart', hstop'⟩ := Region.ofBounds_eq_ok_iff.mp hrest
      have hab := stopsBefore_of_le h.head_le hstart.symm
      exact ih h.drop_second (hrem.same hnum (hlo a rfl) hab (Region.ext hstart (by omega)))
        (fun _ => start_le_of_mem_head?) hok
  | case6 a b queue hapart hstart rest hrest hempty ih =>
      obtain ⟨hstart', hstop'⟩ := Region.ofBounds_eq_ok_iff.mp hrest
      have hab := stopsBefore_of_le h.head_le hstart.symm
      have hready := h.ready_rest (by omega) hstart hstart' hempty
      exact ih hready (hrem.rest hnum (hlo a rfl) hab hstart (by omega) hstart' hstop')
        (fun _ => start_le_of_mem_head?) hok
  | case7 => cases hok
  | case8 a b queue hapart hstart head hhead htail tail =>
      rename_i ih
      obtain ⟨hstart', hstop'⟩ := Region.ofBounds_eq_ok_iff.mp hhead
      have hle := start_le_of_le h.head_le
      have hlt : a.extent.start < b.extent.start := by omega
      obtain ⟨rest, hrest, rfl⟩ := map_eq_ok_iff.mp hok
      have hready := h.ready_tail tail hlt rfl rfl htail
      have hpiece := hrem.decided_piece (r := head) hnum (hlo a rfl)
        (by have := b.extent.start_le_stop; constructor <;> omega)
        fun g hg => Nat.le_trans (Nat.le_of_eq hstop') (h.start_le g hg)
      exact hpiece.append (ih hready (hrem.tail hnum (hlo a rfl) tail hlt rfl rfl htail)
        (fun _ => start_le_of_mem_head?) hrest)
  | case9 a b queue hapart hstart head hhead htail ih =>
      obtain ⟨hstart', hstop'⟩ := Region.ofBounds_eq_ok_iff.mp hhead
      have hle := start_le_of_le h.head_le
      have hlt : a.extent.start < b.extent.start := by omega
      obtain ⟨rest, hrest, rfl⟩ := map_eq_ok_iff.mp hok
      have hba := hrem.stopsBefore h hnum hinter (hlo a rfl) hlt (by omega)
      have hpiece := hrem.decided_piece (r := head) hnum (hlo a rfl) (by constructor <;> omega)
        fun g hg => Nat.le_trans (Nat.le_of_eq hstop') (h.start_le g hg)
      exact hpiece.append (ih h.tail (hrem.head hnum (hlo a rfl) hlt hba (by omega))
        (fun _ => start_le_of_mem_head?) hrest)

end Fragment

/-! ### The fragments of spans -/

section Split

variable {spans out : List Span} {lines : List Region} {s t u : Span} {f g : Fragment} {i p : Nat}

/-- The number of a fragment is its place among the spans and the boundaries. -/
theorem mem_fragments_iff : f ∈ fragments spans lines ↔
    (spans.map (fun span => (span.extent, some span)) ++ lines.flatMap fun line =>
      [(Region.point line.start, none), (Region.point line.stop, none)])[f.seq]? =
        some (f.extent, f.source) := by
  rw [fragments, List.mem_map]
  constructor
  · rintro ⟨x, hx, rfl⟩
    exact List.mem_zipIdx_iff_getElem?.mp hx
  · intro h
    exact ⟨((f.extent, f.source), f.seq), List.mem_zipIdx_iff_getElem?.mpr h, rfl⟩

theorem numbered_fragments (spans : List Span) (lines : List Region) :
    Fragment.Numbered (fragments spans lines) := by
  intro f hf g hg hseq
  rw [mem_fragments_iff] at hf hg
  rw [hseq, hg] at hf
  cases f
  cases g
  simp_all

theorem mem_fragments_of_getElem? (lines : List Region) (h : spans[i]? = some t) :
    ⟨t.extent, i, some t⟩ ∈ fragments spans lines := by
  have hlt := (List.getElem?_eq_some_iff.mp h).1
  rw [mem_fragments_iff, List.getElem?_append_left (by simpa using hlt), List.getElem?_map, h]
  rfl

/-- A fragment that covers a character is a span, and has its place in the list for number. -/
theorem getElem?_of_mem_fragments (hf : f ∈ fragments spans lines) (hp : p ∈ f.extent) :
    ∃ t, spans[f.seq]? = some t ∧ f.extent = t.extent ∧ f.source = some t := by
  rw [mem_fragments_iff] at hf
  by_cases hlt : f.seq < spans.length
  · rw [List.getElem?_append_left (by simpa using hlt), List.getElem?_map,
      List.getElem?_eq_getElem hlt] at hf
    have heq := Option.some.inj hf
    exact ⟨_, List.getElem?_eq_getElem hlt, (congrArg Prod.fst heq).symm,
      (congrArg Prod.snd heq).symm⟩
  · -- A boundary covers nothing.
    rw [List.getElem?_append_right (by simpa using hlt)] at hf
    obtain ⟨line, -, hmem⟩ := List.mem_flatMap.mp (List.mem_of_getElem? hf)
    have hpoint : ∃ q, f.extent = Region.point q := by
      rcases List.mem_pair.mp hmem with heq | heq
      · exact ⟨_, congrArg Prod.fst heq⟩
      · exact ⟨_, congrArg Prod.fst heq⟩
    obtain ⟨q, hq⟩ := hpoint
    rw [hq] at hp
    exact absurd hp Region.not_mem_point

/-! ### The span that starts last -/

/-- The first span starts behind the other one, or starts with it and is no longer. -/
def Span.PaintsOver (t u : Span) : Prop :=
  u.extent.start < t.extent.start ∨
    u.extent.start = t.extent.start ∧ t.extent.stop ≤ u.extent.stop

/-- Of the spans that cover the offset, this one starts last, and of those that start with it, it is
shortest. -/
structure StartsLast (spans : List Span) (t : Span) (p : Nat) : Prop where
  mem : t ∈ spans
  covers : p ∈ t.extent
  last : ∀ u ∈ spans, p ∈ u.extent → t.PaintsOver u

/-- Of the spans that cover the offset, this one stops first, and of those that stop with it, it is
the first one of the list. -/
def StopsFirst (spans : List Span) (t : Span) (p : Nat) : Prop :=
  p ∈ t.extent ∧ ∃ i : Nat, spans[i]? = some t ∧
    ∀ (j : Nat) (u : Span), spans[j]? = some u → p ∈ u.extent →
      t.extent.stop < u.extent.stop ∨ t.extent.stop = u.extent.stop ∧ i ≤ j

/-- Cutting the spans at the lines gives each character to the span that starts last there. -/
def PaintsLast (spans : List Span) (lines : List Region) : Prop :=
  ∃ out, splitDisjoint spans lines = .ok out ∧ ∀ p t, StartsLast spans t p →
    (∃ s ∈ out, p ∈ s.extent) ∧ ∀ s ∈ out, p ∈ s.extent → s = { t with extent := s.extent }

theorem exists_startsLast (hs : s ∈ spans) (hp : p ∈ s.extent) : ∃ t, StartsLast spans t p := by
  obtain ⟨t, ht, hpt, hlast⟩ := exists_first_of_mem (R := Span.PaintsOver)
    (fun a b => by unfold Span.PaintsOver; omega)
    (fun a b c hab hbc => by unfold Span.PaintsOver at hab hbc ⊢; omega)
    (P := fun t => p ∈ t.extent) hs hp
  exact ⟨t, ht, hpt, hlast⟩

theorem StopsFirst.unique (ht : StopsFirst spans t p) (hu : StopsFirst spans u p) : t = u := by
  obtain ⟨hpt, i, hi, hfirst⟩ := ht
  obtain ⟨hpu, j, hj, hfirst'⟩ := hu
  have hij := hfirst j u hj hpu
  have hji := hfirst' i t hi hpt
  obtain rfl : i = j := by omega
  exact Option.some.inj (hi.symm.trans hj)

theorem StopsFirst.mem (h : StopsFirst spans t p) : t ∈ spans := by
  obtain ⟨-, i, hi, -⟩ := h
  exact List.mem_of_getElem? hi

/-- The fragment that stops first is the span that stops first. -/
theorem Fragment.StopsFirst.span (h : Fragment.StopsFirst (fragments spans lines) f p) :
    ∃ t, f.source = some t ∧ f.extent = t.extent ∧ spans[f.seq]? = some t ∧
      BracketPaint.StopsFirst spans t p := by
  obtain ⟨t, hget, hextent, hsource⟩ := getElem?_of_mem_fragments h.mem h.covers
  refine ⟨t, hsource, hextent, hget, hextent ▸ h.covers, f.seq, hget, fun j u hj hpu => ?_⟩
  have hbefore := h.stopsBefore _ (mem_fragments_of_getElem? lines hj) hpu
  rw [← hextent]
  exact hbefore

/-- If the span that starts last is the one that stops first, no fragment wins by where it is taken
up again. -/
theorem interrupted_of_agree (hagree : ∀ p t, StartsLast spans t p → StopsFirst spans t p)
    (lines : List Region) : Fragment.Interrupted (fragments spans lines) := by
  intro f p hfirst g hg hlt hinside
  have hpf := Region.mem_def.mp hfirst.covers
  rcases Nat.eq_or_lt_of_le g.extent.start_le_stop with hempty | hsize
  · -- A boundary stops where it starts.
    exact ⟨g, hg, rfl, Or.inl (by omega)⟩
  · have hmem : g.extent.start ∈ g.extent := ⟨Nat.le_refl _, hsize⟩
    obtain ⟨u, hget, hextent, -⟩ := getElem?_of_mem_fragments hg hmem
    rw [hextent] at hmem
    obtain ⟨t, hlast⟩ := exists_startsLast (List.mem_of_getElem? hget) hmem
    have hover := hlast.last u (List.mem_of_getElem? hget) hmem
    obtain ⟨hpt, i, hi, hbefore⟩ := hagree _ t hlast
    obtain ⟨v, -, hextent', hget', -⟩ := hfirst.span
    refine ⟨_, mem_fragments_of_getElem? lines hi, ?_, ?_⟩
    · unfold Span.PaintsOver at hover
      rw [Region.mem_def] at hpt
      show t.extent.start = _
      rw [hextent]
      omega
    · have hcovers : g.extent.start ∈ f.extent := Region.mem_def.mpr (by omega)
      have := hbefore f.seq v hget' (hextent' ▸ hextent ▸ hcovers)
      rw [← hextent'] at this
      exact this

/-- If no fragment wins by where it is taken up again, each piece belongs to the span that stops
first. -/
theorem stopsFirst_of_interrupted (hne : ∀ s ∈ spans, ¬ s.extent.IsEmpty)
    (hinter : Fragment.Interrupted (fragments spans lines))
    (hok : splitDisjoint spans lines = .ok out) (hs : s ∈ out) (hp : p ∈ s.extent) :
    ∃ t, StopsFirst spans t p ∧ s = { t with extent := s.extent } := by
  unfold splitDisjoint at hok
  split at hok
  · cases hok
    cases hs
  · have hrem : Fragment.Remains (fragments spans lines) 0
        ((fragments spans lines).foldr Fragment.insert []) :=
      Fragment.remains_of_mem_iff fun _ => mem_queue
    have hdecided := (ready_fragments hne).decided_of_sweep (numbered_fragments spans lines) hinter
      hrem (fun _ _ => Nat.zero_le _) hok
    obtain ⟨f, span, hsource, heq, hfirst⟩ := hdecided s hs
    obtain ⟨t, hsource', -, -, ht⟩ := (hfirst p hp).span
    obtain rfl := Option.some.inj (hsource.symm.trans hsource')
    exact ⟨_, ht, heq⟩

theorem paintsLast_of_agree (hne : ∀ s ∈ spans, ¬ s.extent.IsEmpty)
    (hagree : ∀ p t, StartsLast spans t p → StopsFirst spans t p) (lines : List Region) :
    PaintsLast spans lines := by
  obtain ⟨out, hok, hcut⟩ := exists_cut lines hne
  refine ⟨out, hok, fun p t hlast => ⟨?_, fun s hs hp => ?_⟩⟩
  · obtain ⟨f, hf, hextent⟩ := exists_fragment_of_mem lines hlast.mem
    exact (hcut.covers p).mpr ⟨f, hf, hextent ▸ hlast.covers⟩
  · obtain ⟨u, hu, heq⟩ :=
      stopsFirst_of_interrupted hne (interrupted_of_agree hagree lines) hok hs hp
    rwa [(hagree p t hlast).unique hu]

/-- Of nested spans, the one that starts last stops first. -/
theorem Laminar.stopsFirst (hlaminar : Laminar (spans.map (·.extent)))
    (hdistinct : (spans.map (·.extent)).Nodup) (hlast : StartsLast spans t p) :
    StopsFirst spans t p := by
  obtain ⟨i, hi⟩ := List.mem_iff_getElem?.mp hlast.mem
  refine ⟨hlast.covers, i, hi, fun j u hj hpu => ?_⟩
  have hu := List.mem_of_getElem? hj
  have hp := Region.mem_def.mp hlast.covers
  rw [Region.mem_def] at hpu
  rcases hlast.last u hu hpu with hlt | ⟨hstart, hle⟩
  · exact Or.inl (hlaminar _ (List.mem_map_of_mem hu) _ (List.mem_map_of_mem hlast.mem) hlt
      (by omega))
  · rcases Nat.lt_or_eq_of_le hle with hlt | hstop
    · exact Or.inl hlt
    · have hij : i = j := by
        have hlt := (List.getElem?_eq_some_iff.mp hi).1
        refine (List.getElem?_inj (by simpa using hlt) hdistinct).mp ?_
        rw [List.getElem?_map, List.getElem?_map, hi, hj]
        exact congrArg some (Region.ext hstart.symm hstop)
      exact Or.inr ⟨hstop, Nat.le_of_eq hij⟩

/-- A boundary at every offset up to a bound. -/
def boundaries (n : Nat) : List Region := (List.range n).map Region.point

/-- Where every offset is a boundary, each fragment is interrupted everywhere. -/
theorem interrupted_boundaries {n : Nat} (hn : ∀ s ∈ spans, s.extent.stop ≤ n) :
    Fragment.Interrupted (fragments spans (boundaries n)) := by
  intro f p hfirst g hg hlt hinside
  obtain ⟨t, -, hextent, hget, -⟩ := hfirst.span
  have hstop := hn t (List.mem_of_getElem? hget)
  have hline : Region.point g.extent.start ∈ boundaries n :=
    List.mem_map_of_mem (List.mem_range.mpr (by rw [hextent] at hinside; omega))
  obtain ⟨h, hh, hpoint, -⟩ := (exists_fragment_iff spans (boundaries n)).mpr
    (Or.inr ⟨_, hline, g.extent.start, List.mem_cons_self, rfl, rfl⟩)
  have hstart : h.extent.start = g.extent.start := by rw [hpoint]; rfl
  have hstop' : h.extent.stop = g.extent.start := by rw [hpoint]; rfl
  exact ⟨h, hh, hstart, Or.inl (by omega)⟩

theorem exists_stop_le (spans : List Span) : ∃ n, ∀ s ∈ spans, s.extent.stop ≤ n := by
  induction spans with
  | nil => exact ⟨0, fun s hs => by cases hs⟩
  | cons s spans ih =>
      obtain ⟨n, hn⟩ := ih
      refine ⟨max s.extent.stop n, fun t ht => ?_⟩
      rcases List.mem_cons.mp ht with rfl | ht
      · exact Nat.le_max_left _ _
      · exact Nat.le_trans (hn t ht) (Nat.le_max_right _ _)

/-- **The span that starts last paints, if it stops first.** If at every character the span that
starts last is also the one that stops first, cutting gives each character to that span, whatever
the lines are. Else, the colours of the spans being different, some lines make another span paint a
character. -/
theorem splitDisjoint_startsLast (hne : ∀ s ∈ spans, ¬ s.extent.IsEmpty) :
    ((∀ p t, StartsLast spans t p → StopsFirst spans t p) → ∀ lines, PaintsLast spans lines) ∧
    ((spans.map fun s => (s.foreground, s.background)).Nodup →
      (∀ lines, PaintsLast spans lines) → ∀ p t, StartsLast spans t p → StopsFirst spans t p) := by
  refine ⟨paintsLast_of_agree hne, fun hcolors hpaints p t hlast => ?_⟩
  obtain ⟨n, hn⟩ := exists_stop_le spans
  obtain ⟨out, hok, hout⟩ := hpaints (boundaries n)
  obtain ⟨⟨s, hs, hp⟩, hsame⟩ := hout p t hlast
  obtain ⟨u, hu, heq⟩ := stopsFirst_of_interrupted hne (interrupted_boundaries hn) hok hs hp
  have hsame' := (hsame s hs hp).symm.trans heq
  simp only [Span.mk.injEq, true_and] at hsame'
  have htu := List.inj_on_of_nodup_map hcolors hlast.mem hu.mem (Prod.ext hsame'.1 hsame'.2)
  rwa [htu]

/-- Two nested spans, which every line leaves as they are, and two crossing ones. -/
theorem splitDisjoint_startsLast_pairs :
    (∀ lines, PaintsLast
      [⟨⟨0, 6, by decide⟩, .primary, []⟩, ⟨⟨2, 4, by decide⟩, .adjacent, []⟩] lines) ∧
    ¬ ∀ lines, PaintsLast
      [⟨⟨0, 10, by decide⟩, .primary, []⟩, ⟨⟨5, 12, by decide⟩, .adjacent, []⟩] lines := by
  constructor
  · refine (splitDisjoint_startsLast (by decide)).1 fun p t hlast => ?_
    exact Laminar.stopsFirst (by simp [Laminar]) (by decide) hlast
  · intro hpaints
    obtain ⟨-, i, hi, hfirst⟩ := (splitDisjoint_startsLast (by decide)).2 (by decide) hpaints 7
      ⟨⟨5, 12, by decide⟩, .adjacent, []⟩ ⟨by simp, by decide, by simp [Span.PaintsOver]⟩
    have := hfirst 0 _ rfl (by decide)
    simp at this

theorem not_paintsLast (hok : splitDisjoint spans lines = .ok out) (hlast : StartsLast spans t p)
    (hs : s ∈ out) (hp : p ∈ s.extent) (hne : s.foreground ≠ t.foreground) :
    ¬ PaintsLast spans lines := by
  rintro ⟨out', hok', hout⟩
  obtain rfl := Except.ok.inj (hok.symm.trans hok')
  have hsame := (hout p t hlast).2 s hs hp
  exact hne (by rw [hsame])

/-- A span that starts last stops behind another one: the span around both goes on where that one
stops. Of two crossing spans, the first one goes on where a line starts with the second one. -/
theorem not_paintsLast_crossing :
    (let spans : List Span := [⟨⟨0, 10, by decide⟩, .primary, []⟩,
      ⟨⟨1, 3, by decide⟩, .adjacent, []⟩, ⟨⟨2, 5, by decide⟩, .inconsistent, []⟩]
    (∀ s ∈ spans, ¬ s.extent.IsEmpty) ∧ (spans.map (·.extent)).Nodup ∧ ¬ PaintsLast spans []) ∧
    let spans : List Span :=
      [⟨⟨0, 10, by decide⟩, .primary, []⟩, ⟨⟨5, 12, by decide⟩, .adjacent, []⟩]
    (∀ s ∈ spans, ¬ s.extent.IsEmpty) ∧ (spans.map (·.extent)).Nodup ∧ PaintsLast spans [] ∧
      ¬ PaintsLast spans [⟨5, 15, by decide⟩] := by
  refine ⟨⟨by decide, by decide, ?_⟩, by decide, by decide, ?_, ?_⟩
  · have hok : splitDisjoint [⟨⟨0, 10, by decide⟩, .primary, []⟩,
          ⟨⟨1, 3, by decide⟩, .adjacent, []⟩, ⟨⟨2, 5, by decide⟩, .inconsistent, []⟩] [] =
        .ok [⟨⟨0, 1, by decide⟩, .primary, []⟩, ⟨⟨1, 2, by decide⟩, .adjacent, []⟩,
          ⟨⟨2, 3, by decide⟩, .inconsistent, []⟩, ⟨⟨3, 10, by decide⟩, .primary, []⟩] := by
      decide +kernel
    exact not_paintsLast (p := 3) (s := ⟨⟨3, 10, by decide⟩, .primary, []⟩)
      (t := ⟨⟨2, 5, by decide⟩, .inconsistent, []⟩) hok
      ⟨by simp, by decide, by simp [Span.PaintsOver]⟩ (by simp) (by decide) (by decide)
  · refine ⟨[⟨⟨0, 5, by decide⟩, .primary, []⟩, ⟨⟨5, 12, by decide⟩, .adjacent, []⟩],
      by decide +kernel, ?_⟩
    rintro p t ⟨ht, hp, hlast⟩
    have hlast' := hlast ⟨⟨5, 12, by decide⟩, .adjacent, []⟩ (by simp)
    simp only [Span.PaintsOver, Region.mem_def] at hp hlast'
    rcases List.mem_pair.mp ht with rfl | rfl <;> dsimp only at hp hlast'
    · have hlt : p < 5 := by omega
      refine ⟨⟨_, List.mem_cons_self, hp.1, hlt⟩, fun s hs hps => ?_⟩
      rcases List.mem_pair.mp hs with rfl | rfl
      · rfl
      · exact absurd hps.1 (Nat.not_le_of_lt hlt)
    · refine ⟨⟨_, List.mem_cons_of_mem _ List.mem_cons_self, hp⟩, fun s hs hps => ?_⟩
      rcases List.mem_pair.mp hs with rfl | rfl
      · exact absurd hps.2 (Nat.not_lt_of_le hp.1)
      · rfl
  · have hok : splitDisjoint
          [⟨⟨0, 10, by decide⟩, .primary, []⟩, ⟨⟨5, 12, by decide⟩, .adjacent, []⟩]
          [⟨5, 15, by decide⟩] =
        .ok [⟨⟨0, 5, by decide⟩, .primary, []⟩, ⟨⟨5, 10, by decide⟩, .primary, []⟩,
          ⟨⟨10, 12, by decide⟩, .adjacent, []⟩] := by decide +kernel
    exact not_paintsLast (p := 7) (s := ⟨⟨5, 10, by decide⟩, .primary, []⟩)
      (t := ⟨⟨5, 12, by decide⟩, .adjacent, []⟩) hok
      ⟨by simp, by decide, by simp [Span.PaintsOver]⟩ (by simp) (by decide) (by decide)

end Split
end BracketPaint
