import BracketPaint.Proofs.Passes
import BracketPaint.Proofs.Plans
/-!
# Characters that are painted twice

A plan paints no character twice exactly if no character is painted for two examined regions
(`Buffer.paintsOnce_iff`): within one region the strokes are cut apart.

Between two examined regions lies a character, but a bracket that starts in a region may reach
out of it. The left bracket of a scope ends before the right one starts, so only a right bracket can
do so, and to come into the next region it needs three characters
(`Buffer.PaintedFor.mem_near`). With `if` and `endif` it happens (`Buffer.painted_twice`).
-/

namespace BracketPaint

/-- No character is painted twice: the strokes that a plan lists stand one behind the other, and no
two regions of its entries overlap. -/
structure Plan.PaintsOnce (p : Plan) : Prop where
  spans : p.spans.Pairwise fun a b => a.1.stop ≤ b.1.start
  regions : (p.entries.flatMap (·.regions)).Pairwise fun a b => ¬ a.Overlaps b

theorem Plan.paintsOnce_ofStrokes_iff {strokes : List Stroke}
    (hne : ∀ stroke ∈ strokes, ¬ stroke.1.IsEmpty) :
    (Plan.ofStrokes strokes).PaintsOnce ↔ strokes.Pairwise fun a b => ¬ a.1.Overlaps b.1 := by
  constructor
  · intro h
    exact (pairwise_spans_iff hne).mp h.spans
  · intro h
    exact ⟨(pairwise_spans_iff hne).mpr h, (pairwise_regions_iff strokes).mpr h⟩

theorem Region.overlaps_iff {a b : Region} (ha : ¬ a.IsEmpty) (hb : ¬ b.IsEmpty) :
    a.Overlaps b ↔ ∃ p, p ∈ a ∧ p ∈ b := by
  have ha' := a.start_le_stop
  have hb' := b.start_le_stop
  simp only [mem_def]
  constructor
  · intro h
    refine ⟨max a.start b.start, ?_⟩
    omega
  · rintro ⟨p, hpa, hpb⟩
    omega

namespace Buffer

variable {b : Buffer} {config : Configuration} {cursors : List Nat} {e e' : ExaminedRegion}
variable {strokes strokes' : List Stroke} {p : Nat}

/-- No character is painted for two examined regions. -/
def RegionsApart (b : Buffer) (config : Configuration) (cursors : List Nat) : Prop :=
  (b.examined config cursors).Pairwise fun e e' =>
    ¬ ∃ p, b.PaintedFor config e p ∧ b.PaintedFor config e' p

/-! ### Strokes of several regions -/

theorem PaintsRegion.paintedFor_iff (h : b.PaintsRegion config e strokes) :
    b.PaintedFor config e p ↔ ∃ stroke ∈ strokes, p ∈ stroke.1 := by
  obtain ⟨scopes, hscopes, hpaints⟩ := h
  rw [hpaints.covers p]
  constructor
  · rintro ⟨scopes', hscopes', hpart⟩
    rw [hscopes] at hscopes'
    cases hscopes'
    exact hpart
  · intro hpart
    exact ⟨scopes, hscopes, hpart⟩

theorem PaintsRegion.nonempty (h : b.PaintsRegion config e strokes) :
    ∀ stroke ∈ strokes, ¬ stroke.1.IsEmpty := by
  obtain ⟨_, -, hpaints⟩ := h
  exact hpaints.nonempty

theorem PaintsRegion.pairwise_not_overlaps (h : b.PaintsRegion config e strokes) :
    strokes.Pairwise fun x y => ¬ x.1.Overlaps y.1 := by
  obtain ⟨_, -, hpaints⟩ := h
  refine hpaints.apart.imp fun {x y} hle => ?_
  omega

theorem PaintsRegion.not_overlaps_iff (h : b.PaintsRegion config e strokes)
    (h' : b.PaintsRegion config e' strokes') :
    (¬ ∃ p, b.PaintedFor config e p ∧ b.PaintedFor config e' p) ↔
      ∀ x ∈ strokes, ∀ y ∈ strokes', ¬ x.1.Overlaps y.1 := by
  constructor
  · intro hno x hx y hy hover
    obtain ⟨p, hpx, hpy⟩ :=
      (Region.overlaps_iff (h.nonempty x hx) (h'.nonempty y hy)).mp hover
    exact hno ⟨p, h.paintedFor_iff.mpr ⟨x, hx, hpx⟩, h'.paintedFor_iff.mpr ⟨y, hy, hpy⟩⟩
  · rintro hno ⟨p, hp, hp'⟩
    obtain ⟨x, hx, hpx⟩ := h.paintedFor_iff.mp hp
    obtain ⟨y, hy, hpy⟩ := h'.paintedFor_iff.mp hp'
    exact hno x hx y hy
      ((Region.overlaps_iff (h.nonempty x hx) (h'.nonempty y hy)).mpr ⟨p, hpx, hpy⟩)

theorem exists_paintsOnce_iff (hconfig : config.Sound) (henabled : config.enabled = true)
    (hcursors : ∀ c ∈ cursors, c ≤ b.size) :
    ∃ plan, b.highlight config cursors = .ok plan ∧
      (plan.PaintsOnce ↔ b.RegionsApart config cursors) := by
  obtain ⟨strokes, hok, hpaints⟩ := exists_highlight hconfig henabled hcursors
  refine ⟨_, hok, ?_⟩
  have hne : ∀ stroke ∈ strokes.flatten, ¬ stroke.1.IsEmpty := by
    intro stroke hstroke
    obtain ⟨l, hl, hstroke⟩ := List.mem_flatten.mp hstroke
    obtain ⟨e, -, hregion⟩ := exists_of_mem_right hpaints hl
    exact hregion.nonempty stroke hstroke
  have hwithin : ∀ l ∈ strokes, l.Pairwise fun x y => ¬ x.1.Overlaps y.1 := by
    intro l hl
    obtain ⟨e, -, hregion⟩ := exists_of_mem_right hpaints hl
    exact hregion.pairwise_not_overlaps
  rw [Plan.paintsOnce_ofStrokes_iff hne, List.pairwise_flatten, and_iff_right hwithin]
  exact (pairwise_iff_of_forall₂ hpaints fun e l e' l' h h' => h.not_overlaps_iff h').symm

/-! ### How far brackets reach out -/

/-- What is painted for a region starts in it and reaches out by a right bracket at most. -/
theorem PaintedFor.mem_near (hconfig : config.Sound) (hne : e.cursors ≠ [])
    (h : b.PaintedFor config e p) : e.region.start ≤ p ∧
      ∃ pair ∈ config.brackets, p + 1 < e.region.stop + pair.right.length := by
  obtain ⟨scopes, hscopes, part, hpart, hp⟩ := h
  obtain ⟨scopes', hscopes', hformed⟩ := b.exists_scopesIn hconfig hne
  rw [hscopes] at hscopes'
  cases hscopes'
  obtain ⟨s, hs, hpart⟩ := mem_partsOf.mp hpart
  obtain ⟨hs, hleft, hright, hside⟩ := hformed s hs
  obtain ⟨hstart, -, hstop⟩ := hs.within_of_mem_parts hpart
  -- The part ends with the right bracket at the latest, and that one starts in the region.
  have hfirst := position_le_of_mem_bracketsFrom hleft
  obtain ⟨hlast, hat⟩ := bracketAt?_of_mem_bracketsFrom hright
  obtain ⟨pair, hpair, htext⟩ := text_of_bracketAt?_right hat hside
  have hregion : s.right.region.stop = s.right.position + pair.right.length := by
    rw [← htext]
    rfl
  rw [Region.mem_def] at hp
  refine ⟨by omega, pair, hpair, ?_⟩
  omega

/-- With right brackets of one or two characters, regions do not reach into each other. -/
theorem regionsApart_of_short (hconfig : config.Sound)
    (hshort : ∀ pair ∈ config.brackets, pair.right.length ≤ 2) :
    b.RegionsApart config cursors := by
  have hgap : (b.examined config cursors).Pairwise fun e e' => e.region.stop < e'.region.start :=
    pairwise_examinedRegions (pairwise_normalizeCursors cursors)
  refine hgap.imp_of_mem fun {e e'} he he' hlt => ?_
  rintro ⟨p, hp, hp'⟩
  obtain ⟨-, pair, hpair, hnear⟩ :=
    hp.mem_near hconfig (cursors_ne_of_mem_examinedRegions he)
  obtain ⟨hle, -⟩ := hp'.mem_near hconfig (cursors_ne_of_mem_examinedRegions he')
  have := hshort pair hpair
  omega

/-- **What is painted twice.** With cursors in the buffer there is a plan. It paints no character
twice if and only if no character is painted for two examined regions, which holds whenever no right
bracket has more than two characters. -/
theorem paintsOnce_iff {s : Settings} {syntaxName : Option String}
    (h : s.resolve syntaxName = .ok config) (hcursors : ∀ c ∈ cursors, c ≤ b.size) :
    ∃ plan, b.highlight config cursors = .ok plan ∧
      (plan.PaintsOnce ↔ (config.enabled = true → b.RegionsApart config cursors)) ∧
      ((∀ pair ∈ config.brackets, pair.right.length ≤ 2) → plan.PaintsOnce) := by
  have hconfig := Settings.sound_of_resolve h
  cases henabled : config.enabled with
  | false =>
      have honce : ({} : Plan).PaintsOnce := ⟨by simp [Plan.spans], List.Pairwise.nil⟩
      exact ⟨{}, highlight_of_disabled henabled b cursors, iff_of_true honce (by simp),
        fun _ => honce⟩
  | true =>
      obtain ⟨plan, hok, hiff⟩ := exists_paintsOnce_iff hconfig henabled hcursors
      refine ⟨plan, hok, ?_, fun hshort => hiff.mpr (regionsApart_of_short hconfig hshort)⟩
      rw [hiff]
      exact ⟨fun h _ => h, fun h => h rfl⟩

/-- Two characters are looked at on each side of a cursor. -/
def narrow : Configuration := { Configuration.default with scanRadius := 2 }

/-- Two cursors that are looked at apart, and brackets of one character. -/
theorem paintsOnce_narrow :
    ({ scanRadius := 2 } : Settings).resolve none = .ok narrow ∧
      (∀ c ∈ [1, 8], c ≤ (ofString "(a)bcd(e)").size) ∧
      ∃ plan, (ofString "(a)bcd(e)").highlight narrow [1, 8] = .ok plan ∧ plan.PaintsOnce := by
  have h : ({ scanRadius := 2 } : Settings).resolve none = .ok narrow := rfl
  have hcursors : ∀ c ∈ [1, 8], c ≤ (ofString "(a)bcd(e)").size := by decide
  obtain ⟨plan, hok, -, hshort⟩ := paintsOnce_iff h hcursors
  exact ⟨h, hcursors, plan, hok, hshort (by decide)⟩

/-! ### A character that is painted twice -/

/-- The same as `narrow`, with `if` and `endif` for brackets. -/
def ifEndif : Configuration := { narrow with brackets := [⟨"if", "endif"⟩] }

/-- In `ifendifendif`, with a cursor behind each `if`, the first `endif` reaches into the region of
the second cursor. -/
theorem painted_twice :
    ({ brackets := [⟨"if", "endif"⟩], scanRadius := 2 } : Settings).resolve none = .ok ifEndif ∧
      (∀ c ∈ [2, 7], c ≤ (ofString "ifendifendif").size) ∧
      ∃ plan, (ofString "ifendifendif").highlight ifEndif [2, 7] = .ok plan ∧
        ¬ plan.PaintsOnce := by
  have h : ({ brackets := [⟨"if", "endif"⟩], scanRadius := 2 } : Settings).resolve none =
      .ok ifEndif := rfl
  have hcursors : ∀ c ∈ [2, 7], c ≤ (ofString "ifendifendif").size := by decide
  obtain ⟨plan, hok, hiff⟩ := exists_paintsOnce_iff (Settings.sound_of_resolve h) rfl hcursors
  refine ⟨h, hcursors, plan, hok, fun honce => ?_⟩
  have hexamined : (ofString "ifendifendif").examined ifEndif [2, 7] =
      [⟨⟨0, 4, by decide⟩, [2]⟩, ⟨⟨5, 9, by decide⟩, [7]⟩] := by decide +kernel
  have hapart := hiff.mp honce
  rw [RegionsApart, hexamined, List.pairwise_pair] at hapart
  refine hapart ⟨6, paintedFor_of_partners [.primary, .primary] ?_ ?_,
    paintedFor_of_partners [.primary, .primary] ?_ ?_⟩
  all_goals decide +kernel

end Buffer
end BracketPaint
