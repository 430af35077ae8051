import Mathlib.Data.List.Perm.Basic
import BracketPaint.Plan
/-!
# A plan holds its strokes

A plan lists the strokes that it is made of, each once and no others (`Plan.spans_perm`): every
shade has one entry, and the entry has all regions of that shade. The strokes come in order, so that
they stand one behind the other as soon as no two of them overlap (`Plan.pairwise_spans_iff`).
-/

namespace BracketPaint

/-! ### The order of shades -/

namespace Shade

variable {a b c : Shade}

theorem le_trans (hab : a ≤ b) (hbc : b ≤ c) : a ≤ c := by
  simp only [le_def] at hab hbc ⊢
  omega

theorem le_total (a b : Shade) : a ≤ b ∨ b ≤ a := by
  simp only [le_def]
  omega

theorem le_antisymm (hab : a ≤ b) (hba : b ≤ a) : a = b := by
  simp only [le_def] at hab hba
  have hforeground : a.foreground = b.foreground := Rgb.toNat_injective (by omega)
  have hbackground : a.background = b.background := Rgb.toNat_injective (by omega)
  cases a
  cases b
  cases hforeground
  cases hbackground
  rfl

end Shade

namespace Stroke

variable {a b c : Stroke}

theorem le_iff : Stroke.le a b = true ↔ a.1.start < b.1.start ∨ a.1.start = b.1.start ∧
    (a.1.stop < b.1.stop ∨ a.1.stop = b.1.stop ∧ a.2 ≤ b.2) := by
  unfold Stroke.le
  by_cases heq : a.1 = b.1
  · rw [if_pos heq, decide_eq_true_eq, heq]
    simp
  · have hne : ¬ (a.1.start = b.1.start ∧ a.1.stop = b.1.stop) := fun h =>
      heq (Region.ext h.1 h.2)
    rw [if_neg heq, decide_eq_true_eq, Region.le_def]
    omega

theorem le_trans (a b c : Stroke) (hab : Stroke.le a b = true) (hbc : Stroke.le b c = true) :
    Stroke.le a c = true := by
  simp only [le_iff, Shade.le_def] at hab hbc ⊢
  omega

theorem le_total (a b : Stroke) : (Stroke.le a b || Stroke.le b a) = true := by
  simp only [Bool.or_eq_true, le_iff, Shade.le_def]
  omega

theorem le_antisymm (hab : Stroke.le a b = true) (hba : Stroke.le b a = true) : a = b := by
  rw [le_iff] at hab hba
  have hregion : a.1 = b.1 := Region.ext (by omega) (by omega)
  have hshade : a.2 ≤ b.2 := by simpa [hregion] using hab
  have hshade' : b.2 ≤ a.2 := by simpa [hregion] using hba
  exact Prod.ext hregion (Shade.le_antisymm hshade hshade')

end Stroke

namespace Plan

variable {s t : Shade} {shades : List Shade} {strokes : List Stroke}

/-! ### One entry for each shade -/

theorem mem_shadesOf : t ∈ shadesOf strokes ↔ ∃ stroke ∈ strokes, stroke.2 = t := by
  rw [shadesOf, mem_ascending, List.mem_map]

theorem pairwise_shadesOf (strokes : List Stroke) :
    (shadesOf strokes).Pairwise fun a b => a ≤ b ∧ a ≠ b := by
  rw [shadesOf]
  apply pairwise_ascending
  · exact fun _ _ _ => Shade.le_trans
  · exact Shade.le_total
  · exact fun _ _ => Shade.le_antisymm

/-- No shade has two entries. -/
theorem nodup_shadesOf (strokes : List Stroke) : (shadesOf strokes).Nodup :=
  (pairwise_shadesOf strokes).imp fun h => h.2

/-! ### The strokes of a plan -/

/-- Strokes that are taken shade by shade are all there. -/
theorem flatMap_filter_perm (hnodup : shades.Nodup) (hall : ∀ stroke ∈ strokes, stroke.2 ∈ shades) :
    (shades.flatMap fun s => strokes.filter (·.2 = s)).Perm strokes := by
  induction shades generalizing strokes with
  | nil =>
      cases strokes with
      | nil => exact List.Perm.refl _
      | cons stroke strokes => cases hall stroke List.mem_cons_self
  | cons s shades ih =>
      obtain ⟨hs, hnodup⟩ := List.nodup_cons.mp hnodup
      -- The entries of the other shades do not change when the strokes of the first one go.
      have hothers : ∀ t ∈ shades, strokes.filter (·.2 = t) =
          (strokes.filter fun stroke => !decide (stroke.2 = s)).filter (·.2 = t) := by
        intro t ht
        rw [List.filter_filter]
        refine List.filter_congr fun stroke _ => ?_
        by_cases heq : stroke.2 = t
        · have hne : stroke.2 ≠ s := fun h => hs (h ▸ heq ▸ ht)
          simp [heq, heq ▸ hne]
        · simp [heq]
      have hrest : (shades.flatMap fun t => strokes.filter (·.2 = t)) =
          shades.flatMap fun t =>
            (strokes.filter fun stroke => !decide (stroke.2 = s)).filter (·.2 = t) :=
        List.flatMap_congr hothers
      rw [List.flatMap_cons, hrest]
      refine ((ih hnodup ?_).append_left _).trans (List.filter_append_perm _ _)
      intro stroke hstroke
      obtain ⟨hstroke, hne⟩ := List.mem_filter.mp hstroke
      rcases List.mem_cons.mp (hall stroke hstroke) with heq | hmem
      · simp [heq] at hne
      · exact hmem

theorem regionsOf_perm (strokes : List Stroke) (s : Shade) :
    ((regionsOf strokes s).map (·, s)).Perm (strokes.filter (·.2 = s)) := by
  have hmap : ((strokes.filter (·.2 = s)).map (·.1)).map (·, s) = strokes.filter (·.2 = s) := by
    have hsame : ∀ stroke ∈ strokes.filter (·.2 = s), (stroke.1, s) = stroke := by
      intro stroke hstroke
      have heq := of_decide_eq_true (List.mem_filter.mp hstroke).2
      rw [← heq]
    rw [List.map_map]
    exact (List.map_congr_left hsame).trans (List.map_id _)
  have hperm := ((List.mergeSort_perm ((strokes.filter (·.2 = s)).map (·.1))
    fun a b => decide (a ≤ b)).map (·, s))
  rw [hmap] at hperm
  exact hperm

/-- The entries of a plan have its strokes, each once. -/
theorem entries_perm (strokes : List Stroke) :
    ((ofStrokes strokes).entries.flatMap fun e => e.regions.map (·, e.shade)).Perm strokes := by
  have hall : ∀ stroke ∈ strokes, stroke.2 ∈ shadesOf strokes := fun stroke hstroke =>
    mem_shadesOf.mpr ⟨stroke, hstroke, rfl⟩
  rw [ofStrokes, List.flatMap_map]
  exact (List.Perm.flatMap_left _ fun s _ => regionsOf_perm strokes s).trans
    (flatMap_filter_perm (nodup_shadesOf strokes) hall)

/-- A plan lists the strokes that it is made of. -/
theorem spans_perm (strokes : List Stroke) : (ofStrokes strokes).spans.Perm strokes :=
  (List.mergeSort_perm _ _).trans (entries_perm strokes)

/-- A plan lists its strokes in order. -/
theorem pairwise_spans (p : Plan) : p.spans.Pairwise fun a b => Stroke.le a b = true :=
  List.pairwise_mergeSort Stroke.le_trans Stroke.le_total _

/-- Strokes that are in order are listed as they are. -/
theorem spans_ofStrokes_of_pairwise (h : strokes.Pairwise fun a b => Stroke.le a b = true) :
    (ofStrokes strokes).spans = strokes :=
  List.Perm.eq_of_pairwise (fun _ _ _ _ => Stroke.le_antisymm) (pairwise_spans _) h
    (spans_perm strokes)

theorem regions_perm (strokes : List Stroke) :
    ((ofStrokes strokes).entries.flatMap (·.regions)).Perm (strokes.map (·.1)) := by
  have hperm := (entries_perm strokes).map (·.1)
  rw [List.map_flatMap] at hperm
  simpa [List.map_map, Function.comp_def] using hperm

/-! ### Strokes one behind the other -/

theorem not_overlaps_symm {a b : Stroke} (h : ¬ a.1.Overlaps b.1) : ¬ b.1.Overlaps a.1 :=
  fun hover => h ⟨hover.2, hover.1⟩

/-- The strokes of a plan stand one behind the other if no two of them overlap. -/
theorem pairwise_spans_iff (hne : ∀ stroke ∈ strokes, ¬ stroke.1.IsEmpty) :
    ((ofStrokes strokes).spans.Pairwise fun a b => a.1.stop ≤ b.1.start) ↔
      strokes.Pairwise fun a b => ¬ a.1.Overlaps b.1 := by
  have hperm := spans_perm strokes
  rw [← hperm.pairwise_iff not_overlaps_symm]
  constructor
  · intro hapart
    refine hapart.imp fun {a b} hle => ?_
    omega
  · intro hdisjoint
    have hboth := (pairwise_spans (ofStrokes strokes)).and hdisjoint
    refine hboth.imp_of_mem fun {a b} ha hb ⟨hle, hover⟩ => ?_
    have hstart := Stroke.le_iff.mp hle
    have hab := a.1.start_le_stop
    have hbb := b.1.start_le_stop
    have hb' := hne b (hperm.mem_iff.mp hb)
    omega

theorem pairwise_regions_iff (strokes : List Stroke) :
    (((ofStrokes strokes).entries.flatMap (·.regions)).Pairwise fun a b => ¬ a.Overlaps b) ↔
      strokes.Pairwise fun a b => ¬ a.1.Overlaps b.1 := by
  rw [(regions_perm strokes).pairwise_iff fun h hover => h ⟨hover.2, hover.1⟩, List.pairwise_map]

end Plan
end BracketPaint
