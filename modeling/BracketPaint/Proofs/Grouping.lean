import Mathlib.Data.List.Sort
import BracketPaint.Proofs.PaintedOnce
/-!
# A plan groups its strokes

The plan of a pass holds what was painted in the examined regions, stroke by stroke: it lists all
strokes, and none twice that was not painted twice. Each shade has one entry, the entries come in
the order of their shades, and no two of them have the same name (`Buffer.highlight_groups`).

What is asked of a plan is stated apart from how it is made (`Plan.Groups`), and it leaves no choice:
strokes have one plan (`Plan.Groups.unique`).

The name of a shade is made of the digits of its two colours. All colours have six digits, and the
digits read back as the number of the colour, so different shades have different names.
-/

namespace BracketPaint

/-! ### Names of shades -/

/-- The digits of a colour read back as its number. -/
theorem Rgb.hexNumber?_digits (c : Rgb) : Text.hexNumber? c.digits = some c.toNat := by
  have hhigh : ∀ b : UInt8, Text.hexValue? (Text.hexDigit (b.toNat / 16)) = some (b.toNat / 16) :=
    fun b => Text.hexValue?_hexDigit (by have := b.toNat_lt; omega)
  have hlow : ∀ b : UInt8, Text.hexValue? (Text.hexDigit (b.toNat % 16)) = some (b.toNat % 16) :=
    fun b => Text.hexValue?_hexDigit (by omega)
  simp only [digits, Text.hexPair, List.cons_append, List.nil_append, Text.hexNumber?,
    List.foldl_cons, List.foldl_nil, hhigh, hlow, Option.bind_eq_bind, Option.bind_some,
    Option.pure_def, toNat, Option.some.injEq]
  omega

theorem Rgb.digits_injective {c d : Rgb} (h : c.digits = d.digits) : c = d := by
  have hnumber := c.hexNumber?_digits
  rw [h, d.hexNumber?_digits] at hnumber
  exact Rgb.toNat_injective (Option.some.inj hnumber).symm

theorem Rgb.length_digits (c : Rgb) : c.digits.length = 6 := rfl

/-- Different shades have different names. -/
theorem Shade.scopeName_injective {s t : Shade} (h : s.scopeName = t.scopeName) : s = t := by
  have hchars := String.ofList_injective h
  rw [List.append_assoc, List.append_assoc, List.append_cancel_left_eq] at hchars
  obtain ⟨hforeground, hrest⟩ := List.append_inj hchars
    (s.foreground.length_digits.trans t.foreground.length_digits.symm)
  have hbackground := (List.cons.inj hrest).2
  cases s
  cases t
  rw [Shade.mk.injEq]
  exact ⟨Rgb.digits_injective hforeground, Rgb.digits_injective hbackground⟩

/-! ### What a plan is to be -/

namespace Region

variable {a b c : Region}

theorem le_trans (hab : a ≤ b) (hbc : b ≤ c) : a ≤ c := by
  simp only [le_def] at hab hbc ⊢
  omega

theorem le_total (a b : Region) : a ≤ b ∨ b ≤ a := by
  simp only [le_def]
  omega

theorem le_antisymm (hab : a ≤ b) (hba : b ≤ a) : a = b := by
  simp only [le_def] at hab hba
  exact Region.ext (by omega) (by omega)

end Region

namespace Plan

variable {strokes : List Stroke} {p q : Plan} {s : Shade} {e : PlanEntry}

/-- The regions that strokes paint in a shade. -/
def paintedIn (strokes : List Stroke) (s : Shade) : List Region :=
  (strokes.filter (·.2 = s)).map (·.1)

/-- The plan holds the strokes, grouped by shade. -/
structure Groups (p : Plan) (strokes : List Stroke) : Prop where
  /-- The strokes are listed as often as they were painted. -/
  spans_perm : p.spans.Perm strokes
  spans_sorted : p.spans.Pairwise fun a b => Stroke.le a b = true
  /-- No shade has two entries, and they come in order. -/
  shades_ascend : p.entries.Pairwise fun e e' => e.shade ≤ e'.shade ∧ e.shade ≠ e'.shade
  regions_sorted : ∀ e ∈ p.entries, e.regions.Pairwise (· ≤ ·)
  regions_ne : ∀ e ∈ p.entries, e.regions ≠ []
  /-- Asked for a shade, the plan gives the regions that were painted in it. -/
  regionsFor_perm : ∀ s, (p.regionsFor s).Perm (paintedIn strokes s)
  regionsFor_shade : ∀ e ∈ p.entries, p.regionsFor e.shade = e.regions
  /-- The name of an entry is that of no other one. -/
  scopes_differ : p.entries.Pairwise fun e e' => e.scope ≠ e'.scope

/-! ### The plan of strokes -/

theorem pairwise_regionsOf (strokes : List Stroke) (s : Shade) :
    (regionsOf strokes s).Pairwise (· ≤ ·) := by
  have hsorted : (regionsOf strokes s).Pairwise fun a b => decide (a ≤ b) = true := by
    refine List.pairwise_mergeSort (fun a b c hab hbc => ?_) (fun a b => ?_) (paintedIn strokes s)
    · rw [decide_eq_true_eq] at hab hbc ⊢
      exact Region.le_trans hab hbc
    · simpa using Region.le_total a b
  exact hsorted.imp fun hle => of_decide_eq_true hle

theorem regionsOf_perm_paintedIn (strokes : List Stroke) (s : Shade) :
    (regionsOf strokes s).Perm (paintedIn strokes s) :=
  List.mergeSort_perm _ _

/-- Regions that are in order are kept as they are. -/
theorem regionsOf_of_pairwise (h : (paintedIn strokes s).Pairwise (· ≤ ·)) :
    regionsOf strokes s = paintedIn strokes s :=
  List.Perm.eq_of_pairwise (fun _ _ _ _ => Region.le_antisymm) (pairwise_regionsOf strokes s) h
    (regionsOf_perm_paintedIn strokes s)

theorem paintedIn_ne_nil_iff : paintedIn strokes s ≠ [] ↔ s ∈ shadesOf strokes := by
  rw [paintedIn, Ne, List.map_eq_nil_iff, List.filter_eq_nil_iff, mem_shadesOf]
  simp

theorem ne_nil_iff_of_perm {α : Type} {as bs : List α} (h : as.Perm bs) : as ≠ [] ↔ bs ≠ [] := by
  rw [← List.length_pos_iff, ← List.length_pos_iff, h.length_eq]

/-- A plan knows the regions of every shade, also of those that it has no entry for. -/
theorem regionsFor_ofStrokes (strokes : List Stroke) (s : Shade) :
    (ofStrokes strokes).regionsFor s = regionsOf strokes s := by
  rw [regionsFor, ofStrokes, List.find?_map, Option.map_map]
  cases hfind : (shadesOf strokes).find?
      ((fun e : PlanEntry => decide (e.shade = s)) ∘ fun t => ⟨t, regionsOf strokes t⟩) with
  | none =>
      have hnone : s ∉ shadesOf strokes := fun hs => by
        simpa using List.find?_eq_none.mp hfind s hs
      rw [← paintedIn_ne_nil_iff, not_not] at hnone
      exact (List.perm_nil.mp (hnone ▸ regionsOf_perm_paintedIn strokes s)).symm
  | some t =>
      obtain rfl : t = s := by simpa using List.find?_some hfind
      rfl

theorem mem_entries_ofStrokes : e ∈ (ofStrokes strokes).entries ↔
    e.shade ∈ shadesOf strokes ∧ e.regions = regionsOf strokes e.shade := by
  rw [ofStrokes, List.mem_map]
  constructor
  · rintro ⟨s, hs, rfl⟩
    exact ⟨hs, rfl⟩
  · rintro ⟨hs, hregions⟩
    exact ⟨e.shade, hs, by rw [← hregions]⟩

/-- The plan of strokes groups them. -/
theorem groups_ofStrokes (strokes : List Stroke) : (ofStrokes strokes).Groups strokes := by
  have hshades : (ofStrokes strokes).entries.Pairwise fun e e' =>
      e.shade ≤ e'.shade ∧ e.shade ≠ e'.shade :=
    List.pairwise_map.mpr (pairwise_shadesOf strokes)
  constructor
  case spans_perm => exact spans_perm strokes
  case spans_sorted => exact pairwise_spans _
  case shades_ascend => exact hshades
  case regions_sorted =>
    intro e he
    rw [(mem_entries_ofStrokes.mp he).2]
    exact pairwise_regionsOf strokes e.shade
  case regions_ne =>
    intro e he
    obtain ⟨hs, hregions⟩ := mem_entries_ofStrokes.mp he
    rw [hregions, ne_nil_iff_of_perm (regionsOf_perm_paintedIn strokes e.shade)]
    exact paintedIn_ne_nil_iff.mpr hs
  case regionsFor_perm =>
    intro s
    rw [regionsFor_ofStrokes]
    exact regionsOf_perm_paintedIn strokes s
  case regionsFor_shade =>
    intro e he
    rw [regionsFor_ofStrokes, (mem_entries_ofStrokes.mp he).2]
  case scopes_differ => exact hshades.imp fun h heq => h.2 (Shade.scopeName_injective heq)

/-! ### There is no other plan -/

theorem regionsFor_cases (p : Plan) (s : Shade) :
    p.regionsFor s = [] ∨ ∃ e ∈ p.entries, e.shade = s ∧ p.regionsFor s = e.regions := by
  unfold regionsFor
  cases hfind : p.entries.find? (·.shade = s) with
  | none => exact Or.inl rfl
  | some e =>
      exact Or.inr ⟨e, List.mem_of_find?_eq_some hfind, by simpa using List.find?_some hfind, rfl⟩

namespace Groups

theorem pairwise_shades (h : p.Groups strokes) :
    (p.entries.map (·.shade)).Pairwise fun a b => a ≤ b ∧ a ≠ b :=
  List.pairwise_map.mpr h.shades_ascend

/-- The shades with entries are those that were painted in. -/
theorem mem_shades_iff (h : p.Groups strokes) :
    s ∈ p.entries.map (·.shade) ↔ paintedIn strokes s ≠ [] := by
  rw [← ne_nil_iff_of_perm (h.regionsFor_perm s), List.mem_map]
  constructor
  · rintro ⟨e, he, rfl⟩
    rw [h.regionsFor_shade e he]
    exact h.regions_ne e he
  · intro hne
    rcases regionsFor_cases p s with hnil | ⟨e, he, hs, -⟩
    · exact absurd hnil hne
    · exact ⟨e, he, hs⟩

theorem pairwise_regionsFor (h : p.Groups strokes) (s : Shade) :
    (p.regionsFor s).Pairwise (· ≤ ·) := by
  rcases regionsFor_cases p s with hnil | ⟨e, he, -, hregions⟩
  · rw [hnil]
    exact List.Pairwise.nil
  · rw [hregions]
    exact h.regions_sorted e he

theorem entries_eq (h : p.Groups strokes) :
    p.entries = (p.entries.map (·.shade)).map fun s => ⟨s, p.regionsFor s⟩ := by
  have hsame : ∀ e ∈ p.entries, (⟨e.shade, p.regionsFor e.shade⟩ : PlanEntry) = e := by
    intro e he
    rw [h.regionsFor_shade e he]
  rw [List.map_map]
  exact ((List.map_congr_left hsame).trans (List.map_id _)).symm

/-- Strokes have one plan. -/
theorem unique (hp : p.Groups strokes) (hq : q.Groups strokes) : p = q := by
  have hregions : p.regionsFor = q.regionsFor := by
    funext s
    exact List.Perm.eq_of_pairwise (fun _ _ _ _ => Region.le_antisymm) (hp.pairwise_regionsFor s)
      (hq.pairwise_regionsFor s) ((hp.regionsFor_perm s).trans (hq.regionsFor_perm s).symm)
  have hshades : p.entries.map (·.shade) = q.entries.map (·.shade) := by
    refine List.Perm.eq_of_pairwise
      (fun a b _ _ hab hba => absurd (Shade.le_antisymm hab.1 hba.1) hab.2)
      hp.pairwise_shades hq.pairwise_shades ?_
    refine (List.perm_ext_iff_of_nodup (hp.pairwise_shades.imp fun h => h.2)
      (hq.pairwise_shades.imp fun h => h.2)).mpr fun s => ?_
    rw [hp.mem_shades_iff, hq.mem_shades_iff]
  have hentries : p.entries = q.entries := by
    rw [hp.entries_eq, hq.entries_eq, hshades, hregions]
  cases p
  cases q
  exact congrArg Plan.mk hentries

end Groups
end Plan

namespace Buffer

variable {b : Buffer} {config : Configuration} {cursors : List Nat} {plan : Plan}

/-- **A plan holds what was painted.** The plan of a pass that succeeds groups the strokes of the
regions that were examined, and it is the only plan that does. Different shades have different
names. -/
theorem highlight_groups (h : b.highlight config cursors = .ok plan) :
    (∃ strokes : List (List Stroke),
      List.Forall₂ (fun e l =>
        b.strokesIn config (currentLines b (normalizeCursors cursors)) e = .ok l)
        (if config.enabled then b.examined config cursors else []) strokes ∧
      plan.Groups strokes.flatten ∧ ∀ q : Plan, q.Groups strokes.flatten → q = plan) ∧
    ∀ s t : Shade, s.scopeName = t.scopeName → s = t := by
  refine ⟨?_, fun s t => Shade.scopeName_injective⟩
  cases henabled : config.enabled with
  | false =>
      rw [highlight_of_disabled henabled] at h
      cases h
      have hgroups := Plan.groups_ofStrokes []
      exact ⟨[], List.Forall₂.nil, hgroups, fun q hq => hq.unique hgroups⟩
  | true =>
      obtain ⟨-, strokes, hstrokes, rfl⟩ := (highlight_eq_ok_iff henabled).mp h
      have hgroups := Plan.groups_ofStrokes strokes.flatten
      exact ⟨strokes, hstrokes, hgroups, fun q hq => hq.unique hgroups⟩

/-- Two regions are looked at in `(())bcd()`. The shade of the innermost scopes is painted in both of
them. -/
theorem highlight_groups_twoRegions :
    ∃ plan, (ofString "(())bcd()").highlight narrow [2, 8] = .ok plan ∧
      plan.entries.map (·.regions) = [[⟨0, 1, by decide⟩, ⟨3, 4, by decide⟩],
        [⟨1, 3, by decide⟩, ⟨7, 9, by decide⟩]] ∧
      (plan.entries.Pairwise fun e e' => e.scope ≠ e'.scope) ∧
      ∃ strokes, plan.spans.Perm strokes ∧ ∀ q : Plan, q.Groups strokes → q = plan := by
  let outer : Shade := ⟨⟨0xD4, 0xD4, 0xD4⟩, ⟨0x2B, 0x28, 0x38⟩⟩
  let innermost : Shade := ⟨⟨0xFF, 0xD7, 0x00⟩, ⟨0x3A, 0x35, 0x20⟩⟩
  let strokes : List (List Stroke) :=
    [[(⟨0, 1, by decide⟩, outer), (⟨1, 3, by decide⟩, innermost), (⟨3, 4, by decide⟩, outer)],
      [(⟨7, 9, by decide⟩, innermost)]]
  have hexamined : (ofString "(())bcd()").examined narrow [2, 8] =
      [⟨⟨0, 4, by decide⟩, [2]⟩, ⟨⟨6, 9, by decide⟩, [8]⟩] := by decide +kernel
  have hlines : currentLines (ofString "(())bcd()") (normalizeCursors [2, 8]) =
      [⟨0, 9, by decide⟩] := by decide +kernel
  have hok : (ofString "(())bcd()").highlight narrow [2, 8] =
      .ok (Plan.ofStrokes strokes.flatten) := by
    refine (highlight_eq_ok_iff rfl).mpr ⟨by decide, strokes, ?_, rfl⟩
    rw [hexamined, hlines]
    refine .cons ((strokesIn_of_partners
        [⟨.level 1, 0⟩, .primary, .primary, ⟨.level 1, 0⟩] ?_).trans ?_)
      (.cons ((strokesIn_of_partners [.primary, .primary] ?_).trans ?_) .nil)
    all_goals decide +kernel
  have hshades : Plan.shadesOf strokes.flatten = [outer, innermost] := by decide +kernel
  have hregions : (Plan.ofStrokes strokes.flatten).entries.map (·.regions) =
      [[⟨0, 1, by decide⟩, ⟨3, 4, by decide⟩], [⟨1, 3, by decide⟩, ⟨7, 9, by decide⟩]] := by
    rw [Plan.ofStrokes, hshades]
    simp only [List.map_cons, List.map_nil]
    rw [Plan.regionsOf_of_pairwise (by decide), Plan.regionsOf_of_pairwise (by decide)]
    rfl
  obtain ⟨⟨strokes', -, hgroups, hunique⟩, -⟩ := highlight_groups hok
  exact ⟨_, hok, hregions, hgroups.scopes_differ, strokes'.flatten, hgroups.spans_perm,
    hunique⟩

end Buffer
end BracketPaint
