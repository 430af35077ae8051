import BracketPaint.Proofs.Outcome
import BracketPaint.Settings.Resolution
/-!
# Resolved configurations

A configuration that settings resolve to is **sound** (`Settings.sound_of_resolve`): every bracket
has a text to be found by, and every list of colours has a colour to be picked. The passes rely on
both, and nothing else about the settings matters to them.
-/

namespace BracketPaint

/-- What a pass relies on in a configuration. -/
structure Configuration.Sound (config : Configuration) : Prop where
  brackets_ne : ∀ pair ∈ config.brackets, pair.left ≠ "" ∧ pair.right ≠ ""
  secondary_ne : config.colors.secondary ≠ []
  offside_ne : config.colors.offside ≠ []

namespace KindSettings

variable {s : KindSettings} {kind : Kind} {fallback colors : List ColorPair}

theorem colorList_ne_nil (hfallback : fallback ≠ [])
    (h : s.colorList kind fallback = .ok colors) : colors ≠ [] := by
  unfold colorList at h
  split at h
  · cases h
  · rename_i color _ _
    cases hparse : color.parse with
    | error e => simp [hparse, Except.map] at h
    | ok pair =>
        simp only [hparse, Except.map, Except.ok.injEq] at h
        rw [← h]
        exact List.cons_ne_nil _ _
  · cases h
  · rename_i specs hne _ _
    -- The list that was read has as many colours as were written, and these are not none.
    cases specs with
    | nil => exact absurd rfl hne
    | cons spec specs =>
        rw [List.mapM_cons, bind_eq_ok_iff] at h
        obtain ⟨pair, -, h⟩ := h
        rw [bind_eq_ok_iff] at h
        obtain ⟨pairs, -, h⟩ := h
        cases h
        exact List.cons_ne_nil _ _
  · cases h
    exact hfallback

end KindSettings

namespace Settings

variable {s : Settings} {syntaxName : Option String} {config : Configuration} {colors : Palette}

theorem ne_empty_of_checkBrackets (h : s.checkBrackets = .ok ()) :
    ∀ pair ∈ s.brackets, pair.left ≠ "" ∧ pair.right ≠ "" := by
  unfold checkBrackets at h
  split at h
  · cases h
  · rename_i hany
    intro pair hpair
    simp only [List.any_eq_true, Bool.or_eq_true, String.isEmpty_iff, not_exists, not_and,
      not_or] at hany
    exact hany pair hpair

theorem palette_ne_nil (h : s.palette = .ok colors) :
    colors.secondary ≠ [] ∧ colors.offside ≠ [] := by
  simp only [palette, bind_eq_ok_iff] at h
  obtain ⟨_, -, secondary, hsecondary, offside, hoffside, _, -, _, -, _, -, _, -, _, -, h⟩ := h
  cases h
  exact ⟨KindSettings.colorList_ne_nil (by decide) hsecondary,
    KindSettings.colorList_ne_nil (by decide) hoffside⟩

/-- Settings resolve to sound configurations only. -/
theorem sound_of_resolve (h : s.resolve syntaxName = .ok config) : config.Sound := by
  simp only [resolve, toConfiguration, bind_eq_ok_iff] at h
  obtain ⟨⟨⟩, hbrackets, _, -, colors, hcolors, _, -, _, -, h⟩ := h
  cases h
  obtain ⟨hsecondary, hoffside⟩ := palette_ne_nil hcolors
  exact ⟨ne_empty_of_checkBrackets hbrackets, hsecondary, hoffside⟩

end Settings
end BracketPaint
