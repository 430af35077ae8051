import BracketPaint.Proofs.Resolved
/-!
# Defects of settings

What is wrong with settings is a list of **defects**, in the order in which they are checked
(`Settings.defects`). Settings resolve if there are none, and else fail with the first of them; the
list is put together from what each check reports. Whether there are any is told without the order
by `Settings.Flawed`.

The settings of a kind are checked for the keys that the kind has, and each colour that is written
somewhere is read, whether it is used or not. What is left of the settings then is complete
(`Configuration.Follows`).
-/

namespace BracketPaint

/-- The error of a check that fails if the condition holds. -/
def defectIf (p : Prop) [Decidable p] (e : SettingsError) : List SettingsError :=
  if p then [e] else []

/-! ### Colours -/

/-- The error of a colour that does not read. -/
def ColorSpec.defects (spec : ColorSpec) : List SettingsError :=
  match spec.parse with
  | .ok _ => []
  | .error e => [.color e]

/-- What is wrong with a base colour. -/
def ColorSpec.baseDefects (name : String) (spec : ColorSpec) : List SettingsError :=
  spec.defects ++ defectIf (spec.parse = .ok .transparent) (.transparentBase name)

/-- The colours that are written in a pair. -/
def ColorPairSpec.specs (p : ColorPairSpec) : List ColorSpec :=
  p.foreground.toList ++ p.background.toList

theorem ColorSpec.reports_parse (spec : ColorSpec) :
    Reports (spec.parse.mapError SettingsError.color) spec.defects := by
  unfold defects
  cases spec.parse with
  | ok color => exact reports_ok color
  | error e => exact reports_error _ _

theorem ColorSpec.reports_parseBase (name : String) (spec : ColorSpec) :
    Reports (spec.parseBase name) (spec.baseDefects name) := by
  unfold parseBase baseDefects defects
  cases spec.parse with
  | error e => exact reports_error _ _
  | ok color =>
      cases color with
      | transparent => exact reports_error _ _
      | solid c => exact reports_ok c

theorem reports_parseColor (spec : Option ColorSpec) :
    Reports (parseColor spec) (spec.toList.flatMap ColorSpec.defects) := by
  cases spec with
  | none => exact reports_ok _
  | some spec => simpa [parseColor] using spec.reports_parse

theorem ColorPairSpec.reports_parse (p : ColorPairSpec) :
    Reports p.parse (p.specs.flatMap ColorSpec.defects) := by
  rw [specs, List.flatMap_append]
  refine (reports_parseColor p.foreground).bind fun foreground _ => ?_
  have := (reports_parseColor p.background).bind fun background _ =>
    reports_ok (⟨foreground, background⟩ : ColorPair)
  rwa [List.append_nil] at this

theorem reports_baseColor (name : String) (fallback : Rgb) (spec : Option ColorSpec) :
    Reports (baseColor name fallback spec)
      (spec.toList.flatMap (ColorSpec.baseDefects name)) := by
  cases spec with
  | none => exact reports_ok fallback
  | some spec => simpa [baseColor] using spec.reports_parseBase name

/-! ### Kinds -/

namespace KindSettings

/-- The colours that are written for a kind. -/
def specs (s : KindSettings) : List ColorSpec :=
  (s.color.toList ++ s.colors.getD []).flatMap ColorPairSpec.specs

/-- What is wrong with the colours of a kind without levels. -/
def singleDefects (s : KindSettings) (kind : Kind) : List SettingsError :=
  defectIf s.colors.isSome (.unexpectedKey kind "colors") ++ s.specs.flatMap ColorSpec.defects

/-- What is wrong with the colours of a kind with levels. -/
def listDefects (s : KindSettings) (kind : Kind) : List SettingsError :=
  defectIf (s.color.isSome ∧ s.colors.isSome) (.conflict kind) ++
    (defectIf (s.colors = some []) (.emptyColors kind) ++ s.specs.flatMap ColorSpec.defects)

/-- What is wrong with the limit of a kind with levels. -/
def limitDefects (s : KindSettings) (kind : Kind) : List SettingsError :=
  defectIf (s.depthLimit = some 0) (.invalidDepthLimit kind)

variable (s : KindSettings) (kind : Kind)

theorem reports_singleColor (fallback : ColorPair) :
    Reports (s.singleColor kind fallback) (s.singleDefects kind) := by
  unfold singleColor singleDefects specs
  cases hcolors : s.colors with
  | some colors => exact reports_error _ _
  | none =>
      cases hcolor : s.color with
      | none => exact reports_ok fallback
      | some color => simpa [defectIf] using color.reports_parse

theorem reports_colorList (fallback : List ColorPair) :
    Reports (s.colorList kind fallback) (s.listDefects kind) := by
  unfold colorList listDefects specs
  cases hcolor : s.color with
  | some color =>
      cases hcolors : s.colors with
      | some colors => exact reports_error _ _
      | none => simpa [defectIf] using color.reports_parse.map ([·])
  | none =>
      cases hcolors : s.colors with
      | none => exact reports_ok fallback
      | some colors =>
          cases colors with
          | nil => exact reports_error _ _
          | cons color colors =>
              simpa [defectIf, List.flatMap_assoc] using
                Reports.mapM (color :: colors) ColorPairSpec.reports_parse

theorem reports_reject (depthLimit side : Bool) :
    Reports (s.reject kind depthLimit side)
      (defectIf (depthLimit ∧ s.depthLimit.isSome) (.unexpectedKey kind "depth_limit") ++
        defectIf (side ∧ s.side.isSome) (.unexpectedKey kind "side")) := by
  unfold reject defectIf
  split
  · exact reports_error _ _
  · split
    · exact reports_error _ _
    · exact reports_ok ()

theorem reports_limit (fallback : Option Nat) :
    Reports (s.limit kind fallback) (s.limitDefects kind) := by
  unfold limit limitDefects
  cases s.depthLimit with
  | none => exact reports_ok fallback
  | some level =>
      cases level with
      | zero => exact reports_error _ _
      | succ level => exact reports_ok _

variable {s kind}

theorem pos_of_limit {fallback limit? : Option Nat}
    (hfallback : ∀ level, fallback = some level → 0 < level)
    (h : s.limit kind fallback = .ok limit?) : ∀ level, limit? = some level → 0 < level := by
  unfold limit at h
  split at h
  · cases h
  · rename_i hzero _
    cases h
    intro level hlevel
    cases hlevel
    exact Nat.pos_of_ne_zero hzero
  · cases h
    exact hfallback

end KindSettings

/-! ### Settings -/

namespace Settings

variable (s : Settings)

/-- What is wrong with the keys that are set, kind by kind. -/
def keyDefects : List SettingsError :=
  [ defectIf s.kinds.primary.depthLimit.isSome (.unexpectedKey .primary "depth_limit"),
    defectIf s.kinds.primary.side.isSome (.unexpectedKey .primary "side"),
    defectIf s.kinds.secondary.side.isSome (.unexpectedKey .secondary "side"),
    defectIf s.kinds.offside.side.isSome (.unexpectedKey .offside "side"),
    defectIf s.kinds.adjacent.depthLimit.isSome (.unexpectedKey .adjacent "depth_limit"),
    defectIf s.kinds.inconsistent.depthLimit.isSome
      (.unexpectedKey .inconsistent "depth_limit"),
    defectIf s.kinds.inconsistent.side.isSome (.unexpectedKey .inconsistent "side") ].flatten

/-- What is wrong with the colours, kind by kind and then those of the theme. -/
def colorDefects : List SettingsError :=
  [ s.kinds.primary.singleDefects .primary,
    s.kinds.secondary.listDefects .secondary,
    s.kinds.offside.listDefects .offside,
    s.kinds.adjacent.singleDefects .adjacent,
    s.kinds.inconsistent.singleDefects .inconsistent,
    s.theme.text.toList.flatMap (ColorSpec.baseDefects "text"),
    s.theme.background.toList.flatMap (ColorSpec.baseDefects "background"),
    s.theme.currentLine.toList.flatMap (ColorSpec.baseDefects "current_line") ].flatten

/-- What is wrong with settings without overrides, in the order of the checks. -/
def defects : List SettingsError :=
  [ defectIf (∃ pair ∈ s.brackets, pair.left = "" ∨ pair.right = "") .emptyBracket,
    s.keyDefects,
    s.colorDefects,
    s.kinds.secondary.limitDefects .secondary,
    s.kinds.offside.limitDefects .offside ].flatten

theorem reports_checkBrackets :
    Reports s.checkBrackets
      (defectIf (∃ pair ∈ s.brackets, pair.left = "" ∨ pair.right = "") .emptyBracket) := by
  unfold checkBrackets defectIf
  simp only [List.any_eq_true, Bool.or_eq_true, String.isEmpty_iff]
  split
  · exact reports_error _ _
  · exact reports_ok ()

theorem reports_checkKeys : Reports s.checkKeys s.keyDefects := by
  have := (s.kinds.primary.reports_reject .primary true true).bind fun _ _ =>
    (s.kinds.secondary.reports_reject .secondary false true).bind fun _ _ =>
    (s.kinds.offside.reports_reject .offside false true).bind fun _ _ =>
    (s.kinds.adjacent.reports_reject .adjacent true false).bind fun _ _ =>
    s.kinds.inconsistent.reports_reject .inconsistent true true
  simpa [checkKeys, keyDefects, defectIf] using this

theorem reports_palette : Reports s.palette s.colorDefects := by
  unfold palette
  refine (s.kinds.primary.reports_singleColor .primary _).bind fun primary _ => ?_
  refine (s.kinds.secondary.reports_colorList .secondary _).bind fun secondary _ => ?_
  refine (s.kinds.offside.reports_colorList .offside _).bind fun offside _ => ?_
  refine (s.kinds.adjacent.reports_singleColor .adjacent _).bind fun adjacent _ => ?_
  refine (s.kinds.inconsistent.reports_singleColor .inconsistent _).bind fun inconsistent _ => ?_
  refine (reports_baseColor "text" _ _).bind fun text _ => ?_
  refine (reports_baseColor "background" _ _).bind fun background _ => ?_
  refine (reports_baseColor "current_line" _ _).bind fun currentLine _ => ?_
  exact reports_ok _

theorem reports_toConfiguration : Reports s.toConfiguration s.defects := by
  unfold toConfiguration
  refine s.reports_checkBrackets.bind fun _ _ => ?_
  refine s.reports_checkKeys.bind fun _ _ => ?_
  refine s.reports_palette.bind fun colors _ => ?_
  refine (s.kinds.secondary.reports_limit .secondary _).bind fun secondaryLimit _ => ?_
  refine (s.kinds.offside.reports_limit .offside _).bind fun offsideLimit _ => ?_
  exact reports_ok _

/-! ### Settings that are flawed -/

end Settings

/-- The colour reads. -/
def ColorSpec.Reads (spec : ColorSpec) : Prop := ∃ color, spec.parse = .ok color

/-- The colour reads, and it is opaque. -/
def ColorSpec.ReadsOpaque (spec : ColorSpec) : Prop := ∃ c, spec.parse = .ok (.solid c)

/-- The colours that are written for the theme. -/
def ThemeSettings.specs (t : ThemeSettings) : List ColorSpec :=
  t.text.toList ++ (t.background.toList ++ t.currentLine.toList)

/-- The colours that are written in settings. -/
def Settings.specs (s : Settings) : List ColorSpec :=
  s.theme.specs ++ [Kind.primary, .secondary, .offside, .adjacent, .inconsistent].flatMap
    fun kind => (s.kinds.get kind).specs

/-- The settings of a kind have a key that the kind does not have, or a value that no key of a
kind with levels may have. -/
def KindSettings.Misfits (s : KindSettings) : Kind → Prop
  | .primary | .inconsistent => s.depthLimit.isSome ∨ s.side.isSome ∨ s.colors.isSome
  | .secondary | .offside => s.side.isSome ∨ (s.color.isSome ∧ s.colors.isSome) ∨
      s.colors = some [] ∨ s.depthLimit = some 0
  | .adjacent => s.depthLimit.isSome ∨ s.colors.isSome

/-- Settings without overrides have something wrong with them. -/
def Settings.Flawed (s : Settings) : Prop :=
  (∃ pair ∈ s.brackets, pair.left = "" ∨ pair.right = "") ∨
  (∃ kind, (s.kinds.get kind).Misfits kind) ∨
  (∃ kind, ∃ spec ∈ (s.kinds.get kind).specs, ¬ spec.Reads) ∨
  ∃ spec ∈ s.theme.specs, ¬ spec.ReadsOpaque

theorem Kind.forall_iff {p : Kind → Prop} :
    (∀ kind, p kind) ↔ p .primary ∧ p .secondary ∧ p .offside ∧ p .adjacent ∧ p .inconsistent :=
  ⟨fun h => ⟨h _, h _, h _, h _, h _⟩, fun h kind => by cases kind <;> simp [h]⟩

@[simp] theorem defectIf_eq_nil_iff {p : Prop} [Decidable p] {e : SettingsError} :
    defectIf p e = [] ↔ ¬ p := by
  simp [defectIf]

@[simp] theorem forall_mem_defectIf {p : Prop} [Decidable p] {e : SettingsError}
    {q : SettingsError → Prop} : (∀ e' ∈ defectIf p e, q e') ↔ (p → q e) := by
  by_cases hp : p <;> simp [defectIf, hp]

@[simp] theorem ColorSpec.defects_eq_nil_iff (spec : ColorSpec) :
    spec.defects = [] ↔ spec.Reads := by
  unfold defects Reads
  cases spec.parse <;> simp

@[simp] theorem ColorSpec.baseDefects_eq_nil_iff (name : String) (spec : ColorSpec) :
    spec.baseDefects name = [] ↔ spec.ReadsOpaque := by
  unfold baseDefects defects ReadsOpaque
  cases spec.parse with
  | error e => simp
  | ok color => cases color <;> simp

theorem ColorSpec.fault?_eq_none_of_mem_defects {spec : ColorSpec}
    (h : ∀ f, spec.parse ≠ .error (.fault f)) : ∀ e ∈ spec.defects, e.fault? = none := by
  unfold defects
  cases hparse : spec.parse with
  | ok color => simp
  | error e => cases e <;> simp_all [SettingsError.fault?, ColorError.fault?]

theorem ColorSpec.fault?_eq_none_of_mem_baseDefects {spec : ColorSpec} (name : String)
    (h : ∀ f, spec.parse ≠ .error (.fault f)) : ∀ e ∈ spec.baseDefects name, e.fault? = none :=
  List.forall_mem_append.mpr
    ⟨fault?_eq_none_of_mem_defects h, forall_mem_defectIf.mpr fun _ => rfl⟩

namespace Settings

variable {s : Settings} {syntaxName : Option String} {config : Configuration}

/-- Settings are flawed if anything is wrong with them. -/
theorem defects_eq_nil_iff (s : Settings) : s.defects = [] ↔ ¬ s.Flawed := by
  unfold defects keyDefects colorDefects Flawed
  simp only [not_or, not_exists, Kind.forall_iff]
  simp [KindSettings.singleDefects, KindSettings.listDefects, KindSettings.limitDefects,
    KindSettings.Misfits, PerKind.get, ThemeSettings.specs, or_imp, forall_and]
  tauto

/-- If no colour breaks a promise, no defect is a broken promise. -/
theorem fault?_eq_none_of_mem_defects
    (h : ∀ spec ∈ s.specs, ∀ f, spec.parse ≠ .error (.fault f)) :
    ∀ e ∈ s.defects, e.fault? = none := by
  obtain ⟨htheme, hkinds⟩ := List.forall_mem_append.mp h
  have hkind : ∀ kind, ∀ e ∈ (s.kinds.get kind).specs.flatMap ColorSpec.defects,
      e.fault? = none := by
    intro kind
    refine List.forall_mem_flatMap.mpr fun spec hspec => ?_
    refine ColorSpec.fault?_eq_none_of_mem_defects (hkinds spec ?_)
    exact List.mem_flatMap.mpr ⟨kind, by cases kind <;> simp, hspec⟩
  have hbase : ∀ name, ∀ e ∈ s.theme.specs.flatMap (ColorSpec.baseDefects name),
      e.fault? = none := fun name => List.forall_mem_flatMap.mpr fun spec hspec =>
    ColorSpec.fault?_eq_none_of_mem_baseDefects name (htheme spec hspec)
  obtain ⟨hprimary, hsecondary, hoffside, hadjacent, hinconsistent⟩ := Kind.forall_iff.mp hkind
  simp only [ThemeSettings.specs, List.flatMap_append, List.forall_mem_append] at hbase
  simp only [defects, keyDefects, colorDefects, KindSettings.singleDefects,
    KindSettings.listDefects, KindSettings.limitDefects, List.flatten_cons, List.flatten_nil,
    List.append_nil, List.forall_mem_append, forall_mem_defectIf]
  grind [SettingsError.fault?, PerKind.get]

/-! ### Settings that resolve -/

end Settings

/-- The configuration is complete, and what the settings switch off is not painted. -/
structure Configuration.Follows (config : Configuration) (s : Settings) : Prop where
  sound : config.Sound
  secondaryLimit_pos : ∀ level, config.secondaryLimit = some level → 0 < level
  offsideLimit_pos : ∀ level, config.offsideLimit = some level → 0 < level
  mode_eq_none : ∀ kind, (s.kinds.get kind).enabled = some false →
    config.modes.get kind = .none

namespace Settings

variable {s : Settings} {syntaxName : Option String} {config : Configuration}

theorem follows_of_resolve (h : s.resolve syntaxName = .ok config) :
    config.Follows (s.forSyntax syntaxName) := by
  have hsound := sound_of_resolve h
  simp only [resolve, toConfiguration, bind_eq_ok_iff] at h
  obtain ⟨⟨⟩, -, _, -, colors, -, secondaryLimit, hsecondary, offsideLimit, hoffside, h⟩ := h
  cases h
  constructor
  case sound => exact hsound
  case secondaryLimit_pos => exact KindSettings.pos_of_limit (by decide) hsecondary
  case offsideLimit_pos => exact KindSettings.pos_of_limit (by decide) hoffside
  case mode_eq_none =>
    intro kind henabled
    rw [PerKind.get_zipWith, KindSettings.modeOr, if_pos henabled]

/-- **Validation.** Where every written colour reads or is refused, settings fail to resolve for a
syntax if and only if they are flawed once its overrides are laid over them. They fail with the
first defect, and what they resolve to is complete. -/
theorem resolve_reports_defects (s : Settings) (syntaxName : Option String)
    (hread : ∀ spec ∈ (s.forSyntax syntaxName).specs, ∀ f, spec.parse ≠ .error (.fault f)) :
    ((∃ e, s.resolve syntaxName = .error e) ↔ (s.forSyntax syntaxName).Flawed) ∧
    (∀ e, s.resolve syntaxName = .error e ↔
      (s.forSyntax syntaxName).defects.head? = some e) ∧
    (∀ e ∈ (s.forSyntax syntaxName).defects, e.fault? = none) ∧
    ∀ config, s.resolve syntaxName = .ok config → config.Follows (s.forSyntax syntaxName) := by
  have hreports : Reports (s.resolve syntaxName) (s.forSyntax syntaxName).defects :=
    (s.forSyntax syntaxName).reports_toConfiguration
  refine ⟨?_, hreports, fault?_eq_none_of_mem_defects hread, fun config => follows_of_resolve⟩
  rw [hreports.exists_error_iff, ne_eq, defects_eq_nil_iff, not_not]

/-- Settings with a colour for a kind, over which an override lays a limit of zero. -/
def limitedToZero : Settings where
  theme := { background := some (.integer 0) }
  kinds := { PerKind.replicate {} with offside := { color := some ⟨some (.text "Red"), none⟩ } }
  overrides := [{
    syntaxes := .one "lisp"
    kinds := { PerKind.replicate {} with offside := { depthLimit := some 0 } } }]

theorem resolve_limitedToZero :
    (∀ spec ∈ (limitedToZero.forSyntax (some "Lisp")).specs,
      ∀ f, spec.parse ≠ .error (.fault f)) ∧
    limitedToZero.resolve (some "Lisp") = .error (.invalidDepthLimit .offside) := by
  have hspecs : (limitedToZero.forSyntax (some "Lisp")).specs = [.integer 0, .text "Red"] := by
    decide
  have hblack : (ColorSpec.integer 0).parse = .ok (.ofNat 0) := by decide
  have hred : (ColorSpec.text "Red").parse = .ok (.ofNat 0xFF0000) := by decide
  have hread : ∀ spec ∈ (limitedToZero.forSyntax (some "Lisp")).specs,
      ∀ f, spec.parse ≠ .error (.fault f) := by
    simp [hspecs, hblack, hred]
  exact ⟨hread, ((resolve_reports_defects _ _ hread).2.1 _).mpr (by decide)⟩

end Settings
end BracketPaint
