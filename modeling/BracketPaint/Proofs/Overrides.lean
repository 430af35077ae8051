import Mathlib.Data.List.Induction
import BracketPaint.Settings.Resolution
/-!
# What overrides amount to

Settings are resolved by laying the overrides for a syntax over them, one after the other. What
this amounts to can be told key by key: the last override that sets a key decides on it, and the
settings do if none does (`Settings.decidedBy`). The colours of a kind are one key. A list that
may be replaced and extended is the last replacement with everything that is added from there on,
so that what was added before is lost.

`Settings.resolve_decidedBy` says that the settings resolve as if they had been written like that
in the first place, without overrides.
-/

namespace BracketPaint

variable {α β : Type}

/-! ### Last values -/

/-- The last value that is set. -/
def lastSet? (key : α → Option β) (as : List α) : Option β := (as.filterMap key).getLast?

/-- The members from the last one on for which the test holds, or all if it holds for none. -/
def fromLast (test : α → Bool) : List α → List α
  | [] => []
  | a :: as => if as.any test then fromLast test as else a :: as

/-- A list that may be replaced and extended: the last replacement, or what there is without one,
and all that is added from there on. -/
def lastList (replaced : α → Option (List β)) (added : α → List β) (as : List α)
    (base : List β) : List β :=
  (lastSet? replaced as).getD base ++
    (fromLast (fun a => (replaced a).isSome) as).flatMap added

@[simp] theorem lastSet?_nil (key : α → Option β) : lastSet? key [] = none := rfl

@[simp] theorem lastSet?_append_singleton (key : α → Option β) (as : List α) (a : α) :
    lastSet? key (as ++ [a]) = (key a).or (lastSet? key as) := by
  cases h : key a <;> simp [lastSet?, h]

theorem fromLast_append_singleton (test : α → Bool) (as : List α) (a : α) :
    fromLast test (as ++ [a]) = if test a then [a] else fromLast test as ++ [a] := by
  induction as with
  | nil => simp [fromLast]
  | cons b as ih =>
      rw [List.cons_append, fromLast, ih, fromLast]
      by_cases ha : test a <;> by_cases has : as.any test <;> simp [ha, has]

@[simp] theorem lastList_nil (replaced : α → Option (List β)) (added : α → List β)
    (base : List β) : lastList replaced added [] base = base := by
  simp [lastList, fromLast]

@[simp] theorem lastList_append_singleton (replaced : α → Option (List β)) (added : α → List β)
    (as : List α) (a : α) (base : List β) :
    lastList replaced added (as ++ [a]) base =
      (replaced a).getD (lastList replaced added as base) ++ added a := by
  cases h : replaced a <;> simp [lastList, fromLast_append_singleton, h]

example : lastList Prod.fst Prod.snd
    [(none, [1]), (some [2], [3]), (none, [4])] [0] = [2, 3, 4] := by decide

/-! ### Kinds -/

namespace PerKind

/-- The values of a function of kinds. -/
def tabulate (f : Kind → α) : PerKind α :=
  ⟨f .primary, f .secondary, f .offside, f .adjacent, f .inconsistent⟩

@[simp] theorem get_tabulate (f : Kind → α) (k : Kind) : (tabulate f).get k = f k := by
  cases k <;> rfl

@[simp] theorem tabulate_get (values : PerKind α) : tabulate values.get = values := rfl

theorem zipWith_tabulate {γ : Type} (f : α → β → γ) (g : Kind → α) (bs : PerKind β) :
    zipWith f (tabulate g) bs = tabulate fun kind => f (g kind) (bs.get kind) := rfl

end PerKind

namespace KindSettings

/-- The settings set colours, in one way or the other. -/
def setsColors (s : KindSettings) : Bool := s.color.isSome || s.colors.isSome

/-- The settings of a kind with others above them, the last of which to set a key decides on it. -/
def decidedBy (below : KindSettings) (above : List KindSettings) : KindSettings where
  enabled := (lastSet? (·.enabled) above).or below.enabled
  mode := (lastSet? (·.mode) above).or below.mode
  color := ((above.filter setsColors).getLastD below).color
  colors := ((above.filter setsColors).getLastD below).colors
  depthLimit := (lastSet? (·.depthLimit) above).or below.depthLimit
  side := (lastSet? (·.side) above).or below.side

@[simp] theorem decidedBy_nil (below : KindSettings) : below.decidedBy [] = below := by
  simp [decidedBy]

@[simp] theorem decidedBy_append_singleton (below s : KindSettings) (above : List KindSettings) :
    below.decidedBy (above ++ [s]) = (below.decidedBy above).overlay s := by
  by_cases hcolors : s.color.isSome ∨ s.colors.isSome <;>
    simp [decidedBy, overlay, setsColors, List.filter_append, hcolors, Option.or_assoc]

end KindSettings

/-! ### Settings -/

namespace Settings

/-- The settings with overrides above them, the last of which to set a key decides on it. There
are no overrides in the result. -/
def decidedBy (s : Settings) (os : List Override) : Settings where
  enabled := (lastSet? (·.enabled) os).getD s.enabled
  brackets := lastList (·.brackets) (·.additionalBrackets) os s.brackets
  scopeBlacklist := lastList (·.scopeBlacklist) (·.additionalScopeBlacklist) os s.scopeBlacklist
  scanRadius := (lastSet? (·.scanRadius) os).getD s.scanRadius
  theme := s.theme
  kinds := .tabulate fun kind => (s.kinds.get kind).decidedBy (os.map (·.kinds.get kind))
  overrides := []

theorem decidedBy_nil (s : Settings) : s.decidedBy [] = { s with overrides := [] } := by
  simp [decidedBy]

theorem decidedBy_append_singleton (s : Settings) (os : List Override) (o : Override) :
    s.decidedBy (os ++ [o]) = (s.decidedBy os).overlay o := by
  simp [decidedBy, overlay, PerKind.zipWith_tabulate, Option.getD_or]

/-- Laying overrides over settings one by one is the same as asking for the last one. -/
theorem foldl_overlay_eq (s : Settings) (os : List Override) :
    { os.foldl overlay s with overrides := [] } = s.decidedBy os := by
  induction os using List.reverseRecOn with
  | nil => exact s.decidedBy_nil.symm
  | append_singleton os o ih =>
      rw [decidedBy_append_singleton, ← ih, List.foldl_append]
      rfl

end Settings

/-! ### Overrides for a syntax -/

/-- The override lists the syntax, capital letters of ASCII being equal to small ones. -/
def Override.AppliesTo (o : Override) : Option String → Prop
  | none => False
  | some syntaxName => ∃ name ∈ o.syntaxes.toList,
      name.toList.map Char.toLower = syntaxName.toList.map Char.toLower

instance (o : Override) (syntaxName : Option String) : Decidable (o.AppliesTo syntaxName) :=
  match syntaxName with
  | none => isFalse id
  | some _ => inferInstanceAs (Decidable (∃ name ∈ _, _ = _))

namespace Settings

theorem applicable_eq (s : Settings) (syntaxName : Option String) :
    s.applicable syntaxName = s.overrides.filter fun o => o.AppliesTo syntaxName := by
  refine List.filter_congr fun o _ => ?_
  rw [Bool.eq_iff_iff, decide_eq_true_iff]
  cases syntaxName with
  | none => exact iff_of_false Bool.false_ne_true id
  | some name => simp [Override.AppliesTo, SyntaxNames.covers]

theorem forSyntax_eq (s : Settings) (syntaxName : Option String) :
    s.forSyntax syntaxName =
      s.decidedBy (s.overrides.filter fun o => o.AppliesTo syntaxName) := by
  rw [forSyntax, foldl_overlay_eq, applicable_eq]

theorem forSyntax_of_overrides_eq_nil {s : Settings} (h : s.overrides = [])
    (syntaxName : Option String) : s.forSyntax syntaxName = s := by
  obtain ⟨enabled, brackets, scopeBlacklist, scanRadius, theme, kinds, overrides⟩ := s
  subst h
  exact (forSyntax_eq _ _).trans (decidedBy_nil _)

/-- **Overrides.** Settings resolve for a syntax as settings without overrides do in which each
key has its last value, from the overrides that list the syntax or else from the settings. Other
overrides do not matter. -/
theorem resolve_decidedBy (s : Settings) (syntaxName other : Option String) :
    (s.decidedBy (s.overrides.filter fun o => o.AppliesTo syntaxName)).overrides = [] ∧
    s.resolve syntaxName =
      (s.decidedBy (s.overrides.filter fun o => o.AppliesTo syntaxName)).resolve other ∧
    s.resolve syntaxName =
      { s with overrides := s.overrides.filter fun o => o.AppliesTo syntaxName }.resolve
        syntaxName := by
  refine ⟨rfl, ?_, ?_⟩
  · rw [resolve, forSyntax_eq, resolve, forSyntax_of_overrides_eq_nil rfl]
  · simp only [resolve, forSyntax_eq, List.filter_filter, Bool.and_self]
    rfl

end Settings
end BracketPaint
