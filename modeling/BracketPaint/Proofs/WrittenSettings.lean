import BracketPaint.Proofs.Written
import BracketPaint.Settings.Reader
import BracketPaint.Settings.Resolution
import BracketPaint.Settings.Writer
/-!
# Written settings

Settings are read back from the values that they are written as (`ofValue?_toEntries`), field by
field: what is unset stays unset, what is set but empty stays so, and a list that is left out where
it is empty has the empty list for its default. The values come in the order in which a document
shows them.

Not all settings can be written, since the integers of a document have 64 bits. Those whose numbers
can are the ones that *fit*.
-/

namespace BracketPaint

/-! ### Numbers that can be written -/

/-- The colour can be written. -/
def ColorSpec.Fits : ColorSpec → Prop
  | integer n => Toml.fits n
  | text _ => True

/-- The colours of a kind can be written. -/
structure ColorPairSpec.Fits (p : ColorPairSpec) : Prop where
  foreground : ∀ c ∈ p.foreground, c.Fits
  background : ∀ c ∈ p.background, c.Fits

/-- The numbers in the settings of a kind can be written. -/
structure KindSettings.Fits (s : KindSettings) : Prop where
  color : ∀ p ∈ s.color, p.Fits
  colors : ∀ ps ∈ s.colors, ∀ p ∈ ps, p.Fits
  depthLimit : ∀ n ∈ s.depthLimit, n < Text.levelLimit

/-- The base colours can be written. -/
structure ThemeSettings.Fits (t : ThemeSettings) : Prop where
  text : ∀ c ∈ t.text, c.Fits
  background : ∀ c ∈ t.background, c.Fits
  currentLine : ∀ c ∈ t.currentLine, c.Fits

/-- The numbers in an override can be written. -/
structure Override.Fits (o : Override) : Prop where
  scanRadius : ∀ n ∈ o.scanRadius, Toml.fits (n : Nat)
  kinds : ∀ kind, (o.kinds.get kind).Fits

/-- The numbers in settings can be written. -/
structure Settings.Fits (s : Settings) : Prop where
  scanRadius : Toml.fits s.scanRadius
  theme : s.theme.Fits
  kinds : ∀ kind, (s.kinds.get kind).Fits
  overrides : ∀ o ∈ s.overrides, o.Fits

namespace Settings

open Toml

variable {α : Type} {entries : Entries} {keys : List String} {key : String}

/-! ### Sections -/

/-- A section has the values that were written, if its keys come in their order. -/
theorem fields?_asWritten (hkeys : (entries.map Prod.fst).Sublist keys) (hnodup : keys.Nodup)
    (strict : Bool) :
    fields? keys strict (Value.table entries).asWritten =
      some fun key => (entries.lookup key).map Value.asWritten := by
  rw [asWritten_table, fields?, if_neg]
  · exact congrArg some (funext fun key => lookup_asWritten (hnodup.sublist hkeys))
  · rintro ⟨-, entry, hentry, hkey⟩
    obtain ⟨v, hv⟩ := exists_of_mem_entriesAsWritten hentry
    exact hkey (hkeys.subset (List.mem_map.mpr ⟨_, hv, rfl⟩))

/-- A list that is left out where it is empty is like a key that is unset there. -/
theorem entryOfList_eq (key : String) (write : List α → Value) (as : List α) :
    entryOfList key write as = entryOf key write (if as = [] then none else some as) := by
  cases as <;> rfl

theorem lookup_entryOf (write : α → Value) (o : Option α) (other : String) :
    (entryOf key write o).lookup other = if other = key then o.map write else none := by
  cases o with
  | none => simp [entryOf]
  | some a =>
      by_cases h : other = key
      · simp [entryOf, h]
      · rw [entryOf, List.lookup_cons, beq_false_of_ne h, if_neg h]
        rfl

theorem lookup_entryOfList (write : List α → Value) (as : List α) (other : String) :
    (entryOfList key write as).lookup other =
      if other = key then if as = [] then none else some (write as) else none := by
  rw [entryOfList_eq, lookup_entryOf]
  cases as <;> rfl

theorem lookup_append_of_not_mem {later : Entries} (hkeys : (entries.map Prod.fst).Sublist keys)
    (hkey : key ∉ keys) : (entries ++ later).lookup key = later.lookup key := by
  have hnone : entries.lookup key = none := by
    rw [List.lookup_eq_none_iff]
    intro entry hentry
    rw [bne_iff_ne]
    rintro rfl
    exact hkey (hkeys.subset (List.mem_map_of_mem hentry))
  rw [List.lookup_append, hnone, Option.none_or]

theorem keys_entryOf (key : String) (write : α → Value) (o : Option α) :
    ((entryOf key write o).map Prod.fst).Sublist [key] := by
  cases o with
  | none => exact List.nil_sublist _
  | some a => exact List.Sublist.refl _

theorem keys_entryOfList (key : String) (write : List α → Value) (as : List α) :
    ((entryOfList key write as).map Prod.fst).Sublist [key] := by
  rw [entryOfList_eq]
  exact keys_entryOf key write _

theorem keys_cons (key : String) (v : Value) : (List.map Prod.fst [(key, v)]).Sublist [key] :=
  List.Sublist.refl _

theorem keys_append {entries' : Entries} {keys' : List String}
    (h : (entries.map Prod.fst).Sublist keys) (h' : (entries'.map Prod.fst).Sublist keys') :
    ((entries ++ entries').map Prod.fst).Sublist (keys ++ keys') := by
  rw [List.map_append]
  exact h.append h'

/-! ### Values -/

/-- What may be unset is read back if its value is. -/
theorem optional_map {read : Value → Option α} {write : α → Value} {o : Option α}
    (h : ∀ a ∈ o, read (write a).asWritten = some a) :
    optional read (o.map (Value.asWritten ∘ write)) = some o := by
  cases o with
  | none => rfl
  | some a => simp [optional, h a rfl]

theorem withDefault_of_read {read : Value → Option α} {fallback a : α} {v : Value}
    (h : read v = some a) : withDefault fallback read (some v) = some a := by
  rw [← h]
  rfl

/-- A list that is left out where it is empty is read back if it is when it is written. -/
theorem withDefault_nil {read : Value → Option (List α)} (write : List α → Value) {as : List α}
    (h : read (write as).asWritten = some as) :
    withDefault [] read ((if as = [] then none else some (write as)).map Value.asWritten) =
      some as := by
  by_cases hnil : as = []
  · rw [if_pos hnil, hnil]
    rfl
  · rw [if_neg hnil]
    exact h

theorem list?_map {read : Value → Option α} {write : α → Value} {as : List α}
    (h : ∀ a ∈ as, read (write a) = some a) : list? read (.array (as.map write)) = some as := by
  rw [list?]
  induction as with
  | nil => rfl
  | cons a as ih =>
      rw [List.map_cons, List.mapM_cons, h a List.mem_cons_self,
        ih fun b hb => h b (List.mem_cons_of_mem _ hb)]
      rfl

theorem map_eq_map_table {write : α → Value} {entriesOf : α → Entries}
    (h : ∀ a, write a = .table (entriesOf a)) (as : List α) :
    as.map write = (as.map entriesOf).map .table := by
  rw [List.map_map]
  exact List.map_congr_left fun a _ => h a

/-- Tables are read back from an array if each of them is. -/
theorem list?_tables {read : Value → Option α} {write : α → Value} {as : List α}
    (htable : ∀ a, ∃ entries, write a = .table entries)
    (h : ∀ a ∈ as, read (write a).asWritten = some a) :
    list? read (Value.array (as.map write)).asWritten = some as := by
  choose entriesOf hentries using htable
  rw [map_eq_map_table hentries, asWritten_map_table, List.map_map]
  refine list?_map fun a ha => ?_
  rw [Function.comp_apply, ← hentries]
  exact h a ha

theorem asWritten_ofStrings (texts : List String) :
    (ofStrings texts).asWritten = ofStrings texts := by
  refine asWritten_of_isPlain ?_
  cases texts <;> rfl

theorem asWritten_ofPairs (pairs : List BracketPair) :
    (ofPairs pairs).asWritten = ofPairs pairs := by
  refine asWritten_of_isPlain ?_
  cases pairs <;> rfl

theorem list?_ofStrings (texts : List String) :
    list? string? (ofStrings texts).asWritten = some texts := by
  rw [asWritten_ofStrings]
  exact list?_map fun _ _ => rfl

theorem list?_ofPairs (pairs : List BracketPair) :
    list? bracketPair? (ofPairs pairs).asWritten = some pairs := by
  rw [asWritten_ofPairs]
  exact list?_map fun _ _ => rfl

theorem color?_ofColor (c : ColorSpec) : color? (ofColor c).asWritten = some c := by
  cases c <;> rfl

theorem bool?_boolean (b : Bool) : bool? (Value.boolean b).asWritten = some b := rfl

theorem mode?_name (mode : PaintMode) : mode? (Value.string mode.name).asWritten = some mode := by
  cases mode <;> rfl

theorem side?_name (side : AdjacentSide) : side? (Value.string side.name).asWritten = some side := by
  cases side <;> rfl

theorem nat?_ofNat {limit n : Nat} (h : n < limit) : nat? limit (ofNat n).asWritten = some n := by
  rw [ofNat, asWritten_of_isPlain rfl, nat?, if_pos (by omega), Int.toNat_natCast]

theorem lt_wordLimit_of_fits {n : Nat} (h : fits n) : n < Text.wordLimit := by
  rw [fits, Bool.and_eq_true, decide_eq_true_eq, decide_eq_true_eq] at h
  rw [Text.wordLimit]
  omega

theorem fits_of_lt_levelLimit {n : Nat} (h : n < Text.levelLimit) : fits n := by
  rw [Text.levelLimit] at h
  rw [fits, Bool.and_eq_true, decide_eq_true_eq, decide_eq_true_eq]
  omega

theorem syntaxNames?_ofSyntaxNames (names : SyntaxNames) :
    syntaxNames? (ofSyntaxNames names).asWritten = some names := by
  cases names with
  | one name => rfl
  | many names =>
      have hlist := list?_ofStrings names
      rw [asWritten_ofStrings] at hlist
      rw [ofSyntaxNames, asWritten_ofStrings]
      exact congrArg (Option.map SyntaxNames.many) hlist

/-! ### Records -/

theorem keys_ofColorPair (p : ColorPairSpec) (h : ofColorPair p = .table entries) :
    (entries.map Prod.fst).Sublist ["foreground", "background"] := by
  obtain rfl := Value.table.inj h
  exact keys_append (keys_entryOf _ _ _) (keys_entryOf _ _ _)

theorem colorPair?_ofColorPair (p : ColorPairSpec) :
    colorPair? (ofColorPair p).asWritten = some p := by
  rw [ofColorPair, colorPair?, fields?_asWritten (keys_ofColorPair p rfl) (by decide)]
  simp [List.lookup_append, lookup_entryOf, optional_map fun c _ => color?_ofColor c]

theorem list?_ofColorPairs (ps : List ColorPairSpec) :
    list? colorPair? (Value.array (ps.map ofColorPair)).asWritten = some ps :=
  list?_tables (fun _ => ⟨_, rfl⟩) fun p _ => colorPair?_ofColorPair p

theorem keys_ofKind (s : KindSettings) (h : ofKind s = .table entries) :
    (entries.map Prod.fst).Sublist
      ["enabled", "mode", "color", "colors", "depth_limit", "side"] := by
  obtain rfl := Value.table.inj h
  exact keys_append (keys_append (keys_append (keys_append (keys_append
    (keys_entryOf _ _ _) (keys_entryOf _ _ _)) (keys_entryOf _ _ _)) (keys_entryOf _ _ _))
    (keys_entryOf _ _ _)) (keys_entryOf _ _ _)

theorem kind?_ofKind {s : KindSettings} (h : s.Fits) : kind? (ofKind s).asWritten = some s := by
  have hlimit : ∀ n ∈ s.depthLimit, nat? Text.levelLimit (ofNat n).asWritten = some n :=
    fun n hn => nat?_ofNat (h.depthLimit n hn)
  rw [ofKind, kind?, fields?_asWritten (keys_ofKind s rfl) (by decide)]
  simp [List.lookup_append, lookup_entryOf, optional_map fun b _ => bool?_boolean b,
    optional_map fun mode _ => mode?_name mode, optional_map fun p _ => colorPair?_ofColorPair p,
    optional_map fun ps _ => list?_ofColorPairs ps, optional_map hlimit,
    optional_map fun side _ => side?_name side]

theorem keys_ofTheme (t : ThemeSettings) (h : ofTheme t = .table entries) :
    (entries.map Prod.fst).Sublist ["text", "background", "current_line"] := by
  obtain rfl := Value.table.inj h
  exact keys_append (keys_append (keys_entryOf _ _ _) (keys_entryOf _ _ _)) (keys_entryOf _ _ _)

theorem theme?_ofTheme (t : ThemeSettings) : theme? (ofTheme t).asWritten = some t := by
  rw [ofTheme, theme?, fields?_asWritten (keys_ofTheme t rfl) (by decide)]
  simp [List.lookup_append, lookup_entryOf, optional_map fun c _ => color?_ofColor c]

theorem kinds?_ofKinds {kinds : PerKind KindSettings} {field : String → Option Value}
    (hfield : ∀ key ∈ kindKeys, field key = ((ofKinds kinds).lookup key).map Value.asWritten)
    (hfit : ∀ kind, (kinds.get kind).Fits) : kinds? field = some kinds := by
  have hkind : ∀ kind, kind? (ofKind (kinds.get kind)).asWritten = some (kinds.get kind) :=
    fun kind => kind?_ofKind (hfit kind)
  have hprimary : field "primary" = some (ofKind (kinds.get .primary)).asWritten :=
    hfield _ (by decide)
  have hsecondary : field "secondary" = some (ofKind (kinds.get .secondary)).asWritten :=
    hfield _ (by decide)
  have hoffside : field "offside" = some (ofKind (kinds.get .offside)).asWritten :=
    hfield _ (by decide)
  have hadjacent : field "adjacent" = some (ofKind (kinds.get .adjacent)).asWritten :=
    hfield _ (by decide)
  have hinconsistent : field "inconsistent" = some (ofKind (kinds.get .inconsistent)).asWritten :=
    hfield _ (by decide)
  rw [kinds?, hprimary, hsecondary, hoffside, hadjacent, hinconsistent]
  simp only [withDefault, hkind]
  rfl

theorem keys_ofKinds (kinds : PerKind KindSettings) :
    ((ofKinds kinds).map Prod.fst).Sublist kindKeys :=
  List.Sublist.refl _

/-- The keys of an override before those of the kinds. -/
theorem keys_ofOverride (o : Override) (h : ofOverride o = .table (entries ++ ofKinds o.kinds)) :
    (entries.map Prod.fst).Sublist
      ["syntax", "brackets", "additional_brackets", "scope_blacklist",
        "additional_scope_blacklist", "enabled", "scan_radius"] := by
  obtain rfl := List.append_cancel_right (Value.table.inj h)
  exact keys_append (keys_append (keys_append (keys_append (keys_append (keys_append
    (keys_cons _ _) (keys_entryOf _ _ _)) (keys_entryOfList _ _ _)) (keys_entryOf _ _ _))
    (keys_entryOfList _ _ _)) (keys_entryOf _ _ _)) (keys_entryOf _ _ _)

theorem override?_ofOverride {o : Override} (hfit : o.Fits) :
    override? (ofOverride o).asWritten = some o := by
  have hfront := keys_ofOverride o rfl
  have hradius : ∀ n ∈ o.scanRadius, nat? Text.wordLimit (ofNat n).asWritten = some n :=
    fun n hn => nat?_ofNat (lt_wordLimit_of_fits (hfit.scanRadius n hn))
  have hkinds : ∀ key ∈ kindKeys, List.lookup key (_ ++ ofKinds o.kinds) =
      (ofKinds o.kinds).lookup key := fun key hkey =>
    lookup_append_of_not_mem hfront (by revert key; decide)
  rw [ofOverride, override?, fields?_asWritten (keys_append hfront (keys_ofKinds o.kinds)) (by decide)]
  simp only [Option.bind_eq_bind, Option.bind_some]
  rw [kinds?_ofKinds (fun key hkey => congrArg _ (hkinds key hkey)) hfit.kinds]
  simp [List.lookup_cons, List.lookup_append, lookup_entryOf, lookup_entryOfList, ofKinds,
    optional_map fun b _ => bool?_boolean b, optional_map fun ps _ => list?_ofPairs ps,
    optional_map fun texts _ => list?_ofStrings texts, withDefault_nil ofPairs (list?_ofPairs _),
    withDefault_nil ofStrings (list?_ofStrings _),
    optional_map hradius, syntaxNames?_ofSyntaxNames]

theorem list?_ofOverrides {overrides : List Override} (hfit : ∀ o ∈ overrides, o.Fits) :
    list? override? (Value.array (overrides.map ofOverride)).asWritten = some overrides :=
  list?_tables (fun _ => ⟨_, rfl⟩) fun o ho => override?_ofOverride (hfit o ho)

theorem keys_toEntries (s : Settings) :
    (s.toEntries.map Prod.fst).Sublist
      (["enabled", "brackets", "scope_blacklist", "scan_radius", "theme"] ++ kindKeys ++
        ["overrides"]) :=
  keys_append (keys_append (List.Sublist.refl _) (keys_ofKinds s.kinds)) (keys_entryOfList _ _ _)

/-- Settings are read back from the values that they are written as. -/
theorem ofValue?_toEntries {s : Settings} (hfit : s.Fits) :
    ofValue? (Value.table s.toEntries).asWritten = some s := by
  have hfront : (List.map Prod.fst [("enabled", Value.boolean s.enabled),
      ("brackets", ofPairs s.brackets), ("scope_blacklist", ofStrings s.scopeBlacklist),
      ("scan_radius", ofNat s.scanRadius), ("theme", ofTheme s.theme)]).Sublist
      ["enabled", "brackets", "scope_blacklist", "scan_radius", "theme"] := List.Sublist.refl _
  have hkinds : ∀ key ∈ kindKeys, s.toEntries.lookup key = (ofKinds s.kinds).lookup key := by
    intro key hkey
    rw [toEntries, List.append_assoc, lookup_append_of_not_mem hfront (by revert key; decide),
      List.lookup_append, lookup_entryOfList, if_neg (by revert key; decide), Option.or_none]
  have hoverrides : withDefault [] (list? override?)
      ((s.toEntries.lookup "overrides").map Value.asWritten) = some s.overrides := by
    rw [toEntries, lookup_append_of_not_mem (keys_append hfront (keys_ofKinds s.kinds)) (by decide),
      lookup_entryOfList, if_pos rfl]
    exact withDefault_nil (fun overrides => .array (overrides.map ofOverride))
      (list?_ofOverrides hfit.overrides)
  have henabled : withDefault Configuration.default.enabled bool?
      ((s.toEntries.lookup "enabled").map Value.asWritten) = some s.enabled :=
    withDefault_of_read (bool?_boolean s.enabled)
  have hbrackets : withDefault Configuration.default.brackets (list? bracketPair?)
      ((s.toEntries.lookup "brackets").map Value.asWritten) = some s.brackets :=
    withDefault_of_read (list?_ofPairs s.brackets)
  have hblacklist : withDefault Configuration.default.scopeBlacklist (list? string?)
      ((s.toEntries.lookup "scope_blacklist").map Value.asWritten) = some s.scopeBlacklist :=
    withDefault_of_read (list?_ofStrings s.scopeBlacklist)
  have hradius : withDefault Configuration.default.scanRadius (nat? Text.wordLimit)
      ((s.toEntries.lookup "scan_radius").map Value.asWritten) = some s.scanRadius :=
    withDefault_of_read (nat?_ofNat (lt_wordLimit_of_fits hfit.scanRadius))
  have htheme : withDefault {} theme? ((s.toEntries.lookup "theme").map Value.asWritten) =
      some s.theme :=
    withDefault_of_read (theme?_ofTheme s.theme)
  rw [ofValue?, fields?_asWritten (keys_toEntries s) (by decide)]
  simp only [Option.bind_eq_bind, Option.bind_some]
  rw [kinds?_ofKinds (fun key hkey => congrArg _ (hkinds key hkey)) hfit.kinds, henabled, hbrackets,
    hblacklist, hradius, htheme, hoverrides]
  rfl

end Settings
end BracketPaint
