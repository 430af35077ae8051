import BracketPaint.Proofs.ReadIntegers
import BracketPaint.Proofs.WrittenSettings
import BracketPaint.Proofs.WrittenDocuments
/-!
# Saved settings

Settings that were read are written and read back unchanged (`read?_write_of_read?`). Their numbers
come from a document, so that they fit into one again; and the values that settings are written as
are all of a kind that documents can store.
-/

namespace BracketPaint.Settings

open Toml

variable {α : Type} {P : α → Prop} {read : Value → Option α} {v : Value} {v? : Option Value}

/-! ### Settings that were read -/

/-- What is read from a value whose integers have 64 bits has the property. -/
def ReadsFit (read : Value → Option α) (P : α → Prop) : Prop :=
  ∀ v a, v.Fits → read v = some a → P a

theorem mem_of_lookup {entries : Entries} {key : String} (h : entries.lookup key = some v) :
    (key, v) ∈ entries := by
  obtain ⟨before, after, rfl, -⟩ := List.lookup_eq_some_iff.mp h
  exact List.mem_append_cons_self

theorem fits_of_fields? {keys : List String} {strict : Bool} {field : String → Option Value}
    (hv : v.Fits) (h : fields? keys strict v = some field) (key : String) :
    ∀ w ∈ field key, w.Fits := by
  intro w hw
  cases hv with
  | @table entries hentries =>
      rw [fields?] at h
      split at h
      · cases h
      · cases h
        exact hentries _ (mem_of_lookup hw)
  | @array items hitems =>
      cases h
      exact hitems w (List.of_mem_zip (mem_of_lookup hw)).2
  | dateTime written =>
      rw [fields?] at h
      split at h
      · cases h
      · cases h
        cases hw
  | _ => cases h

theorem forall_of_optional (hread : ReadsFit read P) (hv : ∀ w ∈ v?, w.Fits) {o : Option α}
    (h : optional read v? = some o) : ∀ a ∈ o, P a := by
  cases v? with
  | none =>
      cases h
      exact nofun
  | some v =>
      obtain ⟨a, ha, rfl⟩ := Option.map_eq_some_iff.mp h
      rintro _ ⟨⟩
      exact hread v a (hv v rfl) ha

theorem of_withDefault (hread : ReadsFit read P) (hv : ∀ w ∈ v?, w.Fits) {fallback a : α}
    (hfallback : P fallback) (h : withDefault fallback read v? = some a) : P a := by
  cases v? with
  | none => exact Option.some.inj h ▸ hfallback
  | some v => exact hread v a (hv v rfl) h

theorem readsFit_list? (hread : ReadsFit read P) :
    ReadsFit (list? read) fun as => ∀ a ∈ as, P a := by
  intro v as hv h
  cases hv with
  | @array items hitems =>
      rw [list?] at h
      induction items generalizing as with
      | nil =>
          cases h
          exact List.forall_mem_nil _
      | cons w items ih =>
          obtain ⟨hw, hitems⟩ := List.forall_mem_cons.mp hitems
          rw [List.mapM_cons] at h
          obtain ⟨a, ha, h⟩ := Option.bind_eq_some_iff.mp h
          obtain ⟨later, hlater, h⟩ := Option.bind_eq_some_iff.mp h
          cases h
          exact List.forall_mem_cons.mpr ⟨hread w a hw ha, ih later hitems hlater⟩
  | _ => cases h

theorem readsFit_nat? (limit : Nat) : ReadsFit (nat? limit) fun n => n < limit ∧ fits n := by
  intro v n hv h
  cases hv with
  | @integer k hk =>
      rw [nat?] at h
      split at h
      · next hrange =>
          cases h
          rw [Int.toNat_of_nonneg hrange.1]
          exact ⟨by omega, hk⟩
      · cases h
  | _ => cases h

theorem readsFit_color? : ReadsFit color? ColorSpec.Fits := by
  intro v c hv h
  cases hv with
  | string text =>
      cases h
      trivial
  | integer hk =>
      cases h
      exact hk
  | _ => cases h

theorem readsFit_colorPair? : ReadsFit colorPair? ColorPairSpec.Fits := by
  intro v p hv h
  simp only [colorPair?, Option.bind_eq_bind, Option.bind_eq_some_iff] at h
  obtain ⟨field, hfield, foreground, hforeground, background, hbackground, h⟩ := h
  cases h
  have hfits := fits_of_fields? hv hfield
  exact ⟨forall_of_optional readsFit_color? (hfits _) hforeground,
    forall_of_optional readsFit_color? (hfits _) hbackground⟩

theorem readsFit_kind? : ReadsFit kind? KindSettings.Fits := by
  intro v s hv h
  simp only [kind?, Option.bind_eq_bind, Option.bind_eq_some_iff] at h
  obtain ⟨field, hfield, _, -, _, -, color, hcolor, colors, hcolors, limit, hlimit, _, -, h⟩ := h
  cases h
  have hfits := fits_of_fields? hv hfield
  exact {
    color := forall_of_optional readsFit_colorPair? (hfits _) hcolor
    colors := forall_of_optional (readsFit_list? readsFit_colorPair?) (hfits _) hcolors
    depthLimit := fun n hn =>
      (forall_of_optional (readsFit_nat? _) (hfits _) hlimit n hn).1 }

theorem readsFit_theme? : ReadsFit theme? ThemeSettings.Fits := by
  intro v t hv h
  simp only [theme?, Option.bind_eq_bind, Option.bind_eq_some_iff] at h
  obtain ⟨field, hfield, text, htext, background, hbackground, line, hline, h⟩ := h
  cases h
  have hfits := fits_of_fields? hv hfield
  exact ⟨forall_of_optional readsFit_color? (hfits _) htext,
    forall_of_optional readsFit_color? (hfits _) hbackground,
    forall_of_optional readsFit_color? (hfits _) hline⟩

theorem KindSettings.fits_unset : ({} : KindSettings).Fits :=
  ⟨nofun, nofun, nofun⟩

theorem fits_of_kinds? {field : String → Option Value} {kinds : PerKind KindSettings}
    (hfits : ∀ key, ∀ w ∈ field key, w.Fits) (h : kinds? field = some kinds) (kind : Kind) :
    (kinds.get kind).Fits := by
  have hkind : ∀ key s, withDefault {} kind? (field key) = some s → s.Fits :=
    fun key s => of_withDefault readsFit_kind? (hfits key) KindSettings.fits_unset
  simp only [kinds?, Option.bind_eq_bind, Option.bind_eq_some_iff] at h
  obtain ⟨_, hprimary, _, hsecondary, _, hoffside, _, hadjacent, _, hinconsistent, h⟩ := h
  cases h
  cases kind with
  | primary => exact hkind _ _ hprimary
  | secondary => exact hkind _ _ hsecondary
  | offside => exact hkind _ _ hoffside
  | adjacent => exact hkind _ _ hadjacent
  | inconsistent => exact hkind _ _ hinconsistent

theorem readsFit_override? : ReadsFit override? Override.Fits := by
  intro v o hv h
  simp only [override?, Option.bind_eq_bind, Option.bind_eq_some_iff] at h
  obtain ⟨field, hfield, _, -, _, -, _, -, _, -, _, -, _, -, _, -, radius, hradius, _, hkinds, h⟩ := h
  cases h
  have hfits := fits_of_fields? hv hfield
  exact {
    scanRadius := fun n hn => (forall_of_optional (readsFit_nat? _) (hfits _) hradius n hn).2
    kinds := fits_of_kinds? hfits hkinds }

theorem ThemeSettings.fits_unset : ({} : ThemeSettings).Fits :=
  ⟨nofun, nofun, nofun⟩

theorem readsFit_ofValue? : ReadsFit ofValue? Settings.Fits := by
  intro v s hv h
  simp only [ofValue?, Option.bind_eq_bind, Option.bind_eq_some_iff] at h
  obtain ⟨field, hfield, _, -, _, -, _, -, radius, hradius, theme, htheme, _, hkinds,
    overrides, hoverrides, h⟩ := h
  cases h
  have hfits := fits_of_fields? hv hfield
  exact {
    scanRadius := (of_withDefault (readsFit_nat? _) (hfits _) (by decide) hradius).2
    theme := of_withDefault readsFit_theme? (hfits _) ThemeSettings.fits_unset htheme
    kinds := fits_of_kinds? hfits hkinds
    overrides := of_withDefault (readsFit_list? readsFit_override?) (hfits _)
      (List.forall_mem_nil _) hoverrides }

/-! ### Values of settings -/

section Stored

variable {room depth : Nat} {entries : Entries} {keys : List String} {key : String}

theorem forall_entryOf {Q : Value → Prop} {write : α → Value} {o : Option α}
    (h : ∀ a ∈ o, Q (write a)) : ∀ entry ∈ entryOf key write o, Q entry.2 := by
  cases o with
  | none => exact List.forall_mem_nil _
  | some a => exact List.forall_mem_singleton.mpr (h a rfl)

theorem forall_entryOfList {Q : Value → Prop} {write : List α → Value} {as : List α}
    (h : Q (write as)) : ∀ entry ∈ entryOfList key write as, Q entry.2 := by
  rw [entryOfList]
  split
  · exact List.forall_mem_nil _
  · exact List.forall_mem_singleton.mpr h

theorem storable_table_iff :
    (Value.table entries).Storable (room + 1) ↔
      (entries.map Prod.fst).Nodup ∧ ∀ entry ∈ entries, entry.2.Storable room := by
  refine ⟨fun h => ?_, fun ⟨hnodup, h⟩ => .table hnodup h⟩
  cases h with
  | flat _ h => cases h
  | table hnodup h => exact ⟨hnodup, h⟩

theorem storable_table (hkeys : (entries.map Prod.fst).Sublist keys) (hnodup : keys.Nodup)
    (h : ∀ entry ∈ entries, entry.2.Storable room) : (Value.table entries).Storable (room + 1) :=
  .table (hnodup.sublist hkeys) h

/-- An array of tables can be stored if each of the tables can. -/
theorem storable_tables {write : α → Value} {as : List α}
    (htable : ∀ a, ∃ entries, write a = .table entries)
    (h : ∀ a ∈ as, (write a).Storable (room + 1)) :
    (Value.array (as.map write)).Storable (room + 1) := by
  choose entriesOf hentries using htable
  have hstored : ∀ entries ∈ as.map entriesOf, (Value.table entries).Storable (room + 1) := by
    intro entries hmem
    obtain ⟨a, ha, rfl⟩ := List.mem_map.mp hmem
    exact hentries a ▸ h a ha
  rw [map_eq_map_table hentries]
  exact .tables (fun entries hmem => (storable_table_iff.mp (hstored entries hmem)).1)
    fun entries hmem => (storable_table_iff.mp (hstored entries hmem)).2

theorem storable_string (text : String) : (Value.string text).Storable room :=
  .flat room (.string _ text)

theorem storable_boolean (b : Bool) : (Value.boolean b).Storable room :=
  .flat room (.boolean _ b)

theorem storable_ofNat {n : Nat} (h : fits n) : (ofNat n).Storable room :=
  .flat room (.integer _ h)

theorem flat_ofStrings (texts : List String) : (ofStrings texts).Flat (depth + 1) := by
  refine .array fun v hv => ?_
  obtain ⟨text, -, rfl⟩ := List.mem_map.mp hv
  exact .string depth text

theorem flat_ofPairs (pairs : List BracketPair) : (ofPairs pairs).Flat (depth + 2) := by
  refine .array fun v hv => ?_
  obtain ⟨pair, -, rfl⟩ := List.mem_map.mp hv
  exact flat_ofStrings _

theorem storable_ofStrings (texts : List String) : (ofStrings texts).Storable room :=
  .flat room (flat_ofStrings texts)

theorem storable_ofPairs (pairs : List BracketPair) : (ofPairs pairs).Storable room :=
  .flat room (flat_ofPairs pairs)

theorem storable_ofColor {c : ColorSpec} (h : c.Fits) : (ofColor c).Storable room := by
  cases c with
  | integer n => exact .flat room (.integer _ h)
  | text written => exact storable_string written

theorem storable_ofColorPair {p : ColorPairSpec} (h : p.Fits) :
    (ofColorPair p).Storable (room + 1) :=
  storable_table (keys_ofColorPair p rfl) (by decide) <| List.forall_mem_append.mpr
    ⟨forall_entryOf fun c hc => storable_ofColor (h.foreground c hc),
      forall_entryOf fun c hc => storable_ofColor (h.background c hc)⟩

theorem storable_ofKind {s : KindSettings} (h : s.Fits) : (ofKind s).Storable (room + 2) := by
  have hlimit : ∀ n ∈ s.depthLimit, fits n :=
    fun n hn => fits_of_lt_levelLimit (h.depthLimit n hn)
  refine storable_table (keys_ofKind s rfl) (by decide) ?_
  simp only [List.forall_mem_append]
  exact ⟨⟨⟨⟨⟨forall_entryOf fun b _ => storable_boolean b,
    forall_entryOf fun mode _ => storable_string mode.name⟩,
    forall_entryOf fun p hp => storable_ofColorPair (h.color p hp)⟩,
    forall_entryOf fun ps hps => storable_tables (fun _ => ⟨_, rfl⟩) fun p hp =>
      storable_ofColorPair (h.colors ps hps p hp)⟩,
    forall_entryOf fun n hn => storable_ofNat (hlimit n hn)⟩,
    forall_entryOf fun side _ => storable_string side.name⟩

theorem storable_ofTheme {t : ThemeSettings} (h : t.Fits) : (ofTheme t).Storable (room + 1) := by
  refine storable_table (keys_ofTheme t rfl) (by decide) ?_
  simp only [List.forall_mem_append]
  exact ⟨⟨forall_entryOf fun c hc => storable_ofColor (h.text c hc),
    forall_entryOf fun c hc => storable_ofColor (h.background c hc)⟩,
    forall_entryOf fun c hc => storable_ofColor (h.currentLine c hc)⟩

theorem storable_ofKinds {kinds : PerKind KindSettings} (h : ∀ kind, (kinds.get kind).Fits) :
    ∀ entry ∈ ofKinds kinds, entry.2.Storable (room + 2) := by
  simp only [ofKinds, List.forall_mem_cons]
  exact ⟨storable_ofKind (h .primary), storable_ofKind (h .secondary),
    storable_ofKind (h .offside), storable_ofKind (h .adjacent),
    storable_ofKind (h .inconsistent), List.forall_mem_nil _⟩

theorem storable_ofSyntaxNames (names : SyntaxNames) : (ofSyntaxNames names).Storable room := by
  cases names with
  | one name => exact storable_string name
  | many names => exact storable_ofStrings names

theorem storable_ofOverride {o : Override} (h : o.Fits) : (ofOverride o).Storable (room + 3) := by
  refine storable_table (keys_append (keys_ofOverride o rfl) (keys_ofKinds o.kinds))
    (by decide) ?_
  simp only [List.forall_mem_append]
  exact ⟨⟨⟨⟨⟨⟨⟨List.forall_mem_singleton.mpr (storable_ofSyntaxNames o.syntaxes),
    forall_entryOf fun ps _ => storable_ofPairs ps⟩,
    forall_entryOfList (storable_ofPairs _)⟩,
    forall_entryOf fun texts _ => storable_ofStrings texts⟩,
    forall_entryOfList (storable_ofStrings _)⟩,
    forall_entryOf fun b _ => storable_boolean b⟩,
    forall_entryOf fun n hn => storable_ofNat (h.scanRadius n hn)⟩,
    storable_ofKinds h.kinds⟩

/-- All that settings are written as can be stored. -/
theorem storable_toEntries {s : Settings} (h : s.Fits) :
    ∀ entry ∈ s.toEntries, entry.2.Storable (room + 3) := by
  simp only [toEntries, List.forall_mem_append, List.forall_mem_cons]
  exact ⟨⟨⟨storable_boolean s.enabled, storable_ofPairs s.brackets,
    storable_ofStrings s.scopeBlacklist, storable_ofNat h.scanRadius, storable_ofTheme h.theme,
    List.forall_mem_nil _⟩, storable_ofKinds h.kinds⟩,
    forall_entryOfList (storable_tables (fun _ => ⟨_, rfl⟩) fun o ho =>
      storable_ofOverride (h.overrides o ho))⟩

end Stored

/-- Settings whose numbers can be written are read back. -/
theorem Fits.read?_write {s : Settings} (h : s.Fits) : read? s.write = some s := by
  have hnodup : (s.toEntries.map Prod.fst).Nodup :=
    List.Nodup.sublist (keys_toEntries s) (by decide)
  have hentries : Toml.read? s.write = some (entriesAsWritten s.toEntries) :=
    Toml.read?_write hnodup (storable_toEntries h) (by decide : 1 + (0 + 3) < nestingLimit)
  have hvalue := ofValue?_toEntries h
  rw [asWritten_table] at hvalue
  rw [read?, hentries]
  exact hvalue

/-- **Saving settings loses nothing.** Settings that were read from a document are written as one
that is read as the same settings, and as nothing else; so they come to the same configuration in
every syntax. -/
theorem read?_write_of_read? {text : String} {s : Settings} (hread : read? text = some s) :
    read? s.write = some s ∧
      ∀ s', read? s.write = some s' →
        s' = s ∧ ∀ syntaxName, s'.resolve syntaxName = s.resolve syntaxName := by
  obtain ⟨entries, hentries, hvalue⟩ := Option.bind_eq_some_iff.mp hread
  have hback : read? s.write = some s :=
    (readsFit_ofValue? _ s (fits_of_read? hentries) hvalue).read?_write
  refine ⟨hback, fun s' hs' => ?_⟩
  obtain rfl := Option.some.inj (hs'.symm.trans hback)
  exact ⟨rfl, fun _ => rfl⟩

/-- A colour as a number, and an override of two syntaxes that sets a list to the empty one. -/
def twoSyntaxes : Settings where
  theme := { text := some (.integer 0xff) }
  overrides := [{ syntaxes := .many ["c", "c++"], brackets := some [] }]

theorem read?_write_twoSyntaxes :
    read? "theme.text = 0xff\n[[overrides]]\nsyntax = ['c', 'c++']\nbrackets = []\n" =
        some twoSyntaxes ∧
      read? twoSyntaxes.write = some twoSyntaxes := by
  suffices hread : read? _ = some twoSyntaxes from ⟨hread, (read?_write_of_read? hread).1⟩
  decide +kernel

end BracketPaint.Settings
