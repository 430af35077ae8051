import BracketPaint.Proofs.Parts
import BracketPaint.Proofs.Winner
/-!
# Strokes of a region

In one examined region a pass goes from scopes to strokes, and no step of it fails
(`Buffer.exists_strokesIn`). The strokes paint the parts of the scopes (`Paints`): none is empty,
they stand one behind the other, they cover what the parts cover, and where parts are nested, a
stroke has the foreground of the innermost part.

A shade is always found, since levels have colours and the base of a span is opaque.
-/

namespace BracketPaint

variable {config : Configuration}

/-! ### Shades -/

/-- The colour of the characters of a role: the one that is configured, or that of plain text. -/
def Palette.IsForeground (colors : Palette) (role : Role) (c : Rgb) : Prop :=
  ∃ pair, colors.ofRole role = .ok pair ∧ c = pair.foreground.solid?.getD colors.text

theorem exists_cycle {colors : List ColorPair} (hne : colors ≠ []) (level : Nat) :
    ∃ pair, cycle colors level = .ok pair := by
  have hlt : (level - 1) % colors.length < colors.length :=
    Nat.mod_lt _ (List.length_pos_iff.mpr hne)
  refine ⟨colors[(level - 1) % colors.length], ?_⟩
  rw [cycle, List.getElem?_eq_getElem hlt]

theorem Configuration.Sound.exists_ofRole (h : config.Sound) (role : Role) :
    ∃ pair, config.colors.ofRole role = .ok pair := by
  cases role with
  | primary => exact ⟨_, rfl⟩
  | secondary level => exact exists_cycle h.secondary_ne level
  | offside level => exact exists_cycle h.offside_ne level
  | adjacent => exact ⟨_, rfl⟩
  | inconsistent => exact ⟨_, rfl⟩

/-- Layers that lie on an opaque one have a background. -/
theorem Configuration.Sound.exists_firstSolid (h : config.Sound) {base : Layer} {c : Rgb}
    (hbase : config.colors.ofLayer base = .ok (.solid c)) (layers : List Layer) :
    ∃ c, config.colors.firstSolid (layers ++ [base]) = .ok c := by
  induction layers with
  | nil =>
      refine ⟨c, ?_⟩
      rw [List.nil_append, Palette.firstSolid, hbase]
      rfl
  | cons layer layers ih =>
      have hlayer : ∃ color, config.colors.ofLayer layer = .ok color := by
        cases layer with
        | background => exact ⟨_, rfl⟩
        | currentLine => exact ⟨_, rfl⟩
        | scope role =>
            obtain ⟨pair, hpair⟩ := h.exists_ofRole role
            exact ⟨pair.background, map_eq_ok_iff.mpr ⟨pair, hpair, rfl⟩⟩
      obtain ⟨color, hcolor⟩ := hlayer
      rw [List.cons_append, Palette.firstSolid, hcolor]
      cases color with
      | solid c => exact ⟨c, rfl⟩
      | transparent => exact ih

theorem Span.exists_ofLayer_base (colors : Palette) (lines : List Region) (span : Span) :
    ∃ c, colors.ofLayer (span.base lines) = .ok (.solid c) := by
  unfold base
  split
  · exact ⟨_, rfl⟩
  · exact ⟨_, rfl⟩

theorem Configuration.Sound.exists_shade (h : config.Sound) {span : Span} {base : Layer}
    {layers : List Layer} {c : Rgb} (hlayers : span.background = base :: layers)
    (hbase : config.colors.ofLayer base = .ok (.solid c)) :
    ∃ shade, span.shade config.colors = .ok shade ∧
      config.colors.IsForeground span.foreground shade.foreground := by
  obtain ⟨pair, hpair⟩ := h.exists_ofRole span.foreground
  obtain ⟨below, hbelow⟩ := h.exists_firstSolid hbase layers.reverse
  rw [Span.shade, hlayers, List.reverse_cons, hbelow, hpair]
  cases hbackground : pair.background with
  | solid c =>
      refine ⟨⟨pair.foreground.solid?.getD config.colors.text, c⟩, ?_, pair, hpair, rfl⟩
      simp only [bind, Except.bind, hbackground]
      rfl
  | transparent =>
      refine ⟨⟨pair.foreground.solid?.getD config.colors.text, below⟩, ?_, pair, hpair, rfl⟩
      simp only [bind, Except.bind, hbackground]
      rfl

/-- A span with its base below it gives a stroke at its place, in the foreground of its role. -/
theorem Configuration.Sound.exists_strokeOf (h : config.Sound) (lines : List Region)
    (span : Span) : ∃ stroke, Buffer.strokeOf config (span.withBase lines) = .ok stroke ∧
      stroke.1 = span.extent ∧ config.colors.IsForeground span.foreground stroke.2.foreground := by
  obtain ⟨c, hbase⟩ := span.exists_ofLayer_base config.colors lines
  have hlayers : (span.withBase lines).background = span.base lines :: span.background := rfl
  obtain ⟨shade, hok, hforeground⟩ := h.exists_shade hlayers hbase
  refine ⟨(span.extent, shade), ?_, rfl, hforeground⟩
  rw [Buffer.strokeOf, hok]
  rfl

/-! ### Strokes -/

/-- The strokes paint the parts, without painting a character twice. -/
structure Paints (config : Configuration) (parts : List (Region × Role)) (strokes : List Stroke) :
    Prop where
  nonempty : ∀ stroke ∈ strokes, ¬ stroke.1.IsEmpty
  apart : strokes.Pairwise fun a b => a.1.stop ≤ b.1.start
  covers : ∀ p, (∃ stroke ∈ strokes, p ∈ stroke.1) ↔ ∃ part ∈ parts, p ∈ part.1
  endsFirst : Laminar (parts.map (·.1)) → ∀ stroke ∈ strokes, ∃ part ∈ parts,
    config.colors.IsForeground part.2 stroke.2.foreground ∧ ∀ p ∈ stroke.1,
      p ∈ part.1 ∧ ∀ other ∈ parts, p ∈ other.1 → part.1.stop ≤ other.1.stop

/-- The strokes of the pieces of spans paint what the spans are for. -/
theorem Configuration.Sound.exists_paints (h : config.Sound) {spans : List Span}
    {parts : List (Region × Role)} (hne : ∀ part ∈ parts, ¬ part.1.IsEmpty)
    (hparts : spans.map (fun span => (span.extent, span.foreground)) = parts)
    (lines : List Region) : ∃ out strokes, splitDisjoint spans lines = .ok out ∧
      (prependBackground lines out).mapM (Buffer.strokeOf config) = .ok strokes ∧
      Paints config parts strokes := by
  subst hparts
  have hne' : ∀ span ∈ spans, ¬ span.extent.IsEmpty := fun span hspan =>
    hne _ (List.mem_map_of_mem hspan)
  obtain ⟨out, hout, hnonempty, hapart, hcovers⟩ := exists_splitDisjoint lines hne'
  have hsteps : ∀ span ∈ prependBackground lines out,
      ∃ stroke, Buffer.strokeOf config span = .ok stroke := by
    intro span hspan
    obtain ⟨piece, -, rfl⟩ := List.mem_map.mp hspan
    obtain ⟨stroke, hok, -⟩ := h.exists_strokeOf lines piece
    exact ⟨stroke, hok⟩
  obtain ⟨strokes, hstrokes⟩ := exists_mapM_eq_ok hsteps
  -- Each piece goes together with one stroke, which has its place and its foreground.
  have hboth : List.Forall₂ (fun piece stroke => stroke.1 = piece.extent ∧
      config.colors.IsForeground piece.foreground stroke.2.foreground) out strokes := by
    rw [mapM_eq_ok_iff, prependBackground, List.forall₂_map_left_iff] at hstrokes
    refine hstrokes.imp fun piece stroke hstroke => ?_
    obtain ⟨stroke', hok, hwhat⟩ := h.exists_strokeOf lines piece
    rw [hok] at hstroke
    cases hstroke
    exact hwhat
  have hextents : strokes.map (·.1) = out.map (·.extent) := by
    rw [← List.forall₂_eq_eq_eq, List.forall₂_map_left_iff, List.forall₂_map_right_iff]
    exact hboth.flip.imp fun stroke piece hwhat => hwhat.1
  refine ⟨out, strokes, hout, hstrokes, ?_, ?_, fun p => ?_, ?_⟩
  · intro stroke hstroke
    obtain ⟨piece, hpiece, hextent, -⟩ := exists_of_mem_right hboth hstroke
    rw [hextent]
    exact hnonempty piece hpiece
  · have hpieces : (out.map (·.extent)).Pairwise fun a b => a.stop ≤ b.start :=
      List.pairwise_map.mpr hapart
    rw [← hextents, List.pairwise_map] at hpieces
    exact hpieces
  · have hcovered := congrArg (fun rs : List Region => ∃ r ∈ rs, p ∈ r) hextents
    simp only [List.mem_map, exists_exists_and_eq_and] at hcovered ⊢
    rw [hcovered, hcovers]
  · intro hlaminar stroke hstroke
    obtain ⟨piece, hpiece, hextent, hforeground⟩ := exists_of_mem_right hboth hstroke
    rw [List.map_map] at hlaminar
    obtain ⟨span, hspan, heq, hfirst⟩ :=
      splitDisjoint_endsFirst hne' hlaminar hout piece hpiece
    refine ⟨_, List.mem_map_of_mem hspan, ?_, fun p hp => ?_⟩
    · rw [heq] at hforeground
      exact hforeground
    · obtain ⟨hmem, hle⟩ := hfirst p (hextent ▸ hp)
      refine ⟨hmem, fun other hother hpo => ?_⟩
      obtain ⟨u, hu, rfl⟩ := List.mem_map.mp hother
      exact hle u hu hpo

namespace Buffer

variable {b : Buffer} {e : ExaminedRegion} {scopes : List Scope}

/-- **No step fails.** The formed scopes of an examined region give strokes that paint their
parts. -/
theorem exists_strokesIn (hconfig : config.Sound) (hscopes : b.scopesIn config e = .ok scopes)
    (hformed : ∀ s ∈ scopes, s.Formed) (lines : List Region) :
    ∃ strokes, b.strokesIn config lines e = .ok strokes ∧
      Paints config (partsOf config e.cursors scopes) strokes := by
  obtain ⟨spans, hspans, hparts⟩ := exists_colorScopes config e.cursors hformed
  have hne : ∀ part ∈ partsOf config e.cursors scopes, ¬ part.1.IsEmpty := by
    intro part hpart
    obtain ⟨s, hs, hpart⟩ := mem_partsOf.mp hpart
    have := (hformed s hs).within_of_mem_parts hpart
    omega
  obtain ⟨out, strokes, hout, hstrokes, hpaints⟩ := hconfig.exists_paints hne hparts lines
  refine ⟨strokes, ?_, hpaints⟩
  have hspansOf : spansOf config lines e.cursors scopes = .ok (prependBackground lines out) := by
    rw [spansOf, bind_eq_ok_iff]
    exact ⟨spans, hspans, bind_eq_ok_iff.mpr ⟨out, hout, rfl⟩⟩
  rw [strokesIn, bind_eq_ok_iff]
  refine ⟨scopes, by rw [hscopes]; rfl, ?_⟩
  rw [bind_eq_ok_iff]
  exact ⟨_, by rw [hspansOf]; rfl, by rw [hstrokes]; rfl⟩

end Buffer
end BracketPaint
