import BracketPaint.Proofs.Winner
/-!
# What pieces lie on

The base of a span is chosen for the span as a whole: it is that of the current line if one of the
lines holds all of it. For spans at large this says little about single characters, but for the
pieces of `splitDisjoint` it says all. No line begins or ends inside a piece (`Region.Uncut`), so a
line that holds one character of it holds the others too, and each character lies on the layer that
is its own (`prependBackground_splitDisjoint`).
-/

namespace BracketPaint

variable {spans out : List Span} {lines : List Region} {line r : Region} {p : Nat}

/-- No line begins or ends inside the region. -/
def Region.Uncut (r : Region) (lines : List Region) : Prop :=
  ∀ line ∈ lines, ∀ p ∈ [line.start, line.stop], ¬ (r.start < p ∧ p < r.stop)

/-- A line that holds one character of an uncut region holds them all. -/
theorem Region.Uncut.contains_iff (h : r.Uncut lines) (hline : line ∈ lines) (hp : p ∈ r) :
    line.Contains r ↔ p ∈ line := by
  have hstart := h line hline line.start List.mem_cons_self
  have hstop := h line hline line.stop (List.mem_cons_of_mem _ List.mem_cons_self)
  rw [Region.mem_def] at hp ⊢
  constructor
  · intro hcontains
    omega
  · intro hmem
    constructor <;> omega

/-- The layer at the bottom of a character: that of the current line, if the character lies in one
of the lines that hold cursors, or else the background of the text. -/
def layerUnder (lines : List Region) (p : Nat) : Layer :=
  if ∃ line ∈ lines, p ∈ line then .currentLine else .background

/-- The base of an uncut span is the layer under each of its characters. -/
theorem Span.base_eq_layerUnder {span : Span} (h : span.extent.Uncut lines)
    (hp : p ∈ span.extent) : span.base lines = layerUnder lines p := by
  have hiff : (∃ line ∈ lines, line.Contains span.extent) ↔ ∃ line ∈ lines, p ∈ line :=
    exists_congr fun line => and_congr_right fun hline => h.contains_iff hline hp
  unfold base layerUnder
  by_cases hmem : ∃ line ∈ lines, p ∈ line
  · rw [if_pos hmem, if_pos (hiff.mpr hmem)]
  · rw [if_neg hmem, if_neg (mt hiff.mp hmem)]

/-- No line begins or ends inside a piece. -/
theorem Fragment.Cut.uncut_of_mem
    (hcut : Fragment.Cut ((fragments spans lines).foldr Fragment.insert []) out) :
    ∀ s ∈ out, s.extent.Uncut lines := by
  intro s hs line hline p hp
  obtain ⟨f, hf, hextent, hsource⟩ :=
    (exists_fragment_iff spans lines).mpr (Or.inr ⟨line, hline, p, hp, rfl, rfl⟩)
  have huncut := hcut.uncut s hs f (mem_queue.mpr hf) hsource
  rwa [hextent] at huncut

/-- **What pieces lie on.** Each piece of the spans gets one layer more, at the bottom, and is else
as it was. That layer is the one under each of its characters. -/
theorem prependBackground_splitDisjoint (lines : List Region)
    (hne : ∀ s ∈ spans, ¬ s.extent.IsEmpty) :
    ∃ pieces, splitDisjoint spans lines = .ok pieces ∧
      (∀ piece ∈ pieces, ¬ piece.extent.IsEmpty) ∧
      List.Forall₂ (fun piece based => ∃ layer,
          based = { piece with background := layer :: piece.background } ∧
            ∀ p ∈ piece.extent, layer = layerUnder lines p)
        pieces (prependBackground lines pieces) := by
  obtain ⟨pieces, hok, hcut⟩ := exists_cut lines hne
  refine ⟨pieces, hok, hcut.nonempty, ?_⟩
  rw [prependBackground, List.forall₂_map_right_iff, List.forall₂_same]
  exact fun piece hpiece => ⟨piece.base lines, rfl, fun p hp =>
    Span.base_eq_layerUnder (hcut.uncut_of_mem piece hpiece) hp⟩

/-- Two spans, one in the other, are cut at a line that begins inside both and at an empty one. Each
of the five pieces is based on the layer under its characters. -/
theorem prependBackground_nested :
    (∀ s ∈ ([⟨⟨0, 6, by decide⟩, .primary, []⟩,
      ⟨⟨2, 4, by decide⟩, .adjacent, [.scope .primary]⟩] : List Span), ¬ s.extent.IsEmpty) ∧
    ∃ pieces, splitDisjoint [⟨⟨0, 6, by decide⟩, .primary, []⟩,
        ⟨⟨2, 4, by decide⟩, .adjacent, [.scope .primary]⟩] [⟨3, 9, by decide⟩, ⟨5, 5, by decide⟩] =
          .ok pieces ∧
      (prependBackground [⟨3, 9, by decide⟩, ⟨5, 5, by decide⟩] pieces).map (·.extent) =
        [⟨0, 2, by decide⟩, ⟨2, 3, by decide⟩, ⟨3, 4, by decide⟩, ⟨4, 5, by decide⟩,
          ⟨5, 6, by decide⟩] ∧
      ∀ based ∈ prependBackground [⟨3, 9, by decide⟩, ⟨5, 5, by decide⟩] pieces,
        ∀ p ∈ based.extent, based.background.head? =
          some (if 3 ≤ p ∧ p < 9 then .currentLine else .background) := by
  have hne : ∀ s ∈ ([⟨⟨0, 6, by decide⟩, .primary, []⟩,
      ⟨⟨2, 4, by decide⟩, .adjacent, [.scope .primary]⟩] : List Span), ¬ s.extent.IsEmpty := by
    decide
  obtain ⟨pieces, hok, -, hbased⟩ :=
    prependBackground_splitDisjoint [⟨3, 9, by decide⟩, ⟨5, 5, by decide⟩] hne
  have hpieces : splitDisjoint [⟨⟨0, 6, by decide⟩, .primary, []⟩,
      ⟨⟨2, 4, by decide⟩, .adjacent, [.scope .primary]⟩] [⟨3, 9, by decide⟩, ⟨5, 5, by decide⟩] =
        .ok [⟨⟨0, 2, by decide⟩, .primary, []⟩,
          ⟨⟨2, 3, by decide⟩, .adjacent, [.scope .primary]⟩,
          ⟨⟨3, 4, by decide⟩, .adjacent, [.scope .primary]⟩,
          ⟨⟨4, 5, by decide⟩, .primary, []⟩, ⟨⟨5, 6, by decide⟩, .primary, []⟩] := by
    decide +kernel
  obtain rfl := Except.ok.inj (hok.symm.trans hpieces)
  refine ⟨hne, _, hok, rfl, fun based hmem p hp => ?_⟩
  obtain ⟨piece, -, layer, rfl, hlayer⟩ := exists_of_mem_right hbased hmem
  have hline : (∃ line ∈ ([⟨3, 9, by decide⟩, ⟨5, 5, by decide⟩] : List Region), p ∈ line) ↔
      3 ≤ p ∧ p < 9 := by
    simp only [List.mem_cons, List.not_mem_nil, or_false, exists_eq_or_imp, exists_eq_left,
      Region.mem_def]
    omega
  rw [List.head?_cons, hlayer p hp, layerUnder]
  simp only [hline]

end BracketPaint
