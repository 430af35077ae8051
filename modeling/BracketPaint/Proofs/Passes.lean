import BracketPaint.Proofs.Strokes
import BracketPaint.Proofs.Vicinities
/-!
# When a pass fails

An enabled pass whose cursors lie in the buffer gives a plan, made of strokes that paint the parts
of the scopes of each examined region (`Buffer.exists_highlight`). So the only error that a pass can
end with is that of a cursor behind the end of the buffer (`Buffer.highlight_eq_error_iff`): no
promise between two steps is broken, and the indices of the cursors fit together.
-/

namespace BracketPaint

namespace Buffer

variable {b : Buffer} {config : Configuration} {cursors : List Nat} {e : ExaminedRegion} {p : Nat}

/-- The regions that a pass examines. -/
abbrev examined (b : Buffer) (config : Configuration) (cursors : List Nat) :
    List ExaminedRegion :=
  examinedRegions config.scanRadius b.size (normalizeCursors cursors)

/-- The offset lies in a painted part of a scope of an examined region. -/
def PaintedFor (b : Buffer) (config : Configuration) (e : ExaminedRegion) (p : Nat) : Prop :=
  ∃ scopes, b.scopesIn config e = .ok scopes ∧
    ∃ part ∈ partsOf config e.cursors scopes, p ∈ part.1

/-- The strokes paint the scopes of an examined region. -/
def PaintsRegion (b : Buffer) (config : Configuration) (e : ExaminedRegion)
    (strokes : List Stroke) : Prop :=
  ∃ scopes, b.scopesIn config e = .ok scopes ∧
    Paints config (partsOf config e.cursors scopes) strokes

theorem exists_paintsRegion (hconfig : config.Sound) (hne : e.cursors ≠ [])
    (lines : List Region) :
    ∃ strokes, b.strokesIn config lines e = .ok strokes ∧ b.PaintsRegion config e strokes := by
  obtain ⟨scopes, hscopes, hformed⟩ := b.exists_scopesIn hconfig hne
  obtain ⟨strokes, hok, hpaints⟩ :=
    exists_strokesIn hconfig hscopes (fun s hs => (hformed s hs).1) lines
  exact ⟨strokes, hok, scopes, hscopes, hpaints⟩

/-- The scopes of a region by the rule of the partners. -/
theorem scopesIn_of_partners (indices : List NestingIndex)
    (h : mergeIndices (e.cursors.map (nestingIndices (b.bracketsIn config e.region))) =
      .ok indices) :
    b.scopesIn config e = .ok ((partners [] (indexed (b.bracketsIn config e.region) indices)).map
      IndexedBracket.scope) := by
  rw [scopesIn_eq h, pairBrackets_eq_partners]

/-- What scopes paint that are found by the rule of the partners. -/
theorem paintedFor_of_partners (indices : List NestingIndex)
    (h : mergeIndices (e.cursors.map (nestingIndices (b.bracketsIn config e.region))) =
      .ok indices)
    (hpart : ∃ part ∈ partsOf config e.cursors
      ((partners [] (indexed (b.bracketsIn config e.region) indices)).map IndexedBracket.scope),
      p ∈ part.1) : b.PaintedFor config e p :=
  ⟨_, scopesIn_of_partners indices h, hpart⟩

/-- The strokes of scopes that are found by the rule of the partners. -/
theorem strokesIn_of_partners {lines : List Region} (indices : List NestingIndex)
    (h : mergeIndices (e.cursors.map (nestingIndices (b.bracketsIn config e.region))) =
      .ok indices) :
    b.strokesIn config lines e = ((spansOf config lines e.cursors
      ((partners [] (indexed (b.bracketsIn config e.region) indices)).map
        IndexedBracket.scope)).mapError .fault).bind
      fun spans => (spans.mapM (strokeOf config)).mapError .fault := by
  rw [strokesIn, scopesIn_of_partners indices h]
  rfl

theorem highlight_of_disabled (h : config.enabled = false) (b : Buffer) (cursors : List Nat) :
    b.highlight config cursors = .ok {} := by
  rw [highlight, h]
  rfl

theorem find?_eq_none_of_le (hcursors : ∀ c ∈ cursors, c ≤ b.size) :
    cursors.find? (b.size < ·) = none := by
  rw [List.find?_eq_none]
  intro c hc
  have := hcursors c hc
  simpa using this

theorem highlight_of_find? {c : Nat} (henabled : config.enabled = true)
    (hfind : cursors.find? (b.size < ·) = some c) :
    b.highlight config cursors = .error (.cursorOutOfBounds c b.size) := by
  rw [highlight, if_pos henabled, hfind]

/-- An enabled pass with cursors in the buffer goes through the examined regions. -/
theorem highlight_of_le (henabled : config.enabled = true) (hcursors : ∀ c ∈ cursors, c ≤ b.size) :
    b.highlight config cursors = ((b.examined config cursors).mapM
      (b.strokesIn config (currentLines b (normalizeCursors cursors)))).map
        fun strokes => Plan.ofStrokes strokes.flatten := by
  rw [highlight, if_pos henabled, find?_eq_none_of_le hcursors]
  rfl

/-- What an enabled pass gives is the plan of the strokes of all regions. -/
theorem highlight_eq_ok_iff {plan : Plan} (henabled : config.enabled = true) :
    b.highlight config cursors = .ok plan ↔ (∀ c ∈ cursors, c ≤ b.size) ∧
      ∃ strokes : List (List Stroke),
        List.Forall₂ (fun e l =>
          b.strokesIn config (currentLines b (normalizeCursors cursors)) e = .ok l)
          (b.examined config cursors) strokes ∧
        Plan.ofStrokes strokes.flatten = plan := by
  cases hfind : cursors.find? (b.size < ·) with
  | some c =>
      rw [highlight_of_find? henabled hfind]
      refine iff_of_false (fun h => by cases h) fun ⟨hcursors, _⟩ => ?_
      rw [find?_eq_none_of_le hcursors] at hfind
      cases hfind
  | none =>
      have hcursors : ∀ c ∈ cursors, c ≤ b.size := by
        intro c hc
        simpa using List.find?_eq_none.mp hfind c hc
      rw [highlight_of_le henabled hcursors, map_eq_ok_iff, and_iff_right hcursors]
      simp only [mapM_eq_ok_iff]

/-- An enabled pass with cursors in the buffer gives the plan of the strokes of all regions. -/
theorem exists_highlight (hconfig : config.Sound) (henabled : config.enabled = true)
    (hcursors : ∀ c ∈ cursors, c ≤ b.size) :
    ∃ strokes : List (List Stroke),
      b.highlight config cursors = .ok (Plan.ofStrokes strokes.flatten) ∧
      List.Forall₂ (b.PaintsRegion config) (b.examined config cursors) strokes := by
  have hsteps : ∀ e ∈ b.examined config cursors, ∃ strokes,
      b.strokesIn config (currentLines b (normalizeCursors cursors)) e = .ok strokes ∧
        b.PaintsRegion config e strokes := fun e he =>
    exists_paintsRegion hconfig (cursors_ne_of_mem_examinedRegions he) _
  obtain ⟨strokes, hstrokes⟩ := exists_mapM_eq_ok fun e he =>
    (hsteps e he).imp fun _ h => h.1
  refine ⟨strokes, ?_, ?_⟩
  · rw [highlight_of_le henabled hcursors, hstrokes]
    rfl
  · have hboth := (List.forall₂_and_left _ _).mpr ⟨fun e he => he, mapM_eq_ok_iff.mp hstrokes⟩
    refine hboth.imp fun e strokes hstep => ?_
    obtain ⟨strokes', hok, hpaints⟩ := hsteps e hstep.1
    rw [hstep.2] at hok
    cases hok
    exact hpaints

/-- **A pass fails on bad cursors only.** With a configuration that settings resolve to, the only
error of a pass is that of the first cursor behind the end of the buffer, and there is no error if
the configuration is not enabled or no cursor is bad. -/
theorem highlight_eq_error_iff {s : Settings} {syntaxName : Option String}
    (h : s.resolve syntaxName = .ok config) (b : Buffer) (cursors : List Nat) :
    (∀ err, b.highlight config cursors = .error err ↔ config.enabled = true ∧
      ∃ c, cursors.find? (b.size < ·) = some c ∧ err = .cursorOutOfBounds c b.size) ∧
    ((∃ plan, b.highlight config cursors = .ok plan) ↔
      config.enabled = false ∨ ∀ c ∈ cursors, c ≤ b.size) := by
  have hconfig := Settings.sound_of_resolve h
  cases henabled : config.enabled with
  | false =>
      simp [highlight_of_disabled henabled]
  | true =>
      cases hfind : cursors.find? (b.size < ·) with
      | some c =>
          have hlt : b.size < c := by simpa using List.find?_some hfind
          rw [highlight_of_find? henabled hfind]
          constructor
          · intro err
            constructor
            · intro heq
              cases heq
              exact ⟨rfl, c, rfl, rfl⟩
            · rintro ⟨-, d, hd, rfl⟩
              cases hd
              rfl
          · refine iff_of_false (fun ⟨plan, hok⟩ => by cases hok) ?_
            rintro (hnot | hall)
            · cases hnot
            · exact Nat.not_lt.mpr (hall c (List.mem_of_find?_eq_some hfind)) hlt
      | none =>
          have hcursors : ∀ c ∈ cursors, c ≤ b.size := by
            intro c hc
            simpa using List.find?_eq_none.mp hfind c hc
          obtain ⟨strokes, hok, -⟩ := exists_highlight hconfig henabled hcursors
          rw [hok]
          exact ⟨by simp, iff_of_true ⟨_, rfl⟩ (Or.inr hcursors)⟩

/-- Two cursors behind the end of `(a)`: the first one is the error. -/
theorem highlight_behind_end :
    ({} : Settings).resolve none = .ok .default ∧
      (ofString "(a)").highlight .default [1, 9, 7] = .error (.cursorOutOfBounds 9 3) := by
  have h : ({} : Settings).resolve none = .ok .default := rfl
  exact ⟨h, ((highlight_eq_error_iff h (ofString "(a)") [1, 9, 7]).1 _).mpr
    ⟨rfl, 9, by decide, rfl⟩⟩

end Buffer
end BracketPaint
