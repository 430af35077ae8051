import BracketPaint.Proofs.Nested
import BracketPaint.Proofs.Passes
import BracketPaint.Proofs.Plans
import BracketPaint.Proofs.SingleCursor
/-!
# What a single cursor paints

With one cursor, the scopes of a pass are the pairs of a stack, which never cross, and so neither do
their painted parts: of two parts one lies inside the other, away from both of its ends, or one
stops before the other starts (`FromStack.eq_or_nested`).

Hence the plan covers what lies in some part, and an offset has the foreground of the innermost part
around it, the one that starts last (`Buffer.highlight_single`).
-/

namespace BracketPaint

variable {config : Configuration} {cursors : List Nat} {bs : List Bracket} {scopes : List Scope}
variable {s t : Scope} {x y : Region × Role} {p : Nat}

/-! ### Scopes of a stack -/

/-- The scopes are the pairs of a stack. -/
structure FromStack (bs : List Bracket) (scopes : List Scope) : Prop where
  located : Located bs
  formed : ∀ s ∈ scopes, s.Formed
  brackets_eq : scopes.map Scope.brackets = lifoPairs bs

/-- Of two scopes, one lies between the brackets of the other one, or one lies before the other. -/
theorem FromStack.nested_or_apart (h : FromStack bs scopes) (hs : s ∈ scopes) (ht : t ∈ scopes) :
    s = t ∨
      (s.left.region.stop ≤ t.left.position ∧ t.right.region.stop ≤ s.right.position) ∨
      (t.left.region.stop ≤ s.left.position ∧ s.right.region.stop ≤ t.right.position) ∨
      s.right.region.stop ≤ t.left.position ∨ t.right.region.stop ≤ s.left.position := by
  have hmem : ∀ u ∈ scopes, u.brackets ∈ lifoPairs bs := fun u hu =>
    h.brackets_eq ▸ List.mem_map_of_mem hu
  have hboth : ∀ u ∈ scopes, u.left ∈ bs ∧ u.right ∈ bs := by
    intro u hu
    obtain ⟨i, j, -, hi, hj⟩ := (mem_lifoPairs_iff h.located).mp (hmem u hu)
    exact ⟨List.mem_of_getElem? hi, List.mem_of_getElem? hj⟩
  have hnodup : (scopes.map Scope.brackets).Nodup := by
    rw [h.brackets_eq]
    exact h.located.nodup_lifoPairs
  obtain ⟨hsl, hsr⟩ := hboth s hs
  obtain ⟨htl, htr⟩ := hboth t ht
  rcases h.located.nested_or_apart (hmem s hs) (hmem t ht) with heq | hin | hin | hle | hle
  · exact Or.inl (List.inj_on_of_nodup_map hnodup hs ht heq)
  · exact Or.inr (Or.inl ⟨h.located.stop_le_of_position_lt hsl htl hin.1,
      h.located.stop_le_of_position_lt htr hsr hin.2⟩)
  · exact Or.inr (Or.inr (Or.inl ⟨h.located.stop_le_of_position_lt htl hsl hin.1,
      h.located.stop_le_of_position_lt hsr htr hin.2⟩))
  · exact Or.inr (Or.inr (Or.inr (Or.inl hle)))
  · exact Or.inr (Or.inr (Or.inr (Or.inr hle)))

/-! ### Parts that never cross -/

/-- One region lies inside the other one, away from its ends, or one stops before the other
starts. -/
def NestedOrApart (a b : Region) : Prop :=
  (a.start < b.start ∧ b.stop < a.stop) ∨ (b.start < a.start ∧ a.stop < b.stop) ∨
    a.stop ≤ b.start ∨ b.stop ≤ a.start

/-- The two brackets of a scope stand apart. -/
theorem Scope.Formed.eq_or_apart (h : s.Formed) (hx : x ∈ s.parts config cursors)
    (hy : y ∈ s.parts config cursors) : x = y ∨ NestedOrApart x.1 y.1 := by
  have hstop := h.stop_le
  rcases h.parts_cases config cursors with hnil | ⟨r, role, hwhole, -⟩ | ⟨role, hboth⟩
  · rw [hnil] at hx
    cases hx
  · rw [hwhole, List.mem_singleton] at hx hy
    exact Or.inl (hx.trans hy.symm)
  · rw [hboth, List.mem_pair] at hx hy
    rcases hx with rfl | rfl <;> rcases hy with rfl | rfl
    · exact Or.inl rfl
    · exact Or.inr (Or.inr (Or.inr (Or.inl hstop)))
    · exact Or.inr (Or.inr (Or.inr (Or.inr hstop)))
    · exact Or.inl rfl

theorem FromStack.eq_or_nested (h : FromStack bs scopes) (hx : x ∈ partsOf config cursors scopes)
    (hy : y ∈ partsOf config cursors scopes) : x = y ∨ NestedOrApart x.1 y.1 := by
  obtain ⟨s, hs, hx⟩ := mem_partsOf.mp hx
  obtain ⟨t, ht, hy⟩ := mem_partsOf.mp hy
  rcases h.nested_or_apart hs ht with rfl | hcases
  · exact (h.formed s hs).eq_or_apart hx hy
  · -- Every part starts and stops at the ends of brackets, so it is a matter of their places.
    have hs' := (h.formed s hs).bounds
    have ht' := (h.formed t ht).bounds
    have hx' := (h.formed s hs).mem_parts hx
    have hy' := (h.formed t ht).mem_parts hy
    refine Or.inr ?_
    unfold NestedOrApart
    omega

theorem FromStack.laminar (h : FromStack bs scopes) :
    Laminar ((partsOf config cursors scopes).map (·.1)) := by
  intro a ha b hb hlt hinside
  obtain ⟨x, hx, rfl⟩ := List.mem_map.mp ha
  obtain ⟨y, hy, rfl⟩ := List.mem_map.mp hb
  rcases h.eq_or_nested hx hy with rfl | hcases
  · exact absurd hlt (Nat.lt_irrefl _)
  · unfold NestedOrApart at hcases
    omega

/-- Of the parts that cover an offset, the one that stops first starts last. -/
theorem FromStack.start_lt_of_stop_le (h : FromStack bs scopes)
    (hx : x ∈ partsOf config cursors scopes) (hy : y ∈ partsOf config cursors scopes)
    (hpx : p ∈ x.1) (hpy : p ∈ y.1) (hle : x.1.stop ≤ y.1.stop) (hne : y ≠ x) :
    y.1.start < x.1.start := by
  rw [Region.mem_def] at hpx hpy
  rcases h.eq_or_nested hx hy with heq | hcases
  · exact absurd heq.symm hne
  · unfold NestedOrApart at hcases
    omega

namespace Buffer

variable {b : Buffer} {cursor : Nat} {e : ExaminedRegion}

/-- With one cursor, the scopes of a region are the pairs of a stack. -/
theorem exists_fromStack (hconfig : config.Sound) (r : Region) (cursor : Nat) :
    ∃ scopes, b.scopesIn config ⟨r, [cursor]⟩ = .ok scopes ∧
      FromStack (b.bracketsIn config r) scopes := by
  have hbs : Located (b.bracketsIn config r) := located_brackets hconfig.brackets_ne r
  have hscopes : b.scopesIn config ⟨r, [cursor]⟩ = .ok (pairBrackets (b.bracketsIn config r)
      (nestingIndices (b.bracketsIn config r) cursor)) := scopesIn_eq rfl
  refine ⟨_, hscopes, hbs, fun s hs => ?_, ?_⟩
  · exact formed_of_mem_pairBrackets hbs (reached_nestingIndices _ cursor) hs
  · exact (map_brackets_eq_closings hbs cursor).trans (lifoPairs_eq_closings hbs).symm

/-- With one cursor there is one region to look at, and the plan has its strokes. -/
theorem exists_highlight_single (hconfig : config.Sound) (henabled : config.enabled = true)
    (hcursor : cursor ≤ b.size) :
    ∃ scopes strokes, b.highlight config [cursor] = .ok (Plan.ofStrokes strokes) ∧
      b.scopesIn config ⟨vicinity config.scanRadius b.size cursor, [cursor]⟩ = .ok scopes ∧
      FromStack (b.bracketsIn config (vicinity config.scanRadius b.size cursor)) scopes ∧
      Paints config (partsOf config [cursor] scopes) strokes := by
  have hcursors : ∀ c ∈ [cursor], c ≤ b.size := by
    intro c hc
    rw [List.mem_singleton.mp hc]
    exact hcursor
  obtain ⟨strokes, hok, hregions⟩ := exists_highlight hconfig henabled hcursors
  have hexamined : b.examined config [cursor] =
      [⟨vicinity config.scanRadius b.size cursor, [cursor]⟩] := rfl
  rw [hexamined, List.forall₂_cons_left_iff] at hregions
  obtain ⟨l, rest, ⟨scopes, hscopes, hpaints⟩, hrest, rfl⟩ := hregions
  rw [List.forall₂_nil_left_iff.mp hrest, List.flatten_singleton] at hok
  obtain ⟨scopes', hscopes', hstack⟩ := b.exists_fromStack hconfig
    (vicinity config.scanRadius b.size cursor) cursor
  rw [hscopes] at hscopes'
  cases hscopes'
  exact ⟨scopes, l, hok, hscopes, hstack, hpaints⟩

/-- **What a single cursor paints.** The scopes of the region that is looked at are the pairs of a
stack. The plan covers the offsets that lie in their parts, and each of them has the foreground of
the innermost part around it, the one that starts last. -/
theorem highlight_single {s : Settings} {syntaxName : Option String}
    (h : s.resolve syntaxName = .ok config) (henabled : config.enabled = true)
    (hcursor : cursor ≤ b.size) :
    ∃ plan scopes, b.highlight config [cursor] = .ok plan ∧
      b.scopesIn config ⟨vicinity config.scanRadius b.size cursor, [cursor]⟩ = .ok scopes ∧
      scopes.map Scope.brackets =
        lifoPairs (b.bracketsIn config (vicinity config.scanRadius b.size cursor)) ∧
      (∀ p, (∃ stroke ∈ plan.spans, p ∈ stroke.1) ↔
        ∃ part ∈ partsOf config [cursor] scopes, p ∈ part.1) ∧
      ∀ stroke ∈ plan.spans, ∀ p ∈ stroke.1, ∃ part ∈ partsOf config [cursor] scopes,
        p ∈ part.1 ∧ (∀ other ∈ partsOf config [cursor] scopes, p ∈ other.1 → other ≠ part →
          other.1.start < part.1.start) ∧
        config.colors.IsForeground part.2 stroke.2.foreground := by
  obtain ⟨scopes, strokes, hok, hscopes, hstack, hpaints⟩ :=
    exists_highlight_single (Settings.sound_of_resolve h) henabled hcursor
  refine ⟨_, scopes, hok, hscopes, hstack.brackets_eq, fun p => ?_, fun stroke hstroke p hp => ?_⟩
  · rw [← hpaints.covers p]
    simp only [(Plan.spans_perm strokes).mem_iff]
  · obtain ⟨part, hpart, hforeground, hfirst⟩ := hpaints.endsFirst hstack.laminar stroke
      ((Plan.spans_perm strokes).mem_iff.mp hstroke)
    obtain ⟨hmem, hle⟩ := hfirst p hp
    exact ⟨part, hpart, hmem, fun other hother hpo hne =>
      hstack.start_lt_of_stop_le hpart hother hmem hpo (hle other hother hpo) hne, hforeground⟩

/-- Scopes beside the mainline are painted as a whole, too. -/
def wholeOffside : Configuration :=
  { Configuration.default with
    modes := ⟨.expression, .expression, .expression, .brackets, .brackets⟩ }

/-- In `(a[b])`, the cursor standing behind the round bracket, the square brackets lie beside the
mainline and inside the primary scope. The letter between them lies in the parts of both scopes and
has the foreground of the inner one. The other letter has that of the outer one. -/
theorem highlight_single_nested :
    ({ kinds := { PerKind.replicate {} with offside := { mode := some .expression } } } :
        Settings).resolve none = .ok wholeOffside ∧ wholeOffside.enabled = true ∧
      1 ≤ (ofString "(a[b])").size ∧
      ∃ plan, (ofString "(a[b])").highlight wholeOffside [1] = .ok plan ∧
        (∃ stroke ∈ plan.spans, 1 ∈ stroke.1 ∧ stroke.2.foreground = .ofNat 0xFFD700) ∧
        ∃ stroke ∈ plan.spans, 3 ∈ stroke.1 ∧ stroke.2.foreground = .ofNat 0xDA70D6 := by
  have h : ({ kinds := { PerKind.replicate {} with offside := { mode := some .expression } } } :
      Settings).resolve none = .ok wholeOffside := rfl
  have hcursor : 1 ≤ (ofString "(a[b])").size := by decide
  obtain ⟨plan, scopes, hok, hscopes, -, hcovers, hinnermost⟩ := highlight_single h rfl hcursor
  have hparts : partsOf wholeOffside [1] scopes =
      [(⟨0, 6, by decide⟩, .primary), (⟨2, 5, by decide⟩, .offside 1)] := by
    rw [scopesIn_of_partners [.primary, ⟨.unreachable, 1⟩, ⟨.unreachable, 1⟩, .primary]
      (by decide +kernel), Except.ok.injEq] at hscopes
    rw [← hscopes]
    decide +kernel
  rw [hparts] at hcovers hinnermost
  refine ⟨h, rfl, hcursor, plan, hok, ?_, ?_⟩
  · obtain ⟨stroke, hstroke, hp⟩ := (hcovers 1).mpr ⟨_, List.mem_cons_self, by decide⟩
    refine ⟨stroke, hstroke, hp, ?_⟩
    obtain ⟨part, hpart, hmem, -, pair, hpair, hforeground⟩ := hinnermost stroke hstroke 1 hp
    rcases List.mem_pair.mp hpart with rfl | rfl
    · cases hpair
      exact hforeground
    · exact absurd hmem (by decide)
  · obtain ⟨stroke, hstroke, hp⟩ := (hcovers 3).mpr ⟨_, List.mem_cons_self, by decide⟩
    refine ⟨stroke, hstroke, hp, ?_⟩
    obtain ⟨part, hpart, -, hlast, pair, hpair, hforeground⟩ := hinnermost stroke hstroke 3 hp
    rcases List.mem_pair.mp hpart with rfl | rfl
    · exact absurd (hlast (⟨2, 5, by decide⟩, .offside 1) (by simp) (by decide) (by decide))
        (by decide)
    · cases hpair
      exact hforeground

end Buffer
end BracketPaint
