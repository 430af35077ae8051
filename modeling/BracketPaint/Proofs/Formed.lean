import BracketPaint.Highlight
import BracketPaint.Proofs.Merging
import BracketPaint.Proofs.Pairing
import BracketPaint.Proofs.Resolved
/-!
# Scopes as a pass forms them

The scopes that a pass forms, for however many cursors, are **formed** (`Buffer.exists_scopesIn`):
the left bracket ends before the right one starts, neither is empty, and a scope of the mainline has
an outer level. So a formed scope has a region and a role, which is what the later steps ask of it.

That the mainline has outer levels is a fact about each walk, since the step that makes an inner
level zero also counts the outer one. Merging keeps it, because the cursor with the inner level
zero bounds the outer level.
-/

namespace BracketPaint

/-! ### Outer levels of the mainline -/

/-- On the mainline there is an outer level. -/
def NestingIndex.Reached (a : NestingIndex) : Prop := a.inner = 0 → a.outer ≠ .unreachable

theorem Outer.next_ne_unreachable (o : Outer) : o.next ≠ .unreachable := by
  cases o <;> simp [next]

theorem Outer.AtMost.ne_unreachable {o : Outer} {n : Nat} (h : o.AtMost n) : o ≠ .unreachable := by
  rintro rfl
  exact h

theorem reached_outwardIndices (closing : Side) (outer : Outer) (depth : Nat)
    (bs : List Bracket) : ∀ a ∈ outwardIndices closing outer depth bs, a.Reached := by
  intro a ha
  fun_induction outwardIndices closing outer depth bs with
  | case1 => cases ha
  | case2 outer b bs _ ih =>
      rcases List.mem_cons.mp ha with rfl | ha
      · exact fun _ => outer.next_ne_unreachable
      · exact ih ha
  | case3 outer b bs _ depth ih =>
      rcases List.mem_cons.mp ha with rfl | ha
      · intro h
        cases h
      · exact ih ha
  | case4 outer depth b bs _ ih =>
      rcases List.mem_cons.mp ha with rfl | ha
      · intro h
        cases h
      · exact ih ha

theorem reached_nestingIndices (bs : List Bracket) (cursor : Nat) :
    ∀ a ∈ nestingIndices bs cursor, a.Reached := by
  intro a ha
  rw [nestingIndices, List.mem_append, List.mem_reverse] at ha
  rcases ha with ha | ha
  · exact reached_outwardIndices _ _ _ _ a ha
  · exact reached_outwardIndices _ _ _ _ a ha

/-- The list that makes the inner level zero bounds the outer one. -/
theorem LeastAt.reached {lists : List (List NestingIndex)} {i : Nat} {a : NestingIndex}
    (ha : LeastAt lists i a) (h : ∀ l ∈ lists, ∀ x ∈ l, x.Reached) : a.Reached := by
  intro hzero
  obtain ⟨l, hl, x, hx, hinner⟩ := (ha.inner_le_iff 0).mp (Nat.le_of_eq hzero)
  cases houter : x.outer with
  | unreachable =>
      exact absurd houter (h l hl x (List.mem_of_getElem? hx) (Nat.le_zero.mp hinner))
  | level n =>
      have hmost : x.outer.AtMost n := by
        rw [houter]
        exact Nat.le_refl n
      exact ((ha.outer_atMost_iff n).mpr ⟨l, hl, x, hx, hmost⟩).ne_unreachable

/-- The indices of several cursors can be merged, and the mainline keeps its outer levels. -/
theorem exists_reached_mergeIndices (bs : List Bracket) {cursors : List Nat} (hne : cursors ≠ []) :
    ∃ indices, mergeIndices (cursors.map (nestingIndices bs)) = .ok indices ∧
      ∀ a ∈ indices, a.Reached := by
  have hlen : ∀ l ∈ cursors.map (nestingIndices bs), l.length = bs.length := by
    simp
  obtain ⟨indices, hok, -, hleast⟩ :=
    exists_mergeIndices (fun h => hne (List.map_eq_nil_iff.mp h)) hlen
  refine ⟨indices, hok, fun a ha => ?_⟩
  obtain ⟨i, hi⟩ := List.getElem?_of_mem ha
  refine (hleast i a hi).reached fun l hl => ?_
  obtain ⟨c, -, rfl⟩ := List.mem_map.mp hl
  exact reached_nestingIndices bs c

/-! ### Formed scopes -/

namespace Scope

/-- What the later steps rely on in a scope. -/
structure Formed (s : Scope) : Prop where
  reached : s.index.Reached
  left_pos : 0 < s.left.size
  right_pos : 0 < s.right.size
  stop_le : s.left.region.stop ≤ s.right.position

variable {s : Scope}

theorem Formed.exists_expression (h : s.Formed) :
    ∃ r, s.expressionRegion = .ok r ∧ r.start = s.left.position ∧
      r.stop = s.right.region.stop := by
  have hstop := h.stop_le
  have hle : s.left.position ≤ s.right.region.stop := by
    simp only [Bracket.region] at hstop ⊢
    omega
  exact ⟨_, Region.ofBounds_of_le hle, rfl, rfl⟩

theorem Formed.exists_role (h : s.Formed) (supported : List BracketPair) (cursors : List Nat) :
    ∃ role, Role.ofScope supported cursors s = .ok role := by
  unfold Role.ofScope
  by_cases hconsistent : s.IsConsistent supported
  · rw [if_neg (not_not.mpr hconsistent)]
    by_cases hprimary : s.IsPrimary
    · exact ⟨_, if_pos hprimary⟩
    · rw [if_neg hprimary]
      by_cases hsecondary : s.IsSecondary
      · rw [if_pos hsecondary]
        cases houter : s.index.outer with
        | level level => exact ⟨_, rfl⟩
        | unreachable => exact absurd houter (h.reached hsecondary.1)
      · rw [if_neg hsecondary]
        by_cases hadjacent : s.IsAdjacent cursors
        · exact ⟨_, if_pos hadjacent⟩
        · rw [if_neg hadjacent]
          -- With inner level zero, the scope would be primary or secondary.
          have hoffside : s.IsOffside := by
            rw [IsOffside, Nat.pos_iff_ne_zero]
            intro hzero
            refine hsecondary ⟨hzero, fun hlevel => hprimary ?_⟩
            rw [IsPrimary, NestingIndex.primary, ← hlevel, ← hzero]
          exact ⟨_, if_pos hoffside⟩
  · exact ⟨_, if_pos hconsistent⟩

end Scope

theorem formed_of_mem_pairBrackets {bs : List Bracket} {indices : List NestingIndex} {s : Scope}
    (hbs : Located bs) (hreached : ∀ a ∈ indices, a.Reached) (hs : s ∈ pairBrackets bs indices) :
    s.Formed := by
  obtain ⟨i, j, hij, hi, hj, -, -, hindex, -⟩ := exists_places_of_mem_pairBrackets hs
  exact ⟨hreached _ (List.mem_of_getElem? hindex), hbs.size_pos (List.mem_of_getElem? hi),
    hbs.size_pos (List.mem_of_getElem? hj), hbs.stop_le_of_lt hi hj hij⟩

/-! ### Scopes in a region -/

namespace Buffer

variable {b : Buffer} {config : Configuration} {e : ExaminedRegion}

/-- The brackets that a pass finds in a region. -/
abbrev bracketsIn (b : Buffer) (config : Configuration) (r : Region) : List Bracket :=
  b.brackets config.brackets (scopeAllowed config.scopeBlacklist) r

theorem scopesIn_eq {indices : List NestingIndex}
    (h : mergeIndices (e.cursors.map (nestingIndices (b.bracketsIn config e.region))) =
      .ok indices) :
    b.scopesIn config e = .ok (pairBrackets (b.bracketsIn config e.region) indices) := by
  unfold scopesIn
  dsimp only
  rw [h]
  rfl

/-- An examined region has scopes, all of them formed, whose brackets were found there. -/
theorem exists_scopesIn (hconfig : config.Sound) (hne : e.cursors ≠ []) :
    ∃ scopes, b.scopesIn config e = .ok scopes ∧ ∀ s ∈ scopes, s.Formed ∧
      s.left ∈ b.bracketsIn config e.region ∧ s.right ∈ b.bracketsIn config e.region ∧
      s.right.side = .right := by
  obtain ⟨indices, hok, hreached⟩ :=
    exists_reached_mergeIndices (b.bracketsIn config e.region) hne
  have hbs : Located (b.bracketsIn config e.region) := located_brackets hconfig.brackets_ne _
  refine ⟨_, scopesIn_eq hok, fun s hs => ⟨formed_of_mem_pairBrackets hbs hreached hs, ?_⟩⟩
  obtain ⟨i, j, -, hi, hj, -, hside, -⟩ := exists_places_of_mem_pairBrackets hs
  exact ⟨List.mem_of_getElem? hi, List.mem_of_getElem? hj, hside⟩

end Buffer
end BracketPaint
