import BracketPaint.Vicinity
/-!
# Examined regions

Every examined region is looked at for some cursor, and one lies behind the other with at least one
character between them, since regions that touch are joined (`pairwise_examinedRegions`). The
cursors being in order, a region that does not touch the one before it lies behind it.
-/

namespace BracketPaint

variable {c radius size : Nat} {cursors : List Nat} {e : ExaminedRegion}
variable {rest : List (Region × Nat)}

/-! ### Cursors in order -/

theorem pairwise_normalizeCursors (cursors : List Nat) :
    (normalizeCursors cursors).Pairwise (· < ·) := by
  have horder : (normalizeCursors cursors).Pairwise fun c d => c ≤ d ∧ c ≠ d := by
    apply pairwise_ascending
    · exact fun _ _ _ => Nat.le_trans
    · exact Nat.le_total
    · exact fun _ _ => Nat.le_antisymm
  exact horder.imp fun h => Nat.lt_of_le_of_ne h.1 h.2

/-! ### Joined regions -/

theorem ExaminedRegion.join_cursors_ne (hne : e.cursors ≠ []) (r : Region) (c : Nat) :
    (e.join r c).cursors ≠ [] := by
  unfold join
  split
  · exact hne
  · exact List.append_ne_nil_of_right_ne_nil _ (List.cons_ne_nil _ _)

theorem cursors_ne_of_mem_mergeFrom (hne : e.cursors ≠ []) :
    ∀ x ∈ mergeFrom e rest, x.cursors ≠ [] := by
  fun_induction mergeFrom e rest with
  | case1 e =>
      intro x hx
      rw [List.mem_singleton.mp hx]
      exact hne
  | case2 e r c rest _ ih => exact ih (e.join_cursors_ne hne r c)
  | case3 e r c rest _ ih =>
      intro x hx
      rcases List.mem_cons.mp hx with rfl | hx
      · exact hne
      · exact ih (List.cons_ne_nil _ _) x hx

theorem cursors_ne_of_mem_examinedRegions (he : e ∈ examinedRegions radius size cursors) :
    e.cursors ≠ [] := by
  unfold examinedRegions mergeAdjacent at he
  split at he
  · cases he
  · exact cursors_ne_of_mem_mergeFrom (List.cons_ne_nil _ _) e he

/-- If the regions to join come in the order of their starts, what is joined lies behind where it
begins, and each region stops before the next one starts. -/
theorem pairwise_mergeFrom (hsorted : rest.Pairwise fun a b => a.1.start ≤ b.1.start)
    (hfirst : ∀ a ∈ rest, e.region.start ≤ a.1.start) :
    (∀ x ∈ mergeFrom e rest, e.region.start ≤ x.region.start) ∧
      (mergeFrom e rest).Pairwise fun a b => a.region.stop < b.region.start := by
  fun_induction mergeFrom e rest with
  | case1 e =>
      refine ⟨fun x hx => ?_, List.pairwise_singleton _ _⟩
      obtain rfl := List.mem_singleton.mp hx
      exact Nat.le_refl _
  | case2 e r c rest _ ih =>
      obtain ⟨-, hrest⟩ := List.pairwise_cons.mp hsorted
      have hstart : (e.join r c).region.start = e.region.start :=
        Nat.min_eq_left (hfirst _ List.mem_cons_self)
      rw [← hstart]
      refine ih hrest fun a ha => ?_
      rw [hstart]
      exact hfirst a (List.mem_cons_of_mem _ ha)
  | case3 e r c rest htouches ih =>
      obtain ⟨hr, hrest⟩ := List.pairwise_cons.mp hsorted
      obtain ⟨hbehind, hapart⟩ := ih hrest hr
      have hle : e.region.start ≤ r.start := hfirst _ List.mem_cons_self
      have hgap : e.region.stop < r.start := by
        have := r.start_le_stop
        exact Nat.lt_of_not_le fun hmeet => htouches ⟨by omega, hmeet⟩
      constructor
      · intro x hx
        rcases List.mem_cons.mp hx with rfl | hx
        · exact Nat.le_refl _
        · exact Nat.le_trans hle (hbehind x hx)
      · exact List.pairwise_cons.mpr
          ⟨fun x hx => Nat.lt_of_lt_of_le hgap (hbehind x hx), hapart⟩

/-- Between two examined regions there is at least one character. -/
theorem pairwise_examinedRegions (hcursors : cursors.Pairwise (· < ·)) :
    (examinedRegions radius size cursors).Pairwise fun a b => a.region.stop < b.region.start := by
  have hsorted : (cursors.map fun c => (vicinity radius size c, c)).Pairwise
      fun a b => a.1.start ≤ b.1.start := by
    refine List.pairwise_map.mpr (hcursors.imp fun {c d} hlt => ?_)
    show min c size - radius ≤ min d size - radius
    omega
  unfold examinedRegions mergeAdjacent
  split
  · exact List.Pairwise.nil
  · rename_i r c rest hcons
    rw [hcons] at hsorted
    obtain ⟨hfirst, hrest⟩ := List.pairwise_cons.mp hsorted
    exact (pairwise_mergeFrom hrest hfirst).2

end BracketPaint
