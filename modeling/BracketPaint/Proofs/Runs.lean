import Mathlib.Data.List.Sort
/-!
# Runs of numbers

An ascending list of numbers is cut between neighbours that are not to be joined (`runsFrom`). Each
part of it is told by its first and its last number. If a number is joined to its successor, and to
nothing behind that, the parts are the runs of consecutive numbers in the list
(`mem_runsFrom_follows_iff`).

The cuts decide where the parts start, and the starts decide the cuts: two ways to cut a list have
the same starts if and only if they agree on all neighbours (`startsFrom_eq_iff`).
-/

namespace BracketPaint

/-- The numbers from the first to the last one make up a whole run of those with the property. -/
structure IsRun (P : Nat → Prop) (first last : Nat) : Prop where
  le : first ≤ last
  holds : ∀ i, first ≤ i → i ≤ last → P i
  not_before : ∀ i, i + 1 = first → ¬ P i
  not_behind : ¬ P (last + 1)

/-- Cuts a list of numbers between neighbours that are not joined, the part before it being given by
its first and its last number. -/
def runsFrom (joins : Nat → Nat → Prop) [DecidableRel joins] (first last : Nat) :
    List Nat → List (Nat × Nat)
  | [] => [(first, last)]
  | i :: is =>
    if joins last i then runsFrom joins first i is
    else (first, last) :: runsFrom joins i i is

/-- The numbers behind the cuts. -/
def startsFrom (joins : Nat → Nat → Prop) [DecidableRel joins] (last : Nat) : List Nat → List Nat
  | [] => []
  | i :: is => if joins last i then startsFrom joins i is else i :: startsFrom joins i is

/-- The second number is the first one or its successor, or stands before it. -/
def Follows (i j : Nat) : Prop := j ≤ i + 1

instance : DecidableRel Follows := fun i j => inferInstanceAs (Decidable (j ≤ i + 1))

section Cuts

variable {joins joins' : Nat → Nat → Prop} [DecidableRel joins] [DecidableRel joins']
variable {first last i : Nat} {is : List Nat}

theorem map_fst_runsFrom (first last : Nat) (is : List Nat) :
    (runsFrom joins first last is).map Prod.fst = first :: startsFrom joins last is := by
  induction is generalizing first last with
  | nil => rfl
  | cons i is ih =>
      rw [runsFrom, startsFrom]
      split
      · exact ih first i
      · rw [List.map_cons, ih]

/-- A part starts with a number of the list. -/
theorem fst_mem_of_mem_runsFrom {r : Nat × Nat} (hr : r ∈ runsFrom joins first last is) :
    r.1 ∈ first :: is := by
  induction is generalizing first last with
  | nil =>
      obtain rfl := List.mem_singleton.mp hr
      exact List.mem_cons_self
  | cons i is ih =>
      rw [runsFrom] at hr
      split at hr
      · rcases List.mem_cons.mp (ih hr) with heq | hmem
        · exact heq ▸ List.mem_cons_self
        · exact List.mem_cons_of_mem _ (List.mem_cons_of_mem _ hmem)
      · rcases List.mem_cons.mp hr with rfl | hr
        · exact List.mem_cons_self
        · exact List.mem_cons_of_mem _ (ih hr)

/-- A part starts behind the number before the cut. -/
theorem lt_of_mem_startsFrom (hrefl : ∀ i, joins i i) (hsorted : (last :: is).Pairwise (· ≤ ·))
    (hi : i ∈ startsFrom joins last is) : last < i := by
  induction is generalizing last with
  | nil => cases hi
  | cons j is ih =>
      obtain ⟨hlast, hrest⟩ := List.pairwise_cons.mp hsorted
      have hle := hlast j List.mem_cons_self
      rw [startsFrom] at hi
      split at hi
      · exact Nat.lt_of_le_of_lt hle (ih hrest hi)
      · rename_i hcut
        rcases List.mem_cons.mp hi with rfl | hi
        · refine Nat.lt_of_le_of_ne hle ?_
          rintro rfl
          exact hcut (hrefl _)
        · exact Nat.lt_of_le_of_lt hle (ih hrest hi)

/-- Each part ends before the next one starts. -/
theorem pairwise_runsFrom (hrefl : ∀ i, joins i i) (hsorted : (last :: is).Pairwise (· ≤ ·)) :
    (runsFrom joins first last is).Pairwise fun r s => r.2 < s.1 := by
  induction is generalizing first last with
  | nil => exact List.pairwise_singleton _ _
  | cons i is ih =>
      obtain ⟨hlast, hrest⟩ := List.pairwise_cons.mp hsorted
      rw [runsFrom]
      split
      · exact ih hrest
      · rename_i hcut
        refine List.pairwise_cons.mpr ⟨fun s hs => ?_, ih hrest⟩
        have hfirst : s.1 ∈ i :: startsFrom joins i is := by
          rw [← map_fst_runsFrom]
          exact List.mem_map_of_mem hs
        have hstarts : s.1 ∈ startsFrom joins last (i :: is) := by
          rw [startsFrom, if_neg hcut]
          exact hfirst
        exact lt_of_mem_startsFrom hrefl hsorted hstarts

/-- Two ways to cut a list have the same starts if and only if they agree on all neighbours. -/
theorem startsFrom_eq_iff (hrefl : ∀ i, joins i i) (hrefl' : ∀ i, joins' i i)
    (hsorted : (last :: is).Pairwise (· ≤ ·)) :
    startsFrom joins last is = startsFrom joins' last is ↔
      (last :: is).IsChain fun i j => joins i j ↔ joins' i j := by
  induction is generalizing last with
  | nil => simp [startsFrom]
  | cons i is ih =>
      have hrest := hsorted.of_cons
      rw [startsFrom, startsFrom, List.isChain_cons_cons, ← ih hrest]
      -- A part that starts with this number is not among those that start behind it.
      by_cases hjoins : joins last i
      · by_cases hjoins' : joins' last i
        · simp [hjoins, hjoins']
        · rw [if_pos hjoins, if_neg hjoins']
          refine iff_of_false (fun heq => ?_) fun h => hjoins' (h.1.mp hjoins)
          have hmem : i ∈ startsFrom joins i is := heq ▸ List.mem_cons_self
          exact Nat.lt_irrefl _ (lt_of_mem_startsFrom hrefl hrest hmem)
      · by_cases hjoins' : joins' last i
        · rw [if_neg hjoins, if_pos hjoins']
          refine iff_of_false (fun heq => ?_) fun h => hjoins (h.1.mpr hjoins')
          have hmem : i ∈ startsFrom joins' i is := heq ▸ List.mem_cons_self
          exact Nat.lt_irrefl _ (lt_of_mem_startsFrom hrefl' hrest hmem)
        · simp [hjoins, hjoins']

theorem runsFrom_eq_of_isChain
    (h : (last :: is).IsChain fun i j => joins i j ↔ joins' i j) :
    runsFrom joins first last is = runsFrom joins' first last is := by
  induction is generalizing first last with
  | nil => rfl
  | cons i is ih =>
      obtain ⟨hcut, hrest⟩ := List.isChain_cons_cons.mp h
      simp only [runsFrom, hcut, ih hrest]

end Cuts

/-! ### Neighbours -/

/-- In an ascending list, the neighbours are the numbers with none of the list between them. -/
theorem isChain_iff_of_pairwise {R : Nat → Nat → Prop} (hrefl : ∀ i, R i i) {is : List Nat}
    (hsorted : is.Pairwise (· ≤ ·)) :
    is.IsChain R ↔
      ∀ i ∈ is, ∀ j ∈ is, i < j → (∀ k ∈ is, ¬ (i < k ∧ k < j)) → R i j := by
  induction is with
  | nil => simp
  | cons i is ih =>
      cases is with
      | nil => simp
      | cons j is =>
          obtain ⟨hi, hrest⟩ := List.pairwise_cons.mp hsorted
          obtain ⟨hj, -⟩ := List.pairwise_cons.mp hrest
          have hij : i ≤ j := hi j List.mem_cons_self
          have hle : ∀ k ∈ j :: is, j ≤ k := List.forall_mem_cons.mpr ⟨Nat.le_refl j, hj⟩
          rw [List.isChain_cons_cons, ih hrest]
          constructor
          · rintro ⟨hR, hall⟩ x hx y hy hlt hnone
            have hnone' : ∀ k ∈ j :: is, ¬ (x < k ∧ k < y) := fun k hk =>
              hnone k (List.mem_cons_of_mem _ hk)
            have hxi : i ≤ x := by
              rcases List.mem_cons.mp hx with rfl | hx
              · exact Nat.le_refl x
              · exact hi x hx
            have hy' : y ∈ j :: is := (List.mem_cons.mp hy).resolve_left (by omega)
            rcases List.mem_cons.mp hx with rfl | hx
            · by_cases hxj : x < j
              · -- The next number of the list is not between the two.
                have hyj : y = j := by
                  have := hle y hy'
                  have := hnone' j List.mem_cons_self
                  omega
                rwa [hyj]
              · obtain rfl : x = j := by omega
                exact hall x List.mem_cons_self y hy' hlt hnone'
            · exact hall x hx y hy' hlt hnone'
          · intro hall
            refine ⟨?_, fun x hx y hy hlt hnone => ?_⟩
            · by_cases hlt : i < j
              · have hmem : j ∈ i :: j :: is := List.mem_cons_of_mem _ List.mem_cons_self
                refine hall i List.mem_cons_self j hmem hlt fun k hk hbetween => ?_
                rcases List.mem_cons.mp hk with rfl | hk
                · omega
                · have := hle k hk
                  omega
              · obtain rfl : i = j := by omega
                exact hrefl i
            · refine hall x (List.mem_cons_of_mem _ hx) y (List.mem_cons_of_mem _ hy) hlt ?_
              intro k hk hbetween
              rcases List.mem_cons.mp hk with rfl | hk
              · have := hle x hx
                omega
              · exact hnone k hk hbetween

/-! ### Consecutive numbers -/

variable {first last f l : Nat} {is : List Nat}

theorem follows_self (i : Nat) : Follows i i := Nat.le_succ i

theorem isRun_congr {P Q : Nat → Prop} (h : ∀ i, P i ↔ Q i) : IsRun P f l ↔ IsRun Q f l := by
  rw [show P = Q from funext fun i => propext (h i)]

/-- Numbers from a first one to a last one, and others with a gap before them: a run of all these is
the first part or a run of the others. -/
theorem isRun_iff_of_gap {P Q : Nat → Prop} (hle : first ≤ last) (hgap : ∀ i, Q i → last + 1 < i)
    (hP : ∀ i, P i ↔ first ≤ i ∧ i ≤ last ∨ Q i) :
    IsRun P f l ↔ f = first ∧ l = last ∨ IsRun Q f l := by
  have hnext : ¬ P (last + 1) := by
    rw [hP]
    rintro (h | h)
    · omega
    · exact Nat.lt_irrefl _ (hgap _ h)
  have hbefore : ∀ i, i + 1 = first → ¬ P i := by
    intro i hi h
    rcases (hP i).mp h with h | h
    · omega
    · have := hgap i h
      omega
  constructor
  · intro h
    have hinside : ∀ i, f ≤ i → i ≤ l → i ≠ last + 1 := fun i hf hl heq =>
      hnext (heq ▸ h.holds i hf hl)
    rcases (hP f).mp (h.holds f (Nat.le_refl f) h.le) with hf | hf
    · -- The run starts in the first part, and goes as far as it does.
      have hstart : f = first := by
        refine Nat.le_antisymm (Nat.le_of_not_lt fun hlt => ?_) hf.1
        exact h.not_before (f - 1) (by omega) ((hP _).mpr (Or.inl ⟨by omega, by omega⟩))
      have hstop : last ≤ l := by
        refine Nat.le_of_not_lt fun hlt => ?_
        have := h.le
        exact h.not_behind ((hP _).mpr (Or.inl ⟨by omega, by omega⟩))
      have := hinside (last + 1) (by omega)
      exact Or.inl ⟨hstart, by omega⟩
    · have hlt := hgap f hf
      refine Or.inr ⟨h.le, fun i hi hi' => ?_, fun i hi hQ => ?_, fun hQ => ?_⟩
      · exact ((hP i).mp (h.holds i hi hi')).resolve_left (by omega)
      · exact h.not_before i hi ((hP i).mpr (Or.inr hQ))
      · exact h.not_behind ((hP _).mpr (Or.inr hQ))
  · rintro (⟨rfl, rfl⟩ | h)
    · exact ⟨hle, fun i hi hi' => (hP i).mpr (Or.inl ⟨hi, hi'⟩), hbefore, hnext⟩
    · have hlt := hgap f (h.holds f (Nat.le_refl f) h.le)
      have hfl := h.le
      refine ⟨hfl, fun i hi hi' => (hP i).mpr (Or.inr (h.holds i hi hi')), fun i hi hPi => ?_, ?_⟩
      · exact h.not_before i hi (((hP i).mp hPi).resolve_left (by omega))
      · intro hPl
        exact h.not_behind (((hP _).mp hPl).resolve_left (by omega))

/-- The runs are told by the property: there is one list of them in order. -/
theorem eq_of_mem_iff_isRun {P : Nat → Prop} {rs ss : List (Nat × Nat)}
    (hrs : rs.Pairwise fun r s => r.2 < s.1) (hmem : ∀ f l, (f, l) ∈ rs ↔ IsRun P f l)
    (hss : ss.Pairwise fun r s => r.2 < s.1) (hmem' : ∀ f l, (f, l) ∈ ss ↔ IsRun P f l) :
    rs = ss := by
  -- No run ends before it starts, so the runs are in the order of their first numbers.
  have hrs' : rs.Pairwise fun r s => r.1 < s.1 :=
    hrs.imp_of_mem fun {r _} hr _ hlt => Nat.lt_of_le_of_lt ((hmem r.1 r.2).mp hr).le hlt
  have hss' : ss.Pairwise fun r s => r.1 < s.1 :=
    hss.imp_of_mem fun {r _} hr _ hlt => Nat.lt_of_le_of_lt ((hmem' r.1 r.2).mp hr).le hlt
  have : Std.Irrefl fun r s : Nat × Nat => r.1 < s.1 := ⟨fun _ => Nat.lt_irrefl _⟩
  have : Std.Antisymm fun r s : Nat × Nat => r.1 < s.1 :=
    ⟨fun _ _ hlt hgt => absurd hlt (Nat.lt_asymm hgt)⟩
  exact hrs'.eq_of_mem_iff hss' fun r => (hmem r.1 r.2).trans (hmem' r.1 r.2).symm

/-- Cut where they do not follow each other, the numbers give their runs. -/
theorem mem_runsFrom_follows_iff (hsorted : (last :: is).Pairwise (· ≤ ·)) (hle : first ≤ last) :
    (f, l) ∈ runsFrom Follows first last is ↔
      IsRun (fun i => first ≤ i ∧ i ≤ last ∨ i ∈ is) f l := by
  induction is generalizing first last with
  | nil =>
      rw [isRun_iff_of_gap (Q := fun _ => False) hle (by simp) (by simp), runsFrom]
      have hnone : ¬ IsRun (fun _ => False) f l := fun h => h.holds f (Nat.le_refl f) h.le
      rw [or_iff_left hnone, List.mem_singleton, Prod.mk.injEq]
  | cons i is ih =>
      obtain ⟨hlast, hrest⟩ := List.pairwise_cons.mp hsorted
      have hi : last ≤ i := hlast i List.mem_cons_self
      rw [runsFrom]
      split
      · rename_i hfollows
        have hnext : i ≤ last + 1 := hfollows
        rw [ih hrest (Nat.le_trans hle hi)]
        refine isRun_congr fun j => ?_
        rw [List.mem_cons, ← or_assoc]
        refine or_congr_left ?_
        omega
      · rename_i hcut
        have hnext : last + 1 < i := Nat.lt_of_not_le hcut
        have hbehind := (List.pairwise_cons.mp hrest).1
        rw [List.mem_cons, Prod.mk.injEq, ih hrest (Nat.le_refl i)]
        refine (isRun_iff_of_gap hle (fun j hj => ?_) fun j => ?_).symm
        · rcases hj with hj | hj
          · omega
          · have := hbehind j hj
            omega
        · rw [List.mem_cons]
          refine or_congr_right (or_congr_left ?_)
          omega

end BracketPaint
