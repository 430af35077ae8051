import BracketPaint.Proofs.Located
import BracketPaint.Proofs.Residue
/-!
# Last in, first out

`lifoPairs` is what a reader with a stack makes of brackets: a left bracket is put on the stack, a
right one closes the left bracket on top, and a right one that finds the stack empty closes nothing.
Only sides count; the texts do not. The pairs are listed in the order of their left brackets.

The stack reader meets a pair when it meets the right bracket. Everything below is about left
brackets in text order instead, so `closings` gives the same pairs from their left ends: each left
bracket looks ahead for the one that closes it (`lifoPairs_eq_closings`). Places tie both to
residues: the brackets at two places are a pair exactly if the stretch between them leaves nothing
over (`mem_closings_iff`).
-/

namespace BracketPaint

section Stack

variable {α : Type} (side : α → Side)

/-- The pairs that a reader makes who has some left brackets open, the innermost being the head. -/
def lifoFrom (opened : List α) : List α → List (α × α)
  | [] => []
  | b :: bs =>
    match side b, opened with
    | .left, _ => lifoFrom (b :: opened) bs
    | .right, [] => lifoFrom [] bs
    | .right, l :: ls => (l, b) :: lifoFrom ls bs

/-- The bracket that closes a left one inside of which `depth` others are open. -/
def closer? (depth : Nat) : List α → Option α
  | [] => none
  | b :: bs =>
    match side b, depth with
    | .left, _ => closer? (depth + 1) bs
    | .right, 0 => some b
    | .right, depth + 1 => closer? depth bs

/-- The brackets up to the one that closes a left one, or all if none does. -/
def inside (depth : Nat) : List α → List α
  | [] => []
  | b :: bs =>
    match side b, depth with
    | .left, _ => b :: inside (depth + 1) bs
    | .right, 0 => []
    | .right, depth + 1 => b :: inside depth bs

/-- The pairs of brackets, each left one looking ahead for its right one. -/
def closings : List α → List (α × α)
  | [] => []
  | b :: bs =>
    if side b = .left then ((closer? side 0 bs).map (b, ·)).toList ++ closings bs
    else closings bs

end Stack

/-- The pairs that brackets make last in, first out, in the order of their left brackets. -/
def lifoPairs (bs : List Bracket) : List (Bracket × Bracket) :=
  (lifoFrom Bracket.side [] bs).mergeSort fun p q => decide (p.1.position ≤ q.1.position)

section Stack

variable {α : Type} {side : α → Side} {b x : α} {bs : List α} {depth : Nat}

/-! ### Reading one bracket -/

theorem lifoFrom_left (h : side b = .left) (opened : List α) :
    lifoFrom side opened (b :: bs) = lifoFrom side (b :: opened) bs := by
  simp [lifoFrom, h]

theorem lifoFrom_right_nil (h : side b = .right) :
    lifoFrom side [] (b :: bs) = lifoFrom side [] bs := by
  simp [lifoFrom, h]

theorem lifoFrom_right_cons (h : side b = .right) (l : α) (ls : List α) :
    lifoFrom side (l :: ls) (b :: bs) = (l, b) :: lifoFrom side ls bs := by
  simp [lifoFrom, h]

theorem closer?_left (h : side b = .left) :
    closer? side depth (b :: bs) = closer? side (depth + 1) bs := by
  simp [closer?, h]

theorem closer?_right_zero (h : side b = .right) : closer? side 0 (b :: bs) = some b := by
  simp [closer?, h]

theorem closer?_right_succ (h : side b = .right) :
    closer? side (depth + 1) (b :: bs) = closer? side depth bs := by
  simp [closer?, h]

theorem inside_left (h : side b = .left) :
    inside side depth (b :: bs) = b :: inside side (depth + 1) bs := by
  simp [inside, h]

theorem inside_right_zero (h : side b = .right) : inside side 0 (b :: bs) = [] := by
  simp [inside, h]

theorem inside_right_succ (h : side b = .right) :
    inside side (depth + 1) (b :: bs) = b :: inside side depth bs := by
  simp [inside, h]

theorem closings_left (h : side b = .left) :
    closings side (b :: bs) = ((closer? side 0 bs).map (b, ·)).toList ++ closings side bs :=
  if_pos h

theorem closings_right (h : side b = .right) : closings side (b :: bs) = closings side bs :=
  if_neg (by rw [h]; decide)

/-! ### The stack and the look ahead -/

/-- The pairs of the brackets on the stack, the depth growing towards its bottom. -/
def closersFrom (side : α → Side) (bs : List α) : (depth : Nat) → List α → List (α × α)
  | _, [] => []
  | depth, l :: ls =>
    ((closer? side depth bs).map (l, ·)).toList ++ closersFrom side bs (depth + 1) ls

theorem closersFrom_left (h : side b = .left) (ls : List α) :
    closersFrom side (b :: bs) depth ls = closersFrom side bs (depth + 1) ls := by
  induction ls generalizing depth with
  | nil => rfl
  | cons l ls ih => rw [closersFrom, closersFrom, closer?_left h, ih]

theorem closersFrom_right (h : side b = .right) (ls : List α) :
    closersFrom side (b :: bs) (depth + 1) ls = closersFrom side bs depth ls := by
  induction ls generalizing depth with
  | nil => rfl
  | cons l ls ih => rw [closersFrom, closersFrom, closer?_right_succ h, ih]

theorem closersFrom_nil (ls : List α) : closersFrom side [] depth ls = [] := by
  induction ls generalizing depth with
  | nil => rfl
  | cons l ls ih =>
      rw [closersFrom, closer?, ih]
      rfl

/-- A reader closes what is on the stack, and besides makes the pairs of the rest. -/
theorem lifoFrom_perm (opened : List α) :
    (lifoFrom side opened bs).Perm (closersFrom side bs 0 opened ++ closings side bs) := by
  induction bs generalizing opened with
  | nil =>
      rw [closersFrom_nil]
      exact List.Perm.refl _
  | cons b bs ih =>
      cases hb : side b with
      | left =>
          -- Put on the stack, `b` is closed as it is when looked ahead from.
          rw [lifoFrom_left hb, closings_left hb, closersFrom_left hb]
          refine (ih (b :: opened)).trans ?_
          rw [closersFrom, ← List.append_assoc]
          exact List.Perm.append_right _ List.perm_append_comm
      | right =>
          rw [closings_right hb]
          cases opened with
          | nil =>
              rw [lifoFrom_right_nil hb]
              exact ih []
          | cons l ls =>
              rw [lifoFrom_right_cons hb, closersFrom, closer?_right_zero hb, closersFrom_right hb]
              exact (ih ls).cons (l, b)

/-- The left brackets of pairs come in text order. -/
theorem closings_fst_sublist : ((closings side bs).map Prod.fst).Sublist bs := by
  induction bs with
  | nil => exact List.Sublist.slnil
  | cons b bs ih =>
      cases hb : side b with
      | left =>
          rw [closings_left hb]
          cases closer? side 0 bs with
          | none => exact ih.cons b
          | some r => exact ih.cons_cons b
      | right =>
          rw [closings_right hb]
          exact ih.cons b

end Stack

/-- Reading with a stack and looking ahead give the same pairs. -/
theorem lifoPairs_eq_closings {bs : List Bracket} (hbs : Located bs) :
    lifoPairs bs = closings Bracket.side bs := by
  have hsorted : (closings Bracket.side bs).Pairwise fun p q => p.1.position < q.1.position := by
    have hsub : ((closings Bracket.side bs).map Prod.fst).Sublist bs := closings_fst_sublist
    have := hbs.pairwise_position.sublist hsub
    rwa [List.pairwise_map] at this
  -- Both lists are ordered by the left brackets, so it is enough that they have the same pairs.
  have hperm : (lifoPairs bs).Perm (closings Bracket.side bs) :=
    (List.mergeSort_perm _ _).trans (lifoFrom_perm [])
  have hlifo : (lifoPairs bs).Pairwise fun p q => p.1.position ≤ q.1.position := by
    refine (List.pairwise_mergeSort ?_ ?_ _).imp ?_
    · intro p q r hpq hqr
      simp only [decide_eq_true_eq] at hpq hqr ⊢
      omega
    · intro p q
      simp only [Bool.or_eq_true, decide_eq_true_eq]
      omega
    · intro p q hpq
      exact of_decide_eq_true hpq
  refine List.Perm.eq_of_pairwise ?_ hlifo (hsorted.imp Nat.le_of_lt) hperm
  -- Two pairs with left brackets at one position are one pair.
  intro p q hp hq hpq hqp
  have hnodup : ((closings Bracket.side bs).map fun p => p.1.position).Nodup :=
    List.pairwise_map.mpr (hsorted.imp Nat.ne_of_lt)
  exact List.inj_on_of_nodup_map hnodup (hperm.mem_iff.mp hp) hq (Nat.le_antisymm hpq hqp)

section Places

variable {α : Type} {side : α → Side} {b x : α} {bs : List α} {depth : Nat}

/-! ### Places -/

/-- A left bracket is closed where all that was opened behind it is closed. -/
theorem closer?_eq_some_iff :
    closer? side depth bs = some x ↔
      ∃ j, bs[j]? = some x ∧ side x = .right ∧ between side bs 0 j = ⟨depth, 0⟩ := by
  induction bs generalizing depth with
  | nil => simp [closer?]
  | cons b bs ih =>
      -- Either the first bracket decides, or it shifts the depth and the rest does.
      have hshift : (∃ j, (b :: bs)[j]? = some x ∧ side x = .right ∧
            between side (b :: bs) 0 j = ⟨depth, 0⟩) ↔
          (b = x ∧ side x = .right ∧ depth = 0) ∨
            ∃ j, bs[j]? = some x ∧ side x = .right ∧
              (side b).residue * between side bs 0 j = ⟨depth, 0⟩ := by
        constructor
        · intro hex
          obtain ⟨j, hj, hx, hres⟩ := hex
          cases j with
          | zero =>
              rw [between_self] at hres
              exact Or.inl ⟨by simpa using hj, hx, (congrArg Residue.unopened hres).symm⟩
          | succ j => exact Or.inr ⟨j, hj, hx, by rwa [between_cons_zero] at hres⟩
        · intro hor
          rcases hor with ⟨rfl, hx, rfl⟩ | ⟨j, hj, hx, hres⟩
          · exact ⟨0, rfl, hx, between_self⟩
          · exact ⟨j + 1, hj, hx, by rwa [between_cons_zero]⟩
      rw [hshift]
      cases hb : side b with
      | left =>
          rw [closer?_left hb, ih]
          constructor
          · intro hex
            obtain ⟨j, hj, hx, hres⟩ := hex
            refine Or.inr ⟨j, hj, hx, ?_⟩
            rw [hres]
            ext <;> simp
          · intro hor
            rcases hor with ⟨rfl, hx, -⟩ | ⟨j, hj, hx, hres⟩
            · rw [hb] at hx
              cases hx
            · refine ⟨j, hj, hx, ?_⟩
              rw [Residue.ext_iff] at hres ⊢
              simp only [Residue.unopened_mul, Residue.unclosed_mul, Side.residue_left] at hres ⊢
              omega
      | right =>
          cases depth with
          | zero =>
              rw [closer?_right_zero hb]
              constructor
              · intro h
                obtain rfl := Option.some.inj h
                exact Or.inl ⟨rfl, hb, rfl⟩
              · intro hor
                rcases hor with ⟨rfl, -, -⟩ | ⟨j, -, -, hres⟩
                · rfl
                · have := congrArg Residue.unopened hres
                  simp at this
          | succ depth =>
              rw [closer?_right_succ hb, ih]
              constructor
              · intro hex
                obtain ⟨j, hj, hx, hres⟩ := hex
                refine Or.inr ⟨j, hj, hx, ?_⟩
                rw [hres]
                ext <;> simp [Nat.add_comm]
              · intro hor
                rcases hor with ⟨-, -, h⟩ | ⟨j, hj, hx, hres⟩
                · cases h
                · refine ⟨j, hj, hx, ?_⟩
                  rw [Residue.ext_iff] at hres ⊢
                  simp only [Residue.unopened_mul, Residue.unclosed_mul, Side.residue_right]
                    at hres ⊢
                  omega

/-- A bracket is inside a left one if that one is still open behind it. -/
theorem mem_inside_iff :
    x ∈ inside side depth bs ↔
      ∃ j, bs[j]? = some x ∧ (between side bs 0 (j + 1)).unopened ≤ depth := by
  induction bs generalizing depth with
  | nil => simp [inside]
  | cons b bs ih =>
      have hshift : (∃ j, (b :: bs)[j]? = some x ∧
            (between side (b :: bs) 0 (j + 1)).unopened ≤ depth) ↔
          (x = b ∧ (side b).residue.unopened ≤ depth) ∨
            ∃ j, bs[j]? = some x ∧
              ((side b).residue * between side bs 0 (j + 1)).unopened ≤ depth := by
        constructor
        · intro hex
          obtain ⟨j, hj, hres⟩ := hex
          rw [between_cons_zero] at hres
          cases j with
          | zero =>
              rw [between_self, mul_one] at hres
              exact Or.inl ⟨by simpa [eq_comm] using hj, hres⟩
          | succ j => exact Or.inr ⟨j, hj, hres⟩
        · intro hor
          rcases hor with ⟨rfl, hres⟩ | ⟨j, hj, hres⟩
          · exact ⟨0, rfl, by rwa [between_cons_zero, between_self, mul_one]⟩
          · exact ⟨j + 1, hj, by rwa [between_cons_zero]⟩
      rw [hshift]
      simp only [Residue.unopened_mul]
      cases hb : side b with
      | left =>
          rw [inside_left hb, List.mem_cons, ih]
          simp only [Side.residue_left]
          refine or_congr (by simp) (exists_congr fun j => and_congr_right fun _ => ?_)
          omega
      | right =>
          simp only [Side.residue_right]
          cases depth with
          | zero =>
              rw [inside_right_zero hb]
              simp
          | succ depth =>
              rw [inside_right_succ hb, List.mem_cons, ih]
              refine or_congr (by simp) (exists_congr fun j => and_congr_right fun _ => ?_)
              omega

/-- Two brackets are a pair if the stretch between them leaves nothing over. -/
theorem mem_closings_iff {l r : α} :
    (l, r) ∈ closings side bs ↔
      ∃ i j, i < j ∧ bs[i]? = some l ∧ bs[j]? = some r ∧ side l = .left ∧ side r = .right ∧
        between side bs (i + 1) j = 1 := by
  induction bs with
  | nil => simp [closings]
  | cons b bs ih =>
      have hrest : (l, r) ∈ closings side bs ↔ ∃ i j, i < j ∧ (b :: bs)[i + 1]? = some l ∧
          (b :: bs)[j + 1]? = some r ∧ side l = .left ∧ side r = .right ∧
          between side (b :: bs) (i + 1 + 1) (j + 1) = 1 := ih
      constructor
      · intro h
        by_cases hb : side b = .left
        · rw [closings_left hb, List.mem_append] at h
          rcases h with h | h
          · rw [Option.mem_toList, Option.map_eq_some_iff] at h
            obtain ⟨x, hx, hp⟩ := h
            obtain ⟨rfl, rfl⟩ := Prod.mk.inj hp
            obtain ⟨j, hj, hside, hres⟩ := closer?_eq_some_iff.mp hx
            exact ⟨0, j + 1, Nat.succ_pos j, rfl, hj, hb, hside, hres⟩
          · obtain ⟨i, j, hij, h⟩ := hrest.mp h
            exact ⟨i + 1, j + 1, by omega, h⟩
        · rw [closings, if_neg hb] at h
          obtain ⟨i, j, hij, h⟩ := hrest.mp h
          exact ⟨i + 1, j + 1, by omega, h⟩
      · intro hex
        obtain ⟨i, j, hij, hl, hr, hleft, hright, hres⟩ := hex
        obtain ⟨j, rfl⟩ : ∃ k, j = k + 1 := ⟨j - 1, by omega⟩
        cases i with
        | zero =>
            obtain rfl : b = l := by simpa using hl
            have : closer? side 0 bs = some r := closer?_eq_some_iff.mpr ⟨j, hr, hright, hres⟩
            rw [closings_left hleft, this]
            exact List.mem_cons_self
        | succ i =>
            have h := hrest.mpr ⟨i, j, by omega, hl, hr, hleft, hright, hres⟩
            by_cases hb : side b = .left
            · rw [closings_left hb]
              exact List.mem_append_right _ h
            · rw [closings, if_neg hb]
              exact h

theorem mem_of_mem_closings {p : α × α} (hp : p ∈ closings side bs) : p.1 ∈ bs ∧ p.2 ∈ bs := by
  obtain ⟨l, r⟩ := p
  obtain ⟨i, j, -, hl, hr, -⟩ := mem_closings_iff.mp hp
  exact ⟨List.mem_of_getElem? hl, List.mem_of_getElem? hr⟩

end Places

section Inside

variable {α : Type} {side : α → Side} {b x : α} {bs : List α} {depth : Nat}

/-! ### What is inside a left bracket -/

theorem inside_eq_self (h : closer? side depth bs = none) : inside side depth bs = bs := by
  induction bs generalizing depth with
  | nil => rfl
  | cons b bs ih =>
      cases hb : side b with
      | left =>
          rw [closer?_left hb] at h
          rw [inside_left hb, ih h]
      | right =>
          cases depth with
          | zero =>
              rw [closer?_right_zero hb] at h
              cases h
          | succ depth =>
              rw [closer?_right_succ hb] at h
              rw [inside_right_succ hb, ih h]

theorem exists_eq_inside_append (h : closer? side depth bs = some x) :
    ∃ rest, bs = inside side depth bs ++ x :: rest := by
  induction bs generalizing depth with
  | nil => cases h
  | cons b bs ih =>
      cases hb : side b with
      | left =>
          rw [closer?_left hb] at h
          obtain ⟨rest, hrest⟩ := ih h
          exact ⟨rest, by rw [inside_left hb, List.cons_append, ← hrest]⟩
      | right =>
          cases depth with
          | zero =>
              rw [closer?_right_zero hb] at h
              obtain rfl := Option.some.inj h
              exact ⟨bs, by rw [inside_right_zero hb, List.nil_append]⟩
          | succ depth =>
              rw [closer?_right_succ hb] at h
              obtain ⟨rest, hrest⟩ := ih h
              exact ⟨rest, by rw [inside_right_succ hb, List.cons_append, ← hrest]⟩

/-- A right bracket inside a left one is a pair with a bracket inside, or closes one of those that
were open there. -/
theorem closes_of_mem_inside (hx : x ∈ inside side depth bs) (hside : side x = .right) :
    (∃ y, (y, x) ∈ closings side bs) ∨ ∃ k < depth, closer? side k bs = some x := by
  induction bs generalizing depth with
  | nil => cases hx
  | cons b bs ih =>
      cases hb : side b with
      | left =>
          rw [inside_left hb] at hx
          rw [closings_left hb]
          rcases List.mem_cons.mp hx with rfl | hx
          · rw [hb] at hside
            cases hside
          · rcases ih hx with ⟨y, hy⟩ | ⟨k, hk, hcloser⟩
            · exact Or.inl ⟨y, List.mem_append_right _ hy⟩
            · cases k with
              | zero => exact Or.inl ⟨b, by rw [hcloser]; exact List.mem_cons_self⟩
              | succ k => exact Or.inr ⟨k, by omega, by rw [closer?_left hb, hcloser]⟩
      | right =>
          rw [closings_right hb]
          cases depth with
          | zero =>
              rw [inside_right_zero hb] at hx
              cases hx
          | succ depth =>
              rw [inside_right_succ hb] at hx
              rcases List.mem_cons.mp hx with rfl | hx
              · exact Or.inr ⟨0, Nat.succ_pos _, closer?_right_zero hb⟩
              · rcases ih hx with hy | ⟨k, hk, hcloser⟩
                · exact Or.inl hy
                · exact Or.inr ⟨k + 1, by omega, by rw [closer?_right_succ hb, hcloser]⟩

end Inside

section Map

variable {α β : Type} {side : α → Side} {f : β → α} {bs : List β}

/-! ### Brackets that carry more than a side -/

theorem closer?_map (depth : Nat) :
    closer? side depth (bs.map f) = (closer? (side ∘ f) depth bs).map f := by
  induction bs generalizing depth with
  | nil => rfl
  | cons b bs ih =>
      rw [List.map_cons]
      cases hb : (side ∘ f) b with
      | left =>
          have hfb : side (f b) = .left := hb
          rw [closer?_left hfb, closer?_left hb, ih]
      | right =>
          have hfb : side (f b) = .right := hb
          cases depth with
          | zero => rw [closer?_right_zero hfb, closer?_right_zero hb, Option.map_some]
          | succ depth => rw [closer?_right_succ hfb, closer?_right_succ hb, ih]

theorem closings_map :
    closings side (bs.map f) = (closings (side ∘ f) bs).map (Prod.map f f) := by
  induction bs with
  | nil => rfl
  | cons b bs ih =>
      rw [List.map_cons]
      cases hb : (side ∘ f) b with
      | left =>
          have hfb : side (f b) = .left := hb
          rw [closings_left hfb, closings_left hb, List.map_append, ih, closer?_map]
          cases closer? (side ∘ f) 0 bs <;> rfl
      | right =>
          have hfb : side (f b) = .right := hb
          rw [closings_right hfb, closings_right hb, ih]

end Map

/-! ### Places of brackets -/

/-- The brackets at two places are a pair: what stands between them leaves nothing over. -/
structure MatchedAt (bs : List Bracket) (i j : Nat) : Prop where
  /-- The left bracket comes first. -/
  lt : i < j
  left : (bs[i]?).map Bracket.side = some .left
  right : (bs[j]?).map Bracket.side = some .right
  between_eq : between Bracket.side bs (i + 1) j = 1

/-- The right bracket at a place stands inside the left one at another place: that one is still
open behind it. -/
structure InsideAt (bs : List Bracket) (i j : Nat) : Prop where
  /-- The left bracket comes first. -/
  lt : i < j
  left : (bs[i]?).map Bracket.side = some .left
  right : (bs[j]?).map Bracket.side = some .right
  unopened_eq : (between Bracket.side bs (i + 1) (j + 1)).unopened = 0

section Located

variable {bs : List Bracket} {i j : Nat}

/-- The pairs of located brackets are the pairs of places that match. -/
theorem mem_lifoPairs_iff (hbs : Located bs) {p : Bracket × Bracket} :
    p ∈ lifoPairs bs ↔ ∃ i j, MatchedAt bs i j ∧ bs[i]? = some p.1 ∧ bs[j]? = some p.2 := by
  obtain ⟨l, r⟩ := p
  rw [lifoPairs_eq_closings hbs, mem_closings_iff]
  constructor
  · intro hex
    obtain ⟨i, j, hij, hl, hr, hleft, hright, hone⟩ := hex
    exact ⟨i, j, ⟨hij, by rw [hl, Option.map_some, hleft], by rw [hr, Option.map_some, hright],
      hone⟩, hl, hr⟩
  · intro hex
    obtain ⟨i, j, h, hl, hr⟩ := hex
    have hleft := h.left
    have hright := h.right
    rw [hl, Option.map_some] at hleft
    rw [hr, Option.map_some] at hright
    exact ⟨i, j, h.lt, hl, hr, Option.some.inj hleft, Option.some.inj hright, h.between_eq⟩

end Located
end BracketPaint
