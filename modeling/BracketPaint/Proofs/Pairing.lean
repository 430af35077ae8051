import BracketPaint.Proofs.Greedy
/-!
# When scopes are the pairs of a stack

Located brackets are told from each other, so what the rule does to brackets with indices and places
can be said of brackets alone. `pairs_eq_lifoPairs_iff` is what all later statements about scopes
rest on: if the two brackets of each pair have the same index, then the scopes are the pairs of a
stack exactly if no left bracket has the index of a right bracket that stands inside it.
-/

namespace BracketPaint

open IndexedBracket

/-- The two brackets of a scope. -/
def Scope.brackets (s : Scope) : Bracket × Bracket := (s.left, s.right)

/-- The two brackets of each pair have the same index. -/
def PairsAgree (bs : List Bracket) (indices : List NestingIndex) : Prop :=
  ∀ i j, MatchedAt bs i j → indices[i]? = indices[j]?

/-- No left bracket has the index of a right bracket that stands inside it. -/
def KeptApart (bs : List Bracket) (indices : List NestingIndex) : Prop :=
  ∀ i j, InsideAt bs i j → indices[i]? ≠ indices[j]?

section Indexed

variable {bs : List Bracket} {indices : List NestingIndex} {e : IndexedBracket} {i : Nat}

theorem getElem?_indexed :
    (indexed bs indices)[i]? = some e ↔
      bs[i]? = some e.bracket ∧ indices[i]? = some e.index ∧ e.place = i := by
  obtain ⟨b, index, place⟩ := e
  unfold indexed
  rw [List.getElem?_map, Option.map_eq_some_iff]
  constructor
  · intro hex
    obtain ⟨⟨⟨b', index'⟩, place'⟩, h, heq⟩ := hex
    rw [List.getElem?_zipIdx, Option.map_eq_some_iff] at h
    obtain ⟨p, hp, hplace⟩ := h
    obtain ⟨hb, hindex⟩ := List.getElem?_zip_eq_some.mp hp
    simp only [IndexedBracket.mk.injEq] at heq
    simp only [Prod.mk.injEq, Nat.zero_add] at hplace
    obtain ⟨rfl, rfl⟩ := hplace
    obtain ⟨rfl, rfl, rfl⟩ := heq
    exact ⟨hb, hindex, rfl⟩
  · intro hex
    obtain ⟨hb, hindex, rfl⟩ := hex
    have hzip : (bs.zip indices)[place]? = some (b, index) :=
      List.getElem?_zip_eq_some.mpr ⟨hb, hindex⟩
    refine ⟨((b, index), place), ?_, rfl⟩
    rw [List.getElem?_zipIdx, hzip]
    simp

theorem pairwise_place_indexed :
    (indexed bs indices).Pairwise fun x y => x.place < y.place := by
  rw [List.pairwise_iff_getElem]
  intro i j hi hj hij
  have hx := (getElem?_indexed.mp (List.getElem?_eq_getElem hi)).2.2
  have hy := (getElem?_indexed.mp (List.getElem?_eq_getElem hj)).2.2
  omega

variable (hlen : indices.length = bs.length)
include hlen

theorem map_bracket_indexed : (indexed bs indices).map bracket = bs := by
  have hfst : (indexed bs indices).map bracket =
      ((bs.zip indices).zipIdx.map Prod.fst).map Prod.fst := by
    rw [indexed, List.map_map, List.map_map]
    rfl
  rw [hfst, List.zipIdx_map_fst, List.map_fst_zip (Nat.le_of_eq hlen.symm)]

/-- The pairs of brackets that carry indices are the pairs of the brackets. -/
theorem closings_indexed :
    (closings side (indexed bs indices)).map (Prod.map bracket bracket) =
      closings Bracket.side bs := by
  conv_rhs => rw [← map_bracket_indexed hlen]
  exact closings_map.symm

theorem between_indexed (i j : Nat) :
    between side (indexed bs indices) i j = between Bracket.side bs i j := by
  conv_rhs => rw [← map_bracket_indexed hlen]
  exact (between_map bracket _).symm

/-- A place of the indices is a place of the brackets that carry them. -/
theorem exists_indexed {b : Bracket} (hb : bs[i]? = some b) :
    ∃ e, (indexed bs indices)[i]? = some e ∧ e.bracket = b ∧ indices[i]? = some e.index := by
  have hi : i < indices.length := by
    rw [hlen]
    exact (List.getElem?_eq_some_iff.mp hb).1
  refine ⟨⟨b, indices[i], i⟩, getElem?_indexed.mpr ⟨hb, ?_, rfl⟩, rfl, ?_⟩ <;>
    exact List.getElem?_eq_getElem hi

/-- No bracket can be mistaken exactly if the indices are kept apart. -/
theorem unmistakable_indexed : Unmistakable (indexed bs indices) ↔ KeptApart bs indices := by
  rw [unmistakable_iff]
  constructor
  · intro h i j hin heq
    obtain ⟨b, hb, hleft⟩ := Option.map_eq_some_iff.mp hin.left
    obtain ⟨x, hx, hright⟩ := Option.map_eq_some_iff.mp hin.right
    obtain ⟨e, he, rfl, hie⟩ := exists_indexed hlen hb
    obtain ⟨f, hf, rfl, hif⟩ := exists_indexed hlen hx
    refine h i j e f hin.lt he hf hleft hright ?_ ?_
    · rw [between_indexed hlen]
      exact hin.unopened_eq
    · rw [hie, hif] at heq
      exact (Option.some.inj heq).symm
  · intro h i j e f hij he hf hleft hright hopen heq
    obtain ⟨hb, hie, -⟩ := getElem?_indexed.mp he
    obtain ⟨hx, hif, -⟩ := getElem?_indexed.mp hf
    rw [between_indexed hlen] at hopen
    refine h i j ⟨hij, ?_, ?_, hopen⟩ ?_
    · rw [hb, Option.map_some]
      exact congrArg some hleft
    · rw [hx, Option.map_some]
      exact congrArg some hright
    · rw [hie, hif, heq]

/-- The two brackets of each pair carry the same index exactly if the indices agree. -/
theorem index_eq_of_pairsAgree (hagree : PairsAgree bs indices)
    {p : IndexedBracket × IndexedBracket} (hp : p ∈ closings side (indexed bs indices)) :
    p.2.index = p.1.index := by
  obtain ⟨i, j, hij, hl, hr, hleft, hright, hone⟩ := mem_closings_iff.mp hp
  obtain ⟨hb, hil, -⟩ := getElem?_indexed.mp hl
  obtain ⟨hx, hir, -⟩ := getElem?_indexed.mp hr
  rw [between_indexed hlen] at hone
  have hmatched : MatchedAt bs i j := by
    refine ⟨hij, ?_, ?_, hone⟩
    · rw [hb, Option.map_some]
      exact congrArg some hleft
    · rw [hx, Option.map_some]
      exact congrArg some hright
  have := hagree i j hmatched
  rw [hil, hir] at this
  exact (Option.some.inj this).symm

end Indexed

/-- The scopes are what the rule gives. -/
theorem pairBrackets_eq_partners (bs : List Bracket) (indices : List NestingIndex) :
    pairBrackets bs indices = (partners [] (indexed bs indices)).map scope :=
  pairWith_eq_partners pairwise_place_indexed (Queues.serves_ofList _)

/-- A scope is made of a left bracket and a right one behind it that have its index. -/
theorem exists_places_of_mem_pairBrackets {bs : List Bracket} {indices : List NestingIndex}
    {s : Scope} (h : s ∈ pairBrackets bs indices) :
    ∃ i j : Nat, i < j ∧ bs[i]? = some s.left ∧ bs[j]? = some s.right ∧ s.left.side = .left ∧
      s.right.side = .right ∧ indices[i]? = some s.index ∧ indices[j]? = some s.index := by
  rw [pairBrackets_eq_partners, List.mem_map] at h
  obtain ⟨p, hp, rfl⟩ := h
  obtain ⟨hleft, hright, hindex, hlt⟩ := partner_of_mem_partners pairwise_place_indexed hp
  obtain ⟨hmem, hmem'⟩ := mem_of_mem_partners hp
  obtain ⟨i, hi⟩ := List.getElem?_of_mem hmem
  obtain ⟨j, hj⟩ := List.getElem?_of_mem hmem'
  obtain ⟨hbi, hindexi, hplacei⟩ := getElem?_indexed.mp hi
  obtain ⟨hbj, hindexj, hplacej⟩ := getElem?_indexed.mp hj
  exact ⟨i, j, by omega, hbi, hbj, hleft, hright, hindexi, by rw [hindexj, hindex]; rfl⟩

/-- Mapping keeps lists apart whose members it keeps apart. -/
theorem map_eq_map_iff_of_injOn {α β : Type} {f : α → β} {P : α → Prop}
    (hf : ∀ a b, P a → P b → f a = f b → a = b) {as bs : List α} (has : ∀ a ∈ as, P a)
    (hbs : ∀ b ∈ bs, P b) : as.map f = bs.map f ↔ as = bs := by
  refine ⟨fun h => ?_, congrArg _⟩
  induction as generalizing bs with
  | nil => exact (List.map_eq_nil_iff.mp h.symm).symm
  | cons a as ih =>
      cases bs with
      | nil => cases h
      | cons b bs =>
          obtain ⟨hhead, htail⟩ := List.cons.inj h
          rw [hf a b (has a List.mem_cons_self) (hbs b List.mem_cons_self) hhead,
            ih (fun x hx => has x (List.mem_cons_of_mem _ hx))
              (fun x hx => hbs x (List.mem_cons_of_mem _ hx)) htail]

/-- **Scopes and the stack.** If the two brackets of each pair have the same index, the scopes are
the pairs of a stack exactly if no left bracket has the index of a right one inside it. -/
theorem pairs_eq_lifoPairs_iff {bs : List Bracket} {indices : List NestingIndex}
    (hbs : Located bs) (hlen : indices.length = bs.length) (hagree : PairsAgree bs indices) :
    (pairBrackets bs indices).map Scope.brackets = lifoPairs bs ↔ KeptApart bs indices := by
  have hscopes : (pairBrackets bs indices).map Scope.brackets =
      (partners [] (indexed bs indices)).map (Prod.map bracket bracket) := by
    rw [pairBrackets_eq_partners, List.map_map]
    rfl
  -- Located brackets are told from each other, so indexed ones are told by their brackets.
  have hinj : ∀ p q : IndexedBracket × IndexedBracket,
      (p.1 ∈ indexed bs indices ∧ p.2 ∈ indexed bs indices) →
      (q.1 ∈ indexed bs indices ∧ q.2 ∈ indexed bs indices) →
      Prod.map bracket bracket p = Prod.map bracket bracket q → p = q := by
    have hnodup : ((indexed bs indices).map bracket).Nodup := by
      rw [map_bracket_indexed hlen]
      exact hbs.nodup
    rintro ⟨p, p'⟩ ⟨q, q'⟩ ⟨hp, hp'⟩ ⟨hq, hq'⟩ h
    obtain ⟨h1, h2⟩ := Prod.mk.inj h
    obtain rfl : p = q := List.inj_on_of_nodup_map hnodup hp hq h1
    obtain rfl : p' = q' := List.inj_on_of_nodup_map hnodup hp' hq' h2
    rfl
  rw [hscopes, lifoPairs_eq_closings hbs, ← closings_indexed hlen,
    map_eq_map_iff_of_injOn hinj (fun p => mem_of_mem_partners) (fun p => mem_of_mem_closings),
    ← unmistakable_indexed hlen]
  exact partners_eq_closings_iff pairwise_place_indexed
    (fun p hp => index_eq_of_pairsAgree hlen hagree hp) (fun _ _ => List.not_mem_nil)

end BracketPaint
