import Mathlib.Data.List.Find
import BracketPaint.Proofs.Pairing
/-!
# First come, first served

The queues are a fast way to follow a slow rule. Go through the left brackets in order, and let each
one take the first right bracket behind it that has its index and is not taken yet; if there is
none, it takes nothing. `takings` is that rule. It knows nothing of queues, or of brackets that are
useless from some place on, and it looks at the whole rest of the list for every left bracket.

`pairBrackets_eq_takings` says that the scopes are what the rule takes, for any indices whatever.
The proof goes through `partners`, which follows the rule on the brackets that carry their indices
and places: a suffix of that list is what lies behind a place.
-/

namespace BracketPaint

open IndexedBracket

/-! ### The rule, told of places -/

/-- The place of the first right bracket behind a place that has its index and is not taken yet. -/
def firstFree? (bs : List Bracket) (indices : List NestingIndex) (taken : List Nat) (i : Nat) :
    Option Nat :=
  (List.range' (i + 1) (bs.length - (i + 1))).find? fun j =>
    (bs[j]?).map Bracket.side = some .right ∧ indices[j]? = indices[i]? ∧ j ∉ taken

/-- What the left brackets among some places take, one after the other. -/
def takingsAt (bs : List Bracket) (indices : List NestingIndex) (taken : List Nat) :
    List Nat → List (Nat × Nat)
  | [] => []
  | i :: is =>
    if (bs[i]?).map Bracket.side = some .left then
      match firstFree? bs indices taken i with
      | none => takingsAt bs indices taken is
      | some j => (i, j) :: takingsAt bs indices (j :: taken) is
    else takingsAt bs indices taken is

/-- The places of the left brackets that take something, with the places of what they take. -/
def takings (bs : List Bracket) (indices : List NestingIndex) : List (Nat × Nat) :=
  takingsAt bs indices [] (List.range bs.length)

/-- The scope of the brackets at two places, with the index at the first one. -/
def scopeAt? (bs : List Bracket) (indices : List NestingIndex) (places : Nat × Nat) :
    Option Scope := do
  return ⟨← indices[places.1]?, ← bs[places.1]?, ← bs[places.2]?⟩

/-! ### Who takes, and what is taken -/

section Rule

variable {taken : List Nat} {bs : List IndexedBracket}

theorem nodup_of_pairwise_place (hplaces : bs.Pairwise fun x y => x.place < y.place) : bs.Nodup :=
  hplaces.imp fun hlt heq => Nat.ne_of_lt hlt (congrArg place heq)

/-- The left brackets that take something come in text order. -/
theorem map_fst_partners_sublist : ((partners taken bs).map Prod.fst).Sublist bs := by
  fun_induction partners taken bs with
  | case1 => exact List.Sublist.slnil
  | case2 taken b bs _ _ ih => exact ih.cons b
  | case3 taken b bs _ r _ ih => exact ih.cons_cons b
  | case4 taken b bs _ ih => exact ih.cons b

/-- What is taken was free. -/
theorem place_not_mem_of_mem_partners {p : IndexedBracket × IndexedBracket}
    (hp : p ∈ partners taken bs) : p.2.place ∉ taken := by
  fun_induction partners taken bs with
  | case1 => cases hp
  | case2 taken b bs _ _ ih => exact ih hp
  | case3 taken b bs _ r hfind ih =>
      rcases List.mem_cons.mp hp with rfl | hp
      · exact (waits_iff.mp (List.find?_some hfind)).2.2
      · exact fun hmem => ih hp (List.mem_cons_of_mem _ hmem)
  | case4 taken b bs _ ih => exact ih hp

/-- No right bracket is taken twice. -/
theorem nodup_place_partners : ((partners taken bs).map fun p => p.2.place).Nodup := by
  fun_induction partners taken bs with
  | case1 => exact List.nodup_nil
  | case2 taken b bs _ _ ih => exact ih
  | case3 taken b bs _ r _ ih =>
      refine List.nodup_cons.mpr ⟨fun hmem => ?_, ih⟩
      obtain ⟨p, hp, hplace⟩ := List.mem_map.mp hmem
      exact place_not_mem_of_mem_partners hp (hplace ▸ List.mem_cons_self)
  | case4 taken b bs _ ih => exact ih

/-- A left bracket takes one bracket. -/
theorem partner_unique {b r r' : IndexedBracket}
    (hplaces : bs.Pairwise fun x y => x.place < y.place) (h : (b, r) ∈ partners taken bs)
    (h' : (b, r') ∈ partners taken bs) : r = r' := by
  have hnodup : ((partners taken bs).map Prod.fst).Nodup :=
    (nodup_of_pairwise_place hplaces).sublist map_fst_partners_sublist
  exact (Prod.mk.inj (List.inj_on_of_nodup_map hnodup h h' rfl)).2

end Rule

/-! ### Places of what is taken -/

section Places

variable {bs : List Bracket} {indices : List NestingIndex} {taken : List Nat} {b e : IndexedBracket}
  {pre rest : List IndexedBracket}

/-- A bracket stands at its place, and so does its index. -/
theorem getElem?_place (he : e ∈ indexed bs indices) :
    (indexed bs indices)[e.place]? = some e ∧ bs[e.place]? = some e.bracket ∧
      indices[e.place]? = some e.index := by
  obtain ⟨i, hi⟩ := List.getElem?_of_mem he
  obtain ⟨hbracket, hindex, hplace⟩ := getElem?_indexed.mp hi
  rw [hplace]
  exact ⟨hi, hbracket, hindex⟩

theorem map_side_place (he : e ∈ indexed bs indices) :
    (bs[e.place]?).map Bracket.side = some e.side := by
  rw [(getElem?_place he).2.1]
  rfl

theorem map_place_indexed (hlen : indices.length = bs.length) :
    (indexed bs indices).map place = List.range bs.length := by
  have hplaces : (indexed bs indices).map place = (bs.zip indices).zipIdx.map Prod.snd := by
    rw [indexed, List.map_map]
    rfl
  rw [hplaces, List.zipIdx_map_snd, List.length_zip, hlen, Nat.min_self, List.range_eq_range']

/-- The place of a bracket is the number of those before it. -/
theorem place_of_indexed_eq (h : indexed bs indices = pre ++ b :: rest) :
    b.place = pre.length := by
  have hb : (indexed bs indices)[pre.length]? = some b := by
    rw [h, List.getElem?_append_right (Nat.le_refl _), Nat.sub_self, List.getElem?_cons_zero]
  exact (getElem?_indexed.mp hb).2.2

/-- What lies behind a bracket are the places up to the end. -/
theorem map_place_rest (hlen : indices.length = bs.length)
    (h : indexed bs indices = pre ++ b :: rest) :
    rest.map place = List.range' (b.place + 1) (bs.length - (b.place + 1)) := by
  have hrest : rest = (indexed bs indices).drop (pre.length + 1) := by
    rw [h, List.drop_length_add_append]
    rfl
  rw [hrest, List.map_drop, map_place_indexed hlen, List.range_eq_range', List.drop_range',
    place_of_indexed_eq h, Nat.zero_add, Nat.mul_one]

/-- To wait is to be free, right, and under the index, at the place of the bracket. -/
theorem waits_iff_of_mem_indexed {index : NestingIndex} (he : e ∈ indexed bs indices) :
    e.waits taken index ↔ (bs[e.place]?).map Bracket.side = some .right ∧
      indices[e.place]? = some index ∧ e.place ∉ taken := by
  rw [waits_iff, map_side_place he, (getElem?_place he).2.2, Option.some_inj, Option.some_inj]

theorem map_place_find?_waits (hlen : indices.length = bs.length)
    (h : indexed bs indices = pre ++ b :: rest) :
    (rest.find? (waits taken b.index)).map place = firstFree? bs indices taken b.place := by
  have hmem : ∀ e ∈ b :: rest, e ∈ indexed bs indices := by
    intro e he
    rw [h]
    exact List.mem_append_right _ he
  have hindex := (getElem?_place (hmem b List.mem_cons_self)).2.2
  rw [firstFree?, ← map_place_rest hlen h, List.find?_map]
  refine congrArg _ (List.find?_congr fun e he => ?_)
  rw [Bool.eq_iff_iff, Function.comp_apply, decide_eq_true_eq, hindex]
  exact waits_iff_of_mem_indexed (hmem e (List.mem_cons_of_mem _ he))

/-- The rule on a suffix of the brackets is the rule at the places of that suffix. -/
theorem map_places_partners (hlen : indices.length = bs.length)
    (h : indexed bs indices = pre ++ rest) :
    (partners taken rest).map (fun p => (p.1.place, p.2.place)) =
      takingsAt bs indices taken (rest.map place) := by
  induction rest generalizing pre taken with
  | nil => rfl
  | cons b rest ih =>
      have hrest : indexed bs indices = (pre ++ [b]) ++ rest := by
        rw [h, List.append_assoc, List.singleton_append]
      have hmem : b ∈ indexed bs indices := by
        rw [h]
        exact List.mem_append_right _ List.mem_cons_self
      rw [List.map_cons, takingsAt, map_side_place hmem]
      cases hb : b.side with
      | right =>
          rw [partners_right hb, if_neg (by decide)]
          exact ih hrest
      | left =>
          rw [if_pos rfl, ← map_place_find?_waits hlen h]
          cases hfind : rest.find? (waits taken b.index) with
          | none =>
              rw [partners_left_none hb hfind]
              exact ih hrest
          | some r =>
              rw [partners_left_some hb hfind, List.map_cons, ih hrest]
              rfl

theorem map_places_eq_takings (hlen : indices.length = bs.length) :
    (partners [] (indexed bs indices)).map (fun p => (p.1.place, p.2.place)) =
      takings bs indices := by
  rw [takings, ← map_place_indexed hlen]
  exact map_places_partners hlen (List.nil_append _).symm

theorem scopeAt?_of_mem_partners {p : IndexedBracket × IndexedBracket}
    (hp : p ∈ partners [] (indexed bs indices)) :
    scopeAt? bs indices (p.1.place, p.2.place) = some (scope p) := by
  obtain ⟨hfst, hsnd⟩ := mem_of_mem_partners hp
  obtain ⟨-, hleft, hindex⟩ := getElem?_place hfst
  obtain ⟨-, hright, -⟩ := getElem?_place hsnd
  simp [scopeAt?, hleft, hright, hindex, scope]

end Places

/-- **First come, first served.** For any indices, one for each bracket, the scopes are what the
rule takes. No bracket is in two scopes, the left bracket of a scope stands before the right one,
and the scopes come in the order of their left brackets. -/
theorem pairBrackets_eq_takings {bs : List Bracket} {indices : List NestingIndex}
    (hlen : indices.length = bs.length) :
    (pairBrackets bs indices).map some = (takings bs indices).map (scopeAt? bs indices) ∧
      ((takings bs indices).map Prod.fst ++ (takings bs indices).map Prod.snd).Nodup ∧
      (∀ p ∈ takings bs indices, p.1 < p.2) ∧
      (takings bs indices).Pairwise fun p q => p.1 < q.1 := by
  have hplaces : (indexed bs indices).Pairwise fun x y => x.place < y.place :=
    pairwise_place_indexed
  have hfst : (partners [] (indexed bs indices)).Pairwise fun p q => p.1.place < q.1.place := by
    have hsub : ((partners [] (indexed bs indices)).map Prod.fst).Sublist (indexed bs indices) :=
      map_fst_partners_sublist
    have hpairs := hplaces.sublist hsub
    rwa [List.pairwise_map] at hpairs
  have hsides : ∀ p ∈ partners [] (indexed bs indices), ∀ q ∈ partners [] (indexed bs indices),
      p.1.place ≠ q.2.place := by
    intro p hp q hq heq
    have hsame : p.1 = q.2 :=
      eq_of_place_eq hplaces (mem_of_mem_partners hp).1 (mem_of_mem_partners hq).2 heq
    have hleft := (partner_of_mem_partners hplaces hp).1
    rw [hsame, (partner_of_mem_partners hplaces hq).2.1] at hleft
    cases hleft
  rw [← map_places_eq_takings hlen]
  refine ⟨?_, ?_, ?_, ?_⟩
  · rw [pairBrackets_eq_partners, List.map_map, List.map_map]
    exact List.map_congr_left fun p hp => (scopeAt?_of_mem_partners hp).symm
  · rw [List.map_map, List.map_map]
    refine List.nodup_append.mpr
      ⟨List.pairwise_map.mpr (hfst.imp Nat.ne_of_lt), nodup_place_partners, ?_⟩
    intro i hi j hj
    obtain ⟨p, hp, rfl⟩ := List.mem_map.mp hi
    obtain ⟨q, hq, rfl⟩ := List.mem_map.mp hj
    exact hsides p hp q hq
  · intro places hmem
    obtain ⟨p, hp, rfl⟩ := List.mem_map.mp hmem
    exact (partner_of_mem_partners hplaces hp).2.2.2
  · exact List.pairwise_map.mpr hfst

/-- The brackets of `)([<])`. -/
def closedFirst : List Bracket :=
  [⟨.right, 0, ")"⟩, ⟨.left, 1, "("⟩, ⟨.left, 2, "["⟩, ⟨.left, 3, "<"⟩, ⟨.right, 4, "]"⟩,
    ⟨.right, 5, ")"⟩]

/-- Indices for them of two kinds, which no cursor gives. -/
def interleaved : List NestingIndex :=
  [⟨.level 0, 1⟩, ⟨.level 0, 1⟩, ⟨.unreachable, 2⟩, ⟨.level 0, 1⟩, ⟨.level 0, 1⟩, ⟨.unreachable, 2⟩]

/-- The right bracket in front is of no use, the two scopes cross, and the third left bracket finds
the right one under its index taken. -/
theorem pairBrackets_interleaved :
    interleaved.length = closedFirst.length ∧ takings closedFirst interleaved = [(1, 4), (2, 5)] ∧
      pairBrackets closedFirst interleaved =
        [⟨⟨.level 0, 1⟩, ⟨.left, 1, "("⟩, ⟨.right, 4, "]"⟩⟩,
          ⟨⟨.unreachable, 2⟩, ⟨.left, 2, "["⟩, ⟨.right, 5, ")"⟩⟩] := by
  have hlen : interleaved.length = closedFirst.length := rfl
  have htakings : takings closedFirst interleaved = [(1, 4), (2, 5)] := by decide
  refine ⟨hlen, htakings, List.map_injective_iff.mpr (fun _ _ => Option.some.inj) ?_⟩
  rw [(pairBrackets_eq_takings hlen).1, htakings]
  rfl

end BracketPaint
