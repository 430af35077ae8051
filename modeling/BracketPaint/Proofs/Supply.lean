import BracketPaint.Proofs.FirstCome
import BracketPaint.Proofs.Nested
/-!
# No left bracket goes without

Several cursors can make a left bracket take a right one of another pair. What cannot happen is that
a left bracket goes without because others took all it could have, or that it takes one from far
away: where each left bracket under an index could have a right bracket of its own in the beginning
of a list, the rule gives each of them some right bracket of that beginning
(`Supplies.exists_partner`).

The proof is an exchange. Let every left bracket have a right bracket in mind, no two the same one.
The first left bracket takes the first one that waits. If another left bracket had that one in mind,
it may have the one that the first left bracket had in mind, for that comes later.

Where matching brackets agree in their indices, the pairs of a stack are such a supply
(`exists_supplies`).
-/

namespace BracketPaint

open IndexedBracket

/-! ### Supplies -/

/-- The bracket is a left one and has the index. -/
def IndexedBracket.Asks (b : IndexedBracket) (index : NestingIndex) : Prop :=
  b.side = .left ∧ b.index = index

/-- Each left bracket under an index has a waiting bracket of its own in mind, which lies behind it
in the list. -/
structure Supplies (f : IndexedBracket → IndexedBracket) (taken : List Nat) (index : NestingIndex)
    (bs : List IndexedBracket) : Prop where
  mem : ∀ b ∈ bs, b.Asks index → f b ∈ bs
  waits : ∀ b ∈ bs, b.Asks index → (f b).waits taken index
  behind : ∀ b ∈ bs, b.Asks index → b.place < (f b).place
  inj : ∀ b ∈ bs, b.Asks index → ∀ c ∈ bs, c.Asks index → f b = f c → b = c

/-- The bracket that is found is the first one of those looked for. -/
theorem place_le_of_find? {bs : List IndexedBracket} {q : IndexedBracket → Bool}
    {r x : IndexedBracket} (hplaces : bs.Pairwise fun x y => x.place < y.place)
    (hfind : bs.find? q = some r) (hx : x ∈ bs) (hq : q x) : r.place ≤ x.place := by
  induction bs with
  | nil => cases hx
  | cons b bs ih =>
      obtain ⟨hlt, hrest⟩ := List.pairwise_cons.mp hplaces
      by_cases hb : q b
      · rw [List.find?_cons_of_pos hb] at hfind
        obtain rfl := Option.some.inj hfind
        rcases List.mem_cons.mp hx with rfl | hx
        · exact Nat.le_refl _
        · exact Nat.le_of_lt (hlt x hx)
      · rw [List.find?_cons_of_neg hb] at hfind
        rcases List.mem_cons.mp hx with rfl | hx
        · exact absurd hq hb
        · exact ih hrest hfind hx

namespace Supplies

variable {f : IndexedBracket → IndexedBracket} {taken : List Nat} {index : NestingIndex}
  {b r : IndexedBracket} {bs pre post : List IndexedBracket}

/-- What is behind a bracket of the rest is in the rest. -/
theorem mem_rest (h : Supplies f taken index (b :: bs))
    (hplaces : ∀ x ∈ bs, b.place < x.place) {x : IndexedBracket} (hx : x ∈ b :: bs)
    (hasks : x.Asks index) : f x ∈ bs := by
  rcases List.mem_cons.mp (h.mem x hx hasks) with heq | hmem
  · have hbehind := h.behind x hx hasks
    rw [heq] at hbehind
    rcases List.mem_cons.mp hx with rfl | hx
    · exact absurd hbehind (Nat.lt_irrefl _)
    · exact absurd hbehind (Nat.lt_asymm (hplaces x hx))
  · exact hmem

/-- A bracket that takes nothing leaves the supply as it is. -/
theorem tail (h : Supplies f taken index (b :: bs)) (hplaces : ∀ x ∈ bs, b.place < x.place) :
    Supplies f taken index bs where
  mem _ hx hasks := h.mem_rest hplaces (List.mem_cons_of_mem _ hx) hasks
  waits _ hx hasks := h.waits _ (List.mem_cons_of_mem _ hx) hasks
  behind x hx hasks := h.behind x (List.mem_cons_of_mem _ hx) hasks
  inj x hx hasks y hy hasks' :=
    h.inj x (List.mem_cons_of_mem _ hx) hasks y (List.mem_cons_of_mem _ hy) hasks'

/-- What still waits if one more bracket is taken. -/
theorem waits_of_place_ne {x : IndexedBracket} (hx : x.waits taken index)
    (hne : x.place ≠ r.place) : x.waits (r.place :: taken) index := by
  obtain ⟨hside, hindex, hfree⟩ := waits_iff.mp hx
  refine waits_iff.mpr ⟨hside, hindex, fun hmem => ?_⟩
  rcases List.mem_cons.mp hmem with heq | hmem
  · exact hne heq
  · exact hfree hmem

/-- A bracket under another index that is taken does not belong to the supply. -/
theorem take_other (h : Supplies f taken index bs)
    (hplace : ∀ x ∈ bs, x.place = r.place → x = r) (hr : r.index ≠ index) :
    Supplies f (r.place :: taken) index bs where
  mem := h.mem
  waits x hx hasks := by
    refine waits_of_place_ne (h.waits x hx hasks) fun heq => hr ?_
    rw [← hplace _ (h.mem x hx hasks) heq]
    exact (waits_iff.mp (h.waits x hx hasks)).2.1
  behind := h.behind
  inj := h.inj

/-- The exchange: whoever had the taken bracket in mind may have the one that the first left bracket
had in mind. -/
theorem exchange (h : Supplies f taken index (b :: bs))
    (hplaces : (b :: bs).Pairwise fun x y => x.place < y.place) (hb : b.Asks index)
    (hfind : bs.find? (IndexedBracket.waits taken index) = some r) :
    Supplies (fun x => if f x = r then f b else f x) (r.place :: taken) index bs := by
  obtain ⟨hlt, hrest⟩ := List.pairwise_cons.mp hplaces
  have hr : r ∈ bs := List.mem_of_find?_eq_some hfind
  have hself : b ∈ b :: bs := List.mem_cons_self
  have hlater : ∀ {x : IndexedBracket}, x ∈ bs → x ∈ b :: bs := List.mem_cons_of_mem b
  have hown : f b ∈ bs := h.mem_rest hlt hself hb
  have hfirst : r.place ≤ (f b).place := place_le_of_find? hrest hfind hown (h.waits b hself hb)
  -- No other left bracket has in mind what the first one has.
  have hapart : ∀ x ∈ bs, x.Asks index → f x ≠ f b := by
    intro x hx hasks heq
    have := hlt x hx
    rw [h.inj x (hlater hx) hasks b hself hb heq] at this
    exact Nat.lt_irrefl _ this
  constructor
  · intro x hx hasks
    split
    · exact hown
    · exact h.mem_rest hlt (hlater hx) hasks
  · intro x hx hasks
    split
    · rename_i hxr
      refine waits_of_place_ne (h.waits b hself hb) fun heq => hapart x hx hasks ?_
      rw [hxr, eq_of_place_eq hrest hown hr heq]
    · rename_i hxr
      exact waits_of_place_ne (h.waits x (hlater hx) hasks) fun heq =>
        hxr (eq_of_place_eq hrest (h.mem_rest hlt (hlater hx) hasks) hr heq)
  · intro x hx hasks
    have hbehind := h.behind x (hlater hx) hasks
    split
    · rename_i hxr
      rw [hxr] at hbehind
      omega
    · exact hbehind
  · intro x hx hasks y hy hasks' heq
    split at heq <;> split at heq
    · rename_i hxr hyr
      exact h.inj x (hlater hx) hasks y (hlater hy) hasks' (hxr.trans hyr.symm)
    · exact absurd heq.symm (hapart y hy hasks')
    · exact absurd heq (hapart x hx hasks)
    · exact h.inj x (hlater hx) hasks y (hlater hy) hasks' heq

/-- **Every left bracket is served.** Where the left brackets under an index have a supply in the
beginning of a list, each of them takes a right bracket of that beginning. -/
theorem exists_partner (h : Supplies f taken index pre)
    (hplaces : (pre ++ post).Pairwise fun x y => x.place < y.place) (hb : b ∈ pre)
    (hasks : b.Asks index) : ∃ r ∈ pre, (b, r) ∈ partners taken (pre ++ post) := by
  induction pre generalizing f taken with
  | nil => cases hb
  | cons c pre ih =>
      rw [List.cons_append] at hplaces ⊢
      obtain ⟨hlt, hrest⟩ := List.pairwise_cons.mp hplaces
      have hpre : (c :: pre).Pairwise fun x y => x.place < y.place :=
        hplaces.sublist ((List.sublist_append_left pre post).cons_cons c)
      have hlt' := (List.pairwise_cons.mp hpre).1
      have htail := h.tail hlt'
      cases hc : c.side with
      | right =>
          rw [partners_right hc]
          rcases List.mem_cons.mp hb with rfl | hb
          · rw [hasks.1] at hc
            cases hc
          · obtain ⟨r, hr, hmem⟩ := ih htail hrest hb
            exact ⟨r, List.mem_cons_of_mem _ hr, hmem⟩
      | left =>
          by_cases hindex : c.index = index
          · -- The bracket that it has in mind waits, so it finds one, and before the end.
            have hcasks : c.Asks index := ⟨hc, hindex⟩
            obtain ⟨r, hr⟩ : ∃ r, pre.find? (IndexedBracket.waits taken index) = some r := by
              rw [← Option.isSome_iff_exists, List.find?_isSome]
              exact ⟨f c, h.mem_rest hlt' List.mem_cons_self hcasks,
                h.waits c List.mem_cons_self hcasks⟩
            have hfind : (pre ++ post).find? (IndexedBracket.waits taken c.index) = some r := by
              rw [hindex, List.find?_append, hr, Option.some_or]
            have hrmem := List.mem_of_find?_eq_some hr
            rw [partners_left_some hc hfind]
            rcases List.mem_cons.mp hb with rfl | hb
            · exact ⟨r, List.mem_cons_of_mem _ hrmem, List.mem_cons_self⟩
            · obtain ⟨r', hr', hmem⟩ := ih (h.exchange hpre hcasks hr) hrest hb
              exact ⟨r', List.mem_cons_of_mem _ hr', List.mem_cons_of_mem _ hmem⟩
          · have hb : b ∈ pre := by
              rcases List.mem_cons.mp hb with rfl | hb
              · exact absurd hasks.2 hindex
              · exact hb
            cases hfind : (pre ++ post).find? (IndexedBracket.waits taken c.index) with
            | none =>
                rw [partners_left_none hc hfind]
                obtain ⟨r', hr', hmem⟩ := ih htail hrest hb
                exact ⟨r', List.mem_cons_of_mem _ hr', hmem⟩
            | some r =>
                have hrindex : r.index ≠ index := by
                  rw [(waits_iff.mp (List.find?_some hfind)).2.1]
                  exact hindex
                have hplace : ∀ x ∈ pre, x.place = r.place → x = r := fun x hx =>
                  eq_of_place_eq hrest (List.mem_append_left _ hx)
                    (List.mem_of_find?_eq_some hfind)
                rw [partners_left_some hc hfind]
                obtain ⟨r', hr', hmem⟩ := ih (htail.take_other hplace hrindex) hrest hb
                exact ⟨r', List.mem_cons_of_mem _ hr', List.mem_cons_of_mem _ hmem⟩

end Supplies

/-! ### The pairs of a stack as a supply -/

section Stack

variable {bs : List Bracket} {indices : List NestingIndex} {index : NestingIndex}
  {pre : List IndexedBracket} {i j n : Nat}

/-- A left bracket that is closed before a place has its right bracket there. -/
theorem exists_matchedAt_lt (hleft : (bs[i]?).map Bracket.side = some .left)
    (h : 0 < (between Bracket.side bs (i + 1) n).unopened) : ∃ j < n, MatchedAt bs i j := by
  obtain ⟨x, hx⟩ := exists_closer? h
  obtain ⟨k, hk, hside, hres⟩ := closer?_eq_some_iff.mp hx
  have hkn : i + 1 + k < n := by
    have := (List.getElem?_eq_some_iff.mp hk).1
    rw [List.length_drop, List.length_take] at this
    omega
  have hright : (bs[i + 1 + k]?).map Bracket.side = some .right := by
    rw [List.getElem?_drop, List.getElem?_take_of_lt hkn] at hk
    rw [hk, Option.map_some, hside]
  have hbetween : between Bracket.side bs (i + 1) (i + 1 + k) = 1 := by
    rw [between_zero, List.take_drop, List.take_take, Nat.min_eq_left (Nat.le_of_lt hkn)] at hres
    exact hres
  exact ⟨i + 1 + k, hkn, by omega, hleft, hright, hbetween⟩

theorem MatchedAt.exists_right (h : MatchedAt bs i j) (hlen : indices.length = bs.length) :
    ∃ r ∈ indexed bs indices, r.place = j := by
  obtain ⟨b, hb, -⟩ := Option.map_eq_some_iff.mp h.right
  obtain ⟨r, hr, -, -⟩ := exists_indexed hlen hb
  exact ⟨r, List.mem_of_getElem? hr, (getElem?_indexed.mp hr).2.2⟩

/-- Two left brackets do not have one right bracket. -/
theorem MatchedAt.left_inj {i' : Nat} (h : MatchedAt bs i j) (h' : MatchedAt bs i' j) : i = i' := by
  have hplaces := h.nested_or_apart h'
  have hlt := h.lt
  have hlt' := h'.lt
  omega

/-- If the left brackets under an index have their right brackets in a part of the list, these are a
supply. -/
theorem exists_supplies (hagree : PairsAgree bs indices)
    (hpre : ∀ b ∈ pre, b ∈ indexed bs indices)
    (hclosed : ∀ b ∈ pre, b.Asks index → ∃ r ∈ pre, MatchedAt bs b.place r.place) :
    ∃ f, Supplies f [] index pre := by
  have htotal : ∀ b, ∃ r, b ∈ pre → b.Asks index → r ∈ pre ∧ MatchedAt bs b.place r.place := by
    intro b
    by_cases h : b ∈ pre ∧ b.Asks index
    · obtain ⟨r, hr, hmatched⟩ := hclosed b h.1 h.2
      exact ⟨r, fun _ _ => ⟨hr, hmatched⟩⟩
    · exact ⟨b, fun hb hasks => absurd ⟨hb, hasks⟩ h⟩
  choose f hf using htotal
  refine ⟨f, fun b hb hasks => (hf b hb hasks).1, fun b hb hasks => ?_,
    fun b hb hasks => (hf b hb hasks).2.lt, fun b hb hasks c hc hasks' heq => ?_⟩
  · obtain ⟨hr, hmatched⟩ := hf b hb hasks
    have hright := hmatched.right
    rw [map_side_place (hpre _ hr)] at hright
    have hindex := hagree _ _ hmatched
    rw [(getElem?_place (hpre b hb)).2.2, (getElem?_place (hpre _ hr)).2.2, hasks.2] at hindex
    exact waits_iff.mpr ⟨Option.some.inj hright, (Option.some.inj hindex).symm, List.not_mem_nil⟩
  · have hmatched := (hf b hb hasks).2
    rw [heq] at hmatched
    exact eq_of_place_eq pairwise_place_indexed (hpre b hb) (hpre c hc)
      (hmatched.left_inj (hf c hc hasks').2)

end Stack

end BracketPaint
