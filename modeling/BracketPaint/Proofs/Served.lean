import Mathlib.Data.List.Perm.Subperm
import BracketPaint.Proofs.Immediate
import BracketPaint.Proofs.Supply
/-!
# What several cursors cannot spoil

With several cursors a scope need not be a pair of a stack. Two things hold nevertheless.

A scope with a positive inner level encloses no cursor, in balanced brackets and in others
(`pairBrackets_beside_cursors`). A left bracket before a cursor that has a positive merged level has
a positive level for that cursor, so it is closed before the cursor. This holds of all left brackets
under the index, which is a supply, and so none of them has to look behind the cursor.

In balanced brackets every bracket is in one scope (`pairBrackets_uses_all`). All left brackets have
their right brackets as a supply, so there are as many scopes as pairs, and these use up all the
brackets.
-/

namespace BracketPaint

open IndexedBracket

variable {bs : List Bracket} {cursors : List Nat} {indices : List NestingIndex} {c : Nat}

/-! ### Scopes beside the mainlines -/

/-- A bracket that no cursor has on its mainline has a positive inner level for each cursor. -/
theorem Merged.inner_pos (hm : Merged bs cursors indices) (hc : c ∈ cursors) {i : Nat}
    {a x : NestingIndex} (ha : indices[i]? = some a) (hx : (nestingIndices bs c)[i]? = some x)
    (hpos : 0 < a.inner) : 0 < x.inner := by
  by_contra hzero
  have hle : a.inner ≤ 0 := ((hm.leastAt i a ha).inner_le_iff 0).mpr
    ⟨_, List.mem_map_of_mem hc, x, hx, by omega⟩
  omega

/-- A left bracket before a cursor is closed before it if its inner level is positive. -/
theorem Merged.exists_matchedAt (hm : Merged bs cursors indices) (hc : c ∈ cursors) {i : Nat}
    {a : NestingIndex} (hleft : (bs[i]?).map Bracket.side = some .left) (ha : indices[i]? = some a)
    (hpos : 0 < a.inner) (hi : i < bracketsBefore bs c) :
    ∃ j < bracketsBefore bs c, MatchedAt bs i j := by
  refine exists_matchedAt_lt hleft ?_
  have := hm.inner_pos hc ha (getElem?_nestingIndices_of_side hleft) hpos
  rwa [indexAt_left_of_lt hi] at this

/-- A scope whose left bracket stands before a cursor ends before it if its inner level is
positive. -/
theorem Merged.place_lt (hm : Merged bs cursors indices) (hc : c ∈ cursors)
    {p : IndexedBracket × IndexedBracket} (hp : p ∈ partners [] (indexed bs indices))
    (hpos : 0 < p.1.index.inner) (hlt : p.1.place < bracketsBefore bs c) :
    p.2.place < bracketsBefore bs c := by
  have hplaces : (indexed bs indices).Pairwise fun x y => x.place < y.place :=
    pairwise_place_indexed
  have hmem : ∀ {e : IndexedBracket}, e ∈ indexed bs indices →
      (e ∈ (indexed bs indices).take (bracketsBefore bs c) ↔ e.place < bracketsBefore bs c) :=
    fun he => mem_take_iff (nodup_of_pairwise_place hplaces) (getElem?_place he).1
  -- Before the cursor, each left bracket under the index has its right bracket.
  have hclosed : ∀ b ∈ (indexed bs indices).take (bracketsBefore bs c), b.Asks p.1.index →
      ∃ r ∈ (indexed bs indices).take (bracketsBefore bs c), MatchedAt bs b.place r.place := by
    intro b hb hasks
    have hb' := List.mem_of_mem_take hb
    have hleft := map_side_place hb'
    rw [hasks.1] at hleft
    rw [← hasks.2] at hpos
    obtain ⟨j, hj, hmatched⟩ :=
      hm.exists_matchedAt hc hleft (getElem?_place hb').2.2 hpos ((hmem hb').mp hb)
    obtain ⟨r, hr, rfl⟩ := hmatched.exists_right hm.length_eq
    exact ⟨r, (hmem hr).mpr hj, hmatched⟩
  obtain ⟨f, hf⟩ := exists_supplies hm.pairsAgree (fun b hb => List.mem_of_mem_take hb) hclosed
  rw [← List.take_append_drop (bracketsBefore bs c) (indexed bs indices)] at hplaces
  obtain ⟨r, hr, hpr⟩ := hf.exists_partner hplaces
    ((hmem (mem_of_mem_partners hp).1).mpr hlt)
    ⟨(partner_of_mem_partners pairwise_place_indexed hp).1, rfl⟩
  -- A left bracket takes one bracket, so this is the one that it takes.
  rw [List.take_append_drop] at hpr
  rw [partner_unique pairwise_place_indexed hp hpr]
  exact (hmem (List.mem_of_mem_take hr)).mp hr

/-- A scope of several cursors with a positive inner level encloses none of them. -/
theorem Merged.not_encloses (hm : Merged bs cursors indices) (hbs : Located bs) {s : Scope}
    (hs : s ∈ pairBrackets bs indices) (hpos : 0 < s.index.inner) (hc : c ∈ cursors) :
    ¬ Encloses s.brackets c := by
  rw [pairBrackets_eq_partners, List.mem_map] at hs
  obtain ⟨p, hp, rfl⟩ := hs
  obtain ⟨hp1, hp2⟩ := mem_of_mem_partners hp
  obtain ⟨hleft, hright, -, -⟩ := partner_of_mem_partners pairwise_place_indexed hp
  rintro ⟨hstop, hposition⟩
  have hlt := (hbs.left_lt_bracketsBefore_iff (getElem?_place hp1).2.1 hleft).mpr hstop
  have hlt' := (hbs.right_lt_bracketsBefore_iff (getElem?_place hp2).2.1 hright).mp
    (hm.place_lt hc hp hpos hlt)
  exact Nat.not_lt.mpr hposition hlt'

/-- What is adjacent or offside has a positive inner level. -/
theorem Role.inner_pos_of_ofScope {supported : List BracketPair} {s : Scope} {role : Role}
    (h : ofScope supported cursors s = .ok role)
    (hrole : role.kind = .adjacent ∨ role.kind = .offside) : 0 < s.index.inner := by
  unfold ofScope at h
  split at h
  · cases h
    simp [kind] at hrole
  · split at h
    · cases h
      simp [kind] at hrole
    · rename_i hprimary
      split at h
      · split at h
        · cases h
          simp [kind] at hrole
        · cases h
      · rename_i hsecondary
        by_contra hzero
        have hinner : s.index.inner = 0 := by omega
        have houter : s.index.outer = .level 0 := by
          by_contra hne
          exact hsecondary ⟨hinner, hne⟩
        exact hprimary (congrArg₂ NestingIndex.mk houter hinner)

/-- **Scopes beside the cursors.** In located brackets, balanced or not, a scope of several cursors
with a positive inner level encloses none of the cursors. So what is adjacent or offside encloses
none. -/
theorem pairBrackets_beside_cursors (hbs : Located bs) (hne : cursors ≠ []) :
    ∃ indices, mergeIndices (cursors.map (nestingIndices bs)) = .ok indices ∧
      ∀ s ∈ pairBrackets bs indices,
        (0 < s.index.inner → ∀ c ∈ cursors, ¬ Encloses s.brackets c) ∧
        ∀ supported role, Role.ofScope supported cursors s = .ok role →
          role.kind = .adjacent ∨ role.kind = .offside →
            ∀ c ∈ cursors, ¬ Encloses s.brackets c := by
  obtain ⟨indices, hok, hm⟩ := exists_merged bs hne
  refine ⟨indices, hok, fun s hs => ⟨fun hpos c hc => hm.not_encloses hbs hs hpos hc, ?_⟩⟩
  intro supported role hrole hkind c hc
  exact hm.not_encloses hbs hs (Role.inner_pos_of_ofScope hrole hkind) hc

/-- The brackets of `(()`. -/
def neverClosed : List Bracket := [⟨.left, 0, "("⟩, ⟨.left, 1, "("⟩, ⟨.right, 2, ")"⟩]

/-- A cursor at each end of `(()`: the pair is adjacent to the second one, and encloses neither. -/
theorem pairBrackets_beside_neverClosed :
    Located neverClosed ∧ [0, 3] ≠ [] ∧
      ∃ indices, mergeIndices ([0, 3].map (nestingIndices neverClosed)) = .ok indices ∧
        ∃ s ∈ pairBrackets neverClosed indices, s.index = ⟨.unreachable, 1⟩ ∧
          Role.ofScope [⟨"(", ")"⟩] [0, 3] s = .ok .adjacent ∧
          ¬ Encloses s.brackets 0 ∧ ¬ Encloses s.brackets 3 := by
  have hbs : Located neverClosed := ⟨by decide, by decide⟩
  obtain ⟨indices, hok, hbeside⟩ := pairBrackets_beside_cursors hbs (by decide : [0, 3] ≠ [])
  have hmerged : mergeIndices ([0, 3].map (nestingIndices neverClosed)) =
      .ok [⟨.level 0, 0⟩, ⟨.unreachable, 1⟩, ⟨.unreachable, 1⟩] := by decide +kernel
  obtain rfl := Except.ok.inj (hok.symm.trans hmerged)
  have hs : ⟨⟨.unreachable, 1⟩, ⟨.left, 1, "("⟩, ⟨.right, 2, ")"⟩⟩ ∈ pairBrackets neverClosed
      [⟨.level 0, 0⟩, ⟨.unreachable, 1⟩, ⟨.unreachable, 1⟩] := by
    rw [pairBrackets_eq_partners]
    decide
  have hrole : Role.ofScope [⟨"(", ")"⟩] [0, 3]
      ⟨⟨.unreachable, 1⟩, ⟨.left, 1, "("⟩, ⟨.right, 2, ")"⟩⟩ = .ok .adjacent := by decide
  have hnone := (hbeside _ hs).2 _ _ hrole (Or.inl rfl)
  exact ⟨hbs, by decide, _, hok, _, hs, rfl, hrole, hnone 0 (by decide), hnone 3 (by decide)⟩

/-! ### Every bracket in a scope -/

section Scopes

variable {b : Bracket} {s t : Scope}

theorem side_of_mem_pairBrackets (hs : s ∈ pairBrackets bs indices) :
    s.left.side = .left ∧ s.right.side = .right := by
  obtain ⟨_, _, -, -, -, hleft, hright, -⟩ := exists_places_of_mem_pairBrackets hs
  exact ⟨hleft, hright⟩

theorem mem_of_mem_pairBrackets (hs : s ∈ pairBrackets bs indices) :
    s.left ∈ bs ∧ s.right ∈ bs := by
  obtain ⟨_, _, -, hi, hj, -⟩ := exists_places_of_mem_pairBrackets hs
  exact ⟨List.mem_of_getElem? hi, List.mem_of_getElem? hj⟩

theorem map_left_sublist (hlen : indices.length = bs.length) :
    ((pairBrackets bs indices).map Scope.left).Sublist bs := by
  have hsub : ((partners [] (indexed bs indices)).map Prod.fst).Sublist (indexed bs indices) :=
    map_fst_partners_sublist
  have hmap := hsub.map bracket
  rw [map_bracket_indexed hlen, List.map_map] at hmap
  rw [pairBrackets_eq_partners, List.map_map]
  exact hmap

/-- No right bracket is in two scopes. -/
theorem nodup_map_right (hbs : Located bs) (hlen : indices.length = bs.length) :
    ((pairBrackets bs indices).map Scope.right).Nodup := by
  have hplaces : (((partners [] (indexed bs indices)).map Prod.snd).map place).Nodup := by
    rw [List.map_map]
    exact nodup_place_partners
  have hbrackets : ((indexed bs indices).map bracket).Nodup := by
    rw [map_bracket_indexed hlen]
    exact hbs.nodup
  have hmem : ∀ e ∈ (partners [] (indexed bs indices)).map Prod.snd, e ∈ indexed bs indices := by
    intro e he
    obtain ⟨p, hp, rfl⟩ := List.mem_map.mp he
    exact (mem_of_mem_partners hp).2
  have hmap := (List.Nodup.of_map place hplaces).map_on fun e he e' he' heq =>
    List.inj_on_of_nodup_map hbrackets (hmem e he) (hmem e' he') heq
  rw [List.map_map] at hmap
  rw [pairBrackets_eq_partners, List.map_map]
  exact hmap

/-- No bracket is in two scopes. -/
theorem nodup_left_append_right (hbs : Located bs) (hlen : indices.length = bs.length) :
    ((pairBrackets bs indices).map Scope.left ++
      (pairBrackets bs indices).map Scope.right).Nodup := by
  refine List.nodup_append.mpr ⟨hbs.nodup.sublist (map_left_sublist hlen),
    nodup_map_right hbs hlen, fun l hl r hr heq => ?_⟩
  obtain ⟨s, hs, rfl⟩ := List.mem_map.mp hl
  obtain ⟨t, ht, rfl⟩ := List.mem_map.mp hr
  have hside := (side_of_mem_pairBrackets hs).1
  rw [heq, (side_of_mem_pairBrackets ht).2] at hside
  cases hside

/-- A bracket tells the scope that it is in. -/
theorem scope_unique (hbs : Located bs) (hlen : indices.length = bs.length)
    (hs : s ∈ pairBrackets bs indices) (ht : t ∈ pairBrackets bs indices)
    (hbs' : b = s.left ∨ b = s.right) (hbt : b = t.left ∨ b = t.right) : s = t := by
  obtain ⟨hleft, hright, hapart⟩ := List.nodup_append.mp (nodup_left_append_right hbs hlen)
  rcases hbs' with rfl | rfl <;> rcases hbt with heq | heq
  · exact List.inj_on_of_nodup_map hleft hs ht heq
  · exact absurd heq (hapart _ (List.mem_map_of_mem hs) _ (List.mem_map_of_mem ht))
  · exact absurd heq.symm (hapart _ (List.mem_map_of_mem ht) _ (List.mem_map_of_mem hs))
  · exact List.inj_on_of_nodup_map hright hs ht heq

/-- If matching brackets agree in balanced brackets, every left bracket is in a scope. -/
theorem Balanced.exists_scope (hbal : Balanced bs) (hbs : Located bs)
    (hlen : indices.length = bs.length) (hagree : PairsAgree bs indices) (hb : b ∈ bs)
    (hleft : b.side = .left) : ∃ s ∈ pairBrackets bs indices, s.left = b := by
  obtain ⟨i, hi⟩ := List.getElem?_of_mem hb
  obtain ⟨e, he, rfl, -⟩ := exists_indexed hlen hi
  have hclosed : ∀ b ∈ indexed bs indices, b.Asks e.index →
      ∃ r ∈ indexed bs indices, MatchedAt bs b.place r.place := by
    intro b hb hasks
    have hside := map_side_place hb
    rw [hasks.1] at hside
    obtain ⟨j, hmatched⟩ := hbal.exists_right hbs hside
    obtain ⟨r, hr, rfl⟩ := hmatched.exists_right hlen
    exact ⟨r, hr, hmatched⟩
  obtain ⟨f, hf⟩ := exists_supplies hagree (fun _ hb => hb) hclosed
  -- Here the beginning of the list is the whole list.
  have hplaces : (indexed bs indices).Pairwise fun x y => x.place < y.place :=
    pairwise_place_indexed
  rw [← List.append_nil (indexed bs indices)] at hplaces
  obtain ⟨r, -, hr⟩ := hf.exists_partner hplaces (List.mem_of_getElem? he) ⟨hleft, rfl⟩
  rw [List.append_nil] at hr
  refine ⟨scope (e, r), ?_, rfl⟩
  rw [pairBrackets_eq_partners]
  exact List.mem_map_of_mem hr

/-- If matching brackets agree in balanced brackets, the scopes use up all brackets. -/
theorem Balanced.perm_brackets (hbal : Balanced bs) (hbs : Located bs)
    (hlen : indices.length = bs.length) (hagree : PairsAgree bs indices) :
    ((pairBrackets bs indices).map Scope.left ++
      (pairBrackets bs indices).map Scope.right).Perm bs := by
  have hsubset : (pairBrackets bs indices).map Scope.left ++
      (pairBrackets bs indices).map Scope.right ⊆ bs := by
    intro b hb
    rcases List.mem_append.mp hb with hb | hb
    · obtain ⟨s, hs, rfl⟩ := List.mem_map.mp hb
      exact (mem_of_mem_pairBrackets hs).1
    · obtain ⟨s, hs, rfl⟩ := List.mem_map.mp hb
      exact (mem_of_mem_pairBrackets hs).2
  -- There are as many scopes as pairs, and the pairs have all brackets.
  have hpairs : ((lifoPairs bs).map Prod.fst).length ≤
      ((pairBrackets bs indices).map Scope.left).length := by
    refine (List.Nodup.subperm ?_ fun b hb => ?_).length_le
    · rw [lifoPairs_eq_closings hbs]
      exact hbs.nodup.sublist closings_fst_sublist
    · obtain ⟨p, hp, rfl⟩ := List.mem_map.mp hb
      obtain ⟨i, j, hp⟩ := hbs.exists_pairAt hp
      have hleft := hp.matched.left
      rw [hp.fst, Option.map_some] at hleft
      obtain ⟨s, hs, heq⟩ := hbal.exists_scope hbs hlen hagree (List.mem_of_getElem? hp.fst)
        (Option.some.inj hleft)
      exact heq ▸ List.mem_map_of_mem hs
  have hall : bs.length ≤ ((lifoPairs bs).map Prod.fst ++ (lifoPairs bs).map Prod.snd).length := by
    refine (List.Nodup.subperm hbs.nodup fun b hb => ?_).length_le
    obtain ⟨p, hp, rfl | rfl⟩ := hbal b hb
    · exact List.mem_append_left _ (List.mem_map_of_mem hp)
    · exact List.mem_append_right _ (List.mem_map_of_mem hp)
  refine (List.Nodup.subperm (nodup_left_append_right hbs hlen) hsubset).perm_of_length_le ?_
  simp only [List.length_append, List.length_map] at hpairs hall ⊢
  omega

end Scopes

/-- The scope of a bracket has the index of the bracket. -/
theorem index_eq_of_lookup (hbs : Located bs) {s : Scope} {b : Bracket} {a : NestingIndex}
    (hs : s ∈ pairBrackets bs indices) (hb : b = s.left ∨ b = s.right)
    (h : (bs.zip indices).lookup b = some a) : s.index = a := by
  obtain ⟨i, j, -, hi, hj, -, -, hindex, hindex'⟩ := exists_places_of_mem_pairBrackets hs
  rcases hb with rfl | rfl
  · rw [lookup_zip hbs.nodup hi, hindex] at h
    exact Option.some.inj h
  · rw [lookup_zip hbs.nodup hj, hindex'] at h
    exact Option.some.inj h

/-- The brackets of a pair that encloses a cursor immediately are in primary scopes. -/
theorem Merged.index_eq_primary (hm : Merged bs cursors indices) (hbs : Located bs)
    (hbal : Balanced bs) (hc : c ∈ cursors) {p : Bracket × Bracket} (hp : Innermost bs c p)
    {b : Bracket} (hb : b = p.1 ∨ b = p.2) {s : Scope} (hs : s ∈ pairBrackets bs indices)
    (hbs' : b = s.left ∨ b = s.right) : s.index = .primary := by
  refine index_eq_of_lookup hbs hs hbs' ?_
  rw [hm.lookup_eq_primary_iff hbs hbal hp.mem hb]
  exact ⟨⟨c, hc, hp.encloses⟩, c, hc, (outerCount_eq_one_iff hbs).mpr ⟨p, hp, beside_self bs p⟩⟩

/-- **Nothing is lost.** In balanced brackets the scopes of several cursors use up all brackets, and
each bracket is in one scope. That scope has the index `.primary` for the two brackets of a pair
that encloses some cursor immediately. -/
theorem pairBrackets_uses_all (hbs : Located bs) (hbal : Balanced bs) (hne : cursors ≠ []) :
    ∃ indices, mergeIndices (cursors.map (nestingIndices bs)) = .ok indices ∧
      ((pairBrackets bs indices).map Scope.left ++
        (pairBrackets bs indices).map Scope.right).Perm bs ∧
      (∀ b ∈ bs, ∃! s, s ∈ pairBrackets bs indices ∧ (b = s.left ∨ b = s.right)) ∧
      ∀ c ∈ cursors, ∀ p, Innermost bs c p → ∀ b, b = p.1 ∨ b = p.2 →
        ∃ s ∈ pairBrackets bs indices, (b = s.left ∨ b = s.right) ∧ s.index = .primary := by
  obtain ⟨indices, hok, hm⟩ := exists_merged bs hne
  have hperm := hbal.perm_brackets hbs hm.length_eq hm.pairsAgree
  have hex : ∀ b ∈ bs, ∃ s ∈ pairBrackets bs indices, b = s.left ∨ b = s.right := by
    intro b hb
    rcases List.mem_append.mp (hperm.mem_iff.mpr hb) with hmem | hmem
    · obtain ⟨s, hs, rfl⟩ := List.mem_map.mp hmem
      exact ⟨s, hs, Or.inl rfl⟩
    · obtain ⟨s, hs, rfl⟩ := List.mem_map.mp hmem
      exact ⟨s, hs, Or.inr rfl⟩
  refine ⟨indices, hok, hperm, fun b hb => ?_, fun c hc p hp b hb => ?_⟩
  · obtain ⟨s, hs, hsb⟩ := hex b hb
    exact ⟨s, ⟨hs, hsb⟩, fun t ht => scope_unique hbs hm.length_eq ht.1 hs ht.2 hsb⟩
  · have hmem : b ∈ bs := by
      obtain ⟨i, j, hp⟩ := hbs.exists_pairAt hp.mem
      rcases hb with rfl | rfl
      · exact List.mem_of_getElem? hp.fst
      · exact List.mem_of_getElem? hp.snd
    obtain ⟨s, hs, hsb⟩ := hex b hmem
    exact ⟨s, hs, hsb, hm.index_eq_primary hbs hbal hc hp hb hs hsb⟩

/-- A cursor in the innermost pair of `(())()` and one in the last pair: all indices are merged into
one, the first two scopes cross, and no bracket is lost. -/
theorem pairBrackets_uses_all_crossed :
    Located nestedAndSingle ∧ Balanced nestedAndSingle ∧ [2, 5] ≠ [] ∧
      ∃ indices, mergeIndices ([2, 5].map (nestingIndices nestedAndSingle)) = .ok indices ∧
        (pairBrackets nestedAndSingle indices).map Scope.brackets =
          [(⟨.left, 0, "("⟩, ⟨.right, 2, ")"⟩), (⟨.left, 1, "("⟩, ⟨.right, 3, ")"⟩),
            (⟨.left, 4, "("⟩, ⟨.right, 5, ")"⟩)] ∧
        ∃! s, s ∈ pairBrackets nestedAndSingle indices ∧
          (⟨.right, 3, ")"⟩ = s.left ∨ ⟨.right, 3, ")"⟩ = s.right) := by
  obtain ⟨indices, hok, -, hunique, -⟩ := pairBrackets_uses_all located_nestedAndSingle
    balanced_nestedAndSingle (by decide : [2, 5] ≠ [])
  have hmerged : mergeIndices ([2, 5].map (nestingIndices nestedAndSingle)) =
      .ok (List.replicate 6 .primary) := by decide +kernel
  obtain rfl := Except.ok.inj (hok.symm.trans hmerged)
  refine ⟨located_nestedAndSingle, balanced_nestedAndSingle, by decide, _, hok, ?_,
    hunique _ (by decide)⟩
  rw [pairBrackets_eq_partners]
  decide

end BracketPaint
