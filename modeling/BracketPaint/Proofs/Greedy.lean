import BracketPaint.Proofs.Matching
import BracketPaint.Scope.Pairing
/-!
# The rule behind the queues

Scopes come from queues, one for each nesting index. The rule that the queues carry out is simpler
to reason about: each left bracket, in text order, takes the first right bracket behind it that has
its index and is not taken yet. `partners` is that rule, and `pairWith_eq_partners` says that the
queues follow it, for any indices whatever. What is carried along a run is `Serves`: the queue of
an index holds the right brackets that still wait under that index, in text order, behind some that
the run has gone past.

When does the rule find the pairs of a stack? Let the indices of each such pair agree. Then the
rule goes wrong only at a left bracket that has its own index met by a right bracket inside it, one
that comes before the bracket which closes it (`partners_eq_closings_iff`).
-/

namespace BracketPaint

namespace IndexedBracket

/-- The side of the bracket. -/
def side (b : IndexedBracket) : Side := b.bracket.side

/-- A right bracket under the given index that is not taken yet, the places taken being given. -/
def waits (taken : List Nat) (index : NestingIndex) (b : IndexedBracket) : Bool :=
  b.side = .right ∧ b.index = index ∧ b.place ∉ taken

theorem waits_iff {taken : List Nat} {index : NestingIndex} {b : IndexedBracket} :
    b.waits taken index ↔ b.side = .right ∧ b.index = index ∧ b.place ∉ taken := by
  simp [waits]

theorem not_waits_of_left {taken : List Nat} {index : NestingIndex} {b : IndexedBracket}
    (hb : b.side = .left) : ¬ b.waits taken index := by
  intro h
  have := (waits_iff.mp h).1
  rw [hb] at this
  cases this

/-- The scope of two brackets, with the index of the left one. -/
def scope (p : IndexedBracket × IndexedBracket) : Scope :=
  ⟨p.1.index, p.1.bracket, p.2.bracket⟩

end IndexedBracket

open IndexedBracket

/-- Every left bracket takes the first right one behind it that waits under its index. -/
def partners (taken : List Nat) : List IndexedBracket → List (IndexedBracket × IndexedBracket)
  | [] => []
  | b :: bs =>
    if b.side = .left then
      match bs.find? (waits taken b.index) with
      | none => partners taken bs
      | some r => (b, r) :: partners (r.place :: taken) bs
    else partners taken bs

section Rule

variable {taken : List Nat} {b r : IndexedBracket} {bs : List IndexedBracket}

theorem partners_left_none (hb : b.side = .left) (h : bs.find? (waits taken b.index) = none) :
    partners taken (b :: bs) = partners taken bs := by
  simp [partners, hb, h]

theorem partners_left_some (hb : b.side = .left) (h : bs.find? (waits taken b.index) = some r) :
    partners taken (b :: bs) = (b, r) :: partners (r.place :: taken) bs := by
  simp [partners, hb, h]

theorem partners_right (hb : b.side = .right) :
    partners taken (b :: bs) = partners taken bs := by
  simp [partners, hb]

end Rule

/-- A bracket is known by its place. -/
theorem eq_of_place_eq {bs : List IndexedBracket} {x y : IndexedBracket}
    (hplaces : bs.Pairwise fun x y => x.place < y.place) (hx : x ∈ bs) (hy : y ∈ bs)
    (h : x.place = y.place) : x = y := by
  have hinj : (bs.map place).Nodup := List.pairwise_map.mpr (hplaces.imp Nat.ne_of_lt)
  exact List.inj_on_of_nodup_map hinj hx hy h

/-! ### Queues -/

namespace Queues

variable {queues : Queues} {taken : List Nat} {b : IndexedBracket} {bs : List IndexedBracket}

/-- The brackets of a queue, in its order. -/
def waiting (queues : Queues) (index : NestingIndex) : List IndexedBracket := queues.getD index []

theorem waiting_insert (queues : Queues) (index v : NestingIndex) (q : List IndexedBracket) :
    waiting (queues.insert index q) v = if index = v then q else queues.waiting v := by
  unfold waiting
  rw [Std.HashMap.getD_insert]
  by_cases h : index = v
  · simp [h]
  · rw [if_neg (by simpa using h), if_neg h]

/-- At first each queue holds all right brackets under its index. -/
theorem waiting_ofList (bs : List IndexedBracket) (index : NestingIndex) :
    (ofList bs).waiting index = bs.filter (waits [] index) := by
  induction bs with
  | nil => simp [ofList, waiting]
  | cons b bs ih =>
      have hfold : ofList (b :: bs) = enqueue b (ofList bs) := rfl
      rw [hfold, List.filter_cons, ← ih]
      unfold enqueue
      by_cases hside : b.bracket.side = .right
      · rw [if_pos hside, waiting_insert]
        by_cases hindex : b.index = index
        · have hwaits : b.waits [] index := waits_iff.mpr ⟨hside, hindex, List.not_mem_nil⟩
          rw [if_pos hindex, if_pos hwaits, hindex]
          rfl
        · have hwaits : ¬ b.waits [] index := fun h => hindex (waits_iff.mp h).2.1
          rw [if_neg hindex, if_neg hwaits]
      · have hwaits : ¬ b.waits [] index := fun h => hside (waits_iff.mp h).1
        rw [if_neg hside, if_neg hwaits]

/-- The queues hold what still waits, behind brackets that the run has gone past. -/
def Serves (queues : Queues) (taken : List Nat) (bs : List IndexedBracket) : Prop :=
  ∀ index, ∃ past, queues.waiting index = past ++ bs.filter (waits taken index) ∧
    ∀ x ∈ past, ∀ y ∈ bs, x.place < y.place

theorem serves_ofList (bs : List IndexedBracket) : (ofList bs).Serves [] bs :=
  fun index => ⟨[], by rw [waiting_ofList, List.nil_append], fun _ h => absurd h List.not_mem_nil⟩

/-- Going past a left bracket that takes nothing changes nothing. -/
theorem Serves.left (h : Serves queues taken (b :: bs)) (hb : b.side = .left) :
    Serves queues taken bs := by
  intro index
  obtain ⟨past, hqueue, hpast⟩ := h index
  rw [List.filter_cons, if_neg (not_waits_of_left hb)] at hqueue
  exact ⟨past, hqueue, fun x hx y hy => hpast x hx y (List.mem_cons_of_mem _ hy)⟩

/-- A right bracket that the run goes past may stay in its queue. -/
theorem Serves.right (h : Serves queues taken (b :: bs))
    (hplace : ∀ y ∈ bs, b.place < y.place) : Serves queues taken bs := by
  intro index
  obtain ⟨past, hqueue, hpast⟩ := h index
  have hrest : ∀ x ∈ past, ∀ y ∈ bs, x.place < y.place :=
    fun x hx y hy => hpast x hx y (List.mem_cons_of_mem _ hy)
  rw [List.filter_cons] at hqueue
  by_cases hwaits : b.waits taken index
  · rw [if_pos hwaits] at hqueue
    refine ⟨past ++ [b], by rw [hqueue, List.append_assoc]; rfl, fun x hx y hy => ?_⟩
    rcases List.mem_append.mp hx with hx | hx
    · exact hrest x hx y hy
    · rw [List.mem_singleton.mp hx]
      exact hplace y hy
  · rw [if_neg hwaits] at hqueue
    exact ⟨past, hqueue, hrest⟩

/-- What a left bracket finds in its queue are the brackets behind it that wait under its index. -/
theorem Serves.dropWhile (h : Serves queues taken (b :: bs)) (hb : b.side = .left)
    (hplace : ∀ y ∈ bs, b.place < y.place) :
    (queues.waiting b.index).dropWhile (fun x => decide (x.place < b.place)) =
      bs.filter (waits taken b.index) := by
  obtain ⟨past, hqueue, hpast⟩ := h b.index
  rw [List.filter_cons, if_neg (not_waits_of_left hb)] at hqueue
  rw [hqueue, List.dropWhile_append_of_pos
    (fun x hx => decide_eq_true (hpast x hx b List.mem_cons_self))]
  cases hfilter : bs.filter (waits taken b.index) with
  | nil => rfl
  | cons r rest =>
      have hr : r ∈ bs := List.mem_of_mem_filter (hfilter ▸ List.mem_cons_self)
      exact List.dropWhile_cons_of_neg (by simpa using Nat.le_of_lt (hplace r hr))

/-- Taking the first bracket of a queue leaves the others of that queue, and all other queues. -/
theorem Serves.take {r : IndexedBracket} {rest : List IndexedBracket}
    (h : Serves queues taken (b :: bs)) (hb : b.side = .left)
    (hnodup : bs.Pairwise fun x y => x.place < y.place)
    (hfilter : bs.filter (waits taken b.index) = r :: rest) :
    Serves (queues.insert b.index rest) (r.place :: taken) bs := by
  have hr : r ∈ bs.filter (waits taken b.index) := hfilter ▸ List.mem_cons_self
  have hindex : r.index = b.index := (waits_iff.mp (List.of_mem_filter hr)).2.1
  have hmore : ∀ index, bs.filter (waits (r.place :: taken) index) =
      (bs.filter (waits taken index)).filter (fun x => decide (x.place ≠ r.place)) := by
    intro index
    rw [List.filter_filter]
    refine List.filter_congr fun x _ => ?_
    rw [Bool.eq_iff_iff, Bool.and_eq_true, waits_iff, waits_iff, decide_eq_true_eq,
      List.mem_cons, not_or]
    tauto
  intro index
  rw [waiting_insert, hmore]
  by_cases h' : b.index = index
  · subst h'
    rw [if_pos rfl, hfilter, List.filter_cons_of_neg (by simp)]
    have hlt : ∀ x ∈ rest, r.place < x.place := by
      have := hnodup.filter (waits taken b.index)
      rw [hfilter] at this
      exact (List.pairwise_cons.mp this).1
    refine ⟨[], ?_, fun _ h => absurd h List.not_mem_nil⟩
    rw [List.nil_append, List.filter_eq_self.mpr]
    intro x hx
    exact decide_eq_true (Nat.ne_of_gt (hlt x hx))
  · rw [if_neg h']
    obtain ⟨past, hqueue, hpast⟩ := h.left hb index
    refine ⟨past, hqueue.trans (congrArg _ (List.filter_eq_self.mpr fun x hx => ?_).symm), hpast⟩
    refine decide_eq_true fun hplace => h' ?_
    -- A bracket is known by its place, so this one would be the one taken.
    have hxr : x = r :=
      eq_of_place_eq hnodup (List.mem_of_mem_filter hx) (List.mem_of_mem_filter hr) hplace
    rw [← hindex, ← hxr]
    exact (waits_iff.mp (List.of_mem_filter hx)).2.1

end Queues

/-- The queues carry out the rule. -/
theorem pairWith_eq_partners {queues : Queues} {taken : List Nat} {bs : List IndexedBracket}
    (hplaces : bs.Pairwise fun x y => x.place < y.place) (h : queues.Serves taken bs) :
    pairWith queues bs = (partners taken bs).map scope := by
  induction bs generalizing queues taken with
  | nil => rfl
  | cons b bs ih =>
      obtain ⟨hplace, hrest⟩ := List.pairwise_cons.mp hplaces
      rw [pairWith]
      cases hb : b.bracket.side with
      | right =>
          rw [if_neg (by decide), partners_right hb]
          exact ih hrest (h.right hplace)
      | left =>
          rw [if_pos rfl]
          -- The head of the queue is the first bracket that waits behind this one.
          have hqueue := h.dropWhile hb hplace
          unfold Queues.waiting at hqueue
          rw [hqueue]
          have hfind : bs.find? (waits taken b.index) =
              (bs.filter (waits taken b.index)).head? := List.head?_filter.symm
          cases hfilter : bs.filter (waits taken b.index) with
          | nil =>
              rw [hfilter] at hfind
              rw [partners_left_none hb hfind]
              exact ih hrest (h.left hb)
          | cons r rest =>
              rw [hfilter] at hfind
              rw [partners_left_some hb hfind, List.map_cons]
              exact congrArg _ (ih hrest (h.take hb hrest hfilter))

/-! ### The rule and the stack -/

/-- No right bracket inside a left one has its index. -/
def Unmistakable : List IndexedBracket → Prop
  | [] => True
  | b :: bs =>
    (b.side = .left → ∀ x ∈ inside side 0 bs, x.side = .right → x.index ≠ b.index) ∧
      Unmistakable bs

/-- What `Unmistakable` says of places. -/
theorem unmistakable_iff {bs : List IndexedBracket} :
    Unmistakable bs ↔ ∀ i j b x, i < j → bs[i]? = some b → bs[j]? = some x → b.side = .left →
      x.side = .right → (between side bs (i + 1) (j + 1)).unopened = 0 → x.index ≠ b.index := by
  induction bs with
  | nil => simp [Unmistakable]
  | cons b bs ih =>
      rw [Unmistakable, ih]
      constructor
      · rintro ⟨hhead, htail⟩ i j c x hij hc hx hleft hright hopen
        obtain ⟨j, rfl⟩ : ∃ k, j = k + 1 := ⟨j - 1, by omega⟩
        cases i with
        | zero =>
            obtain rfl : b = c := by simpa using hc
            exact hhead hleft x (mem_inside_iff.mpr ⟨j, hx, Nat.le_of_eq hopen⟩) hright
        | succ i => exact htail i j c x (by omega) hc hx hleft hright hopen
      · intro h
        refine ⟨fun hleft x hx hright => ?_, fun i j c x hij hc hx hleft hright hopen => ?_⟩
        · obtain ⟨j, hj, hopen⟩ := mem_inside_iff.mp hx
          exact h 0 (j + 1) b x (Nat.succ_pos j) rfl hj hleft hright (Nat.le_zero.mp hopen)
        · exact h (i + 1) (j + 1) c x (by omega) hc hx hleft hright hopen

theorem mem_of_mem_partners {taken : List Nat} {bs : List IndexedBracket}
    {p : IndexedBracket × IndexedBracket} (h : p ∈ partners taken bs) : p.1 ∈ bs ∧ p.2 ∈ bs := by
  fun_induction partners taken bs with
  | case1 => cases h
  | case2 taken b bs _ _ ih => exact (ih h).imp (List.mem_cons_of_mem _) (List.mem_cons_of_mem _)
  | case3 taken b bs _ r hfind ih =>
      rcases List.mem_cons.mp h with rfl | h
      · exact ⟨List.mem_cons_self, List.mem_cons_of_mem _ (List.mem_of_find?_eq_some hfind)⟩
      · exact (ih h).imp (List.mem_cons_of_mem _) (List.mem_cons_of_mem _)
  | case4 taken b bs _ ih => exact (ih h).imp (List.mem_cons_of_mem _) (List.mem_cons_of_mem _)

/-- The rule puts a left bracket together with a right one behind it that has its index. -/
theorem partner_of_mem_partners {taken : List Nat} {bs : List IndexedBracket}
    {p : IndexedBracket × IndexedBracket} (hplaces : bs.Pairwise fun x y => x.place < y.place)
    (h : p ∈ partners taken bs) :
    p.1.side = .left ∧ p.2.side = .right ∧ p.2.index = p.1.index ∧ p.1.place < p.2.place := by
  fun_induction partners taken bs with
  | case1 => cases h
  | case2 taken b bs _ _ ih => exact ih hplaces.of_cons h
  | case3 taken b bs hb r hfind ih =>
      rcases List.mem_cons.mp h with rfl | h
      · obtain ⟨hside, hindex, -⟩ := waits_iff.mp (List.find?_some hfind)
        exact ⟨hb, hside, hindex,
          List.rel_of_pairwise_cons hplaces (List.mem_of_find?_eq_some hfind)⟩
      · exact ih hplaces.of_cons h
  | case4 taken b bs _ ih => exact ih hplaces.of_cons h

section Stack

variable {taken : List Nat} {b r : IndexedBracket} {bs : List IndexedBracket}

/-- A left bracket finds the bracket that closes it if no right bracket inside has its index. -/
theorem find?_waits_eq_closer? (hclose : ∀ r ∈ closer? side 0 bs, r.index = b.index)
    (hfree : ∀ r ∈ closer? side 0 bs, r.place ∉ taken)
    (hinside : ∀ x ∈ inside side 0 bs, x.side = .right → x.index ≠ b.index) :
    bs.find? (waits taken b.index) = closer? side 0 bs := by
  have hnone : (inside side 0 bs).find? (waits taken b.index) = none := by
    rw [List.find?_eq_none]
    intro x hx hwaits
    obtain ⟨hside, hindex, -⟩ := waits_iff.mp hwaits
    exact hinside x hx hside hindex
  cases hcloser : closer? side 0 bs with
  | none => rwa [inside_eq_self hcloser] at hnone
  | some r =>
      obtain ⟨rest, hrest⟩ := exists_eq_inside_append hcloser
      obtain ⟨j, -, hside, -⟩ := closer?_eq_some_iff.mp hcloser
      have hwaits : r.waits taken b.index :=
        waits_iff.mpr ⟨hside, hclose r hcloser, hfree r hcloser⟩
      rw [hrest, List.find?_append, hnone, List.find?_cons_of_pos hwaits]
      rfl

/-- If a left bracket finds the bracket that closes it, no right bracket inside has its index. -/
theorem index_ne_of_find?_waits (hplaces : bs.Pairwise fun x y => x.place < y.place)
    (h : bs.find? (waits taken b.index) = closer? side 0 bs)
    (hfree : ∀ p ∈ closings side bs, p.2.place ∉ taken) {x : IndexedBracket}
    (hx : x ∈ inside side 0 bs) (hside : x.side = .right) : x.index ≠ b.index := by
  intro hindex
  have hmatched : ∃ y, (y, x) ∈ closings side bs := by
    rcases closes_of_mem_inside hx hside with hy | ⟨k, hk, -⟩
    · exact hy
    · exact absurd hk (Nat.not_lt_zero k)
  obtain ⟨y, hy⟩ := hmatched
  have hwaits : x.waits taken b.index := waits_iff.mpr ⟨hside, hindex, hfree _ hy⟩
  cases hcloser : closer? side 0 bs with
  | none =>
      rw [hcloser, List.find?_eq_none] at h
      rw [inside_eq_self hcloser] at hx
      exact h x hx hwaits
  | some r =>
      -- The search stops at `x` or before it, and `r` comes behind.
      obtain ⟨rest, hrest⟩ := exists_eq_inside_append hcloser
      rw [hcloser, hrest, List.find?_append] at h
      cases hfind : (inside side 0 bs).find? (waits taken b.index) with
      | none => exact List.find?_eq_none.mp hfind x hx hwaits
      | some z =>
          rw [hfind] at h
          obtain rfl : z = r := Option.some.inj h
          rw [hrest] at hplaces
          have := (List.pairwise_append.mp hplaces).2.2 z (List.mem_of_find?_eq_some hfind) z
            List.mem_cons_self
          exact Nat.lt_irrefl _ this

/-- The bracket that closes one further out closes none of the brackets here. -/
theorem place_ne_of_closer? (hplaces : bs.Pairwise fun x y => x.place < y.place)
    (hcloser : closer? side 0 bs = some r) {p : IndexedBracket × IndexedBracket}
    (hp : p ∈ closings side bs) : p.2.place ≠ r.place := by
  intro hplace
  obtain ⟨k, hk, -, hres⟩ := closer?_eq_some_iff.mp hcloser
  obtain ⟨i, j, hij, hl, hr, hleft, -, hone⟩ := mem_closings_iff.mp hp
  have hpr : p.2 = r :=
    eq_of_place_eq hplaces (List.mem_of_getElem? hr) (List.mem_of_getElem? hk) hplace
  have hnodup : bs.Nodup := hplaces.imp fun hlt heq => Nat.ne_of_lt hlt (congrArg place heq)
  have hjk : j = k := by
    refine (List.getElem?_inj (List.getElem?_eq_some_iff.mp hr).1 hnodup).mp ?_
    rw [hr, hk, hpr]
  subst hjk
  have hsplit : between side bs 0 i * between side bs i j = between side bs 0 j :=
    between_mul (Nat.zero_le i) (Nat.le_of_lt hij)
  have hside : (bs[i]?).map side = some .left := by rw [hl, Option.map_some, hleft]
  rw [between_eq_mul hside hij, hone, mul_one, hres] at hsplit
  have := congrArg Residue.unclosed hsplit
  simp only [Residue.unclosed_mul, Side.residue_left] at this
  omega

/-- The first bracket, if it is a left one, and then the others. -/
theorem partners_left_eq_iff (hplaces : (b :: bs).Pairwise fun x y => x.place < y.place)
    (hb : b.side = .left) :
    partners taken (b :: bs) = closings side (b :: bs) ↔
      bs.find? (waits taken b.index) = closer? side 0 bs ∧
        partners (((closer? side 0 bs).map place).toList ++ taken) bs = closings side bs := by
  have hlt := (List.pairwise_cons.mp hplaces).1
  have hnotin : b ∉ bs := fun h => Nat.lt_irrefl _ (hlt b h)
  rw [closings_left hb]
  cases hfind : bs.find? (waits taken b.index) with
  | none =>
      rw [partners_left_none hb hfind]
      cases hcloser : closer? side 0 bs with
      | none => simp
      | some r =>
          refine iff_of_false (fun h => hnotin ?_) (fun h => by cases h.1)
          have hmem : (b, r) ∈ partners taken bs := by
            rw [h]
            exact List.mem_cons_self
          exact (mem_of_mem_partners hmem).1
  | some z =>
      rw [partners_left_some hb hfind]
      cases hcloser : closer? side 0 bs with
      | none =>
          refine iff_of_false (fun h => hnotin ?_) (fun h => by cases h.1)
          have hmem : (b, z) ∈ closings side bs := by
            rw [Option.map_none, Option.toList_none, List.nil_append] at h
            rw [← h]
            exact List.mem_cons_self
          exact closings_fst_sublist.subset (List.mem_map_of_mem (f := Prod.fst) hmem)
      | some r =>
          constructor
          · intro h
            obtain ⟨hhead, htail⟩ := List.cons.inj h
            obtain rfl : z = r := (Prod.mk.inj hhead).2
            exact ⟨rfl, htail⟩
          · intro hex
            obtain ⟨hz, htail⟩ := hex
            obtain rfl := Option.some.inj hz
            exact congrArg _ htail

/-- Where the indices of each pair agree, the rule finds the pairs of a stack exactly if no left
bracket can mistake a right bracket inside for its own. -/
theorem partners_eq_closings_iff (hplaces : bs.Pairwise fun x y => x.place < y.place)
    (hclose : ∀ p ∈ closings side bs, p.2.index = p.1.index)
    (hfree : ∀ p ∈ closings side bs, p.2.place ∉ taken) :
    partners taken bs = closings side bs ↔ Unmistakable bs := by
  induction bs generalizing taken with
  | nil => exact iff_of_true rfl trivial
  | cons b bs ih =>
      have hrest := (List.pairwise_cons.mp hplaces).2
      cases hb : b.side with
      | right =>
          rw [closings_right hb] at hclose hfree ⊢
          rw [partners_right hb, ih hrest hclose hfree, Unmistakable]
          simp [hb]
      | left =>
          rw [closings_left hb] at hclose hfree
          have hclose' : ∀ p ∈ closings side bs, p.2.index = p.1.index :=
            fun p hp => hclose p (List.mem_append_right _ hp)
          have hfree' : ∀ p ∈ closings side bs, p.2.place ∉ taken :=
            fun p hp => hfree p (List.mem_append_right _ hp)
          have hown : ∀ r ∈ closer? side 0 bs, (b, r) ∈ ((closer? side 0 bs).map (b, ·)).toList :=
            fun r hr => by rw [hr]; exact List.mem_cons_self
          have htail : partners (((closer? side 0 bs).map place).toList ++ taken) bs =
              closings side bs ↔ Unmistakable bs := by
            refine ih hrest hclose' fun p hp hmem => ?_
            rcases List.mem_append.mp hmem with hmem | hmem
            · rw [Option.mem_toList, Option.map_eq_some_iff] at hmem
              obtain ⟨r, hcloser, hplace⟩ := hmem
              exact place_ne_of_closer? hrest hcloser hp hplace.symm
            · exact hfree' p hp hmem
          rw [partners_left_eq_iff hplaces hb, htail, Unmistakable]
          refine and_congr_left fun _ => ⟨fun hfind _ x hx hside => ?_, fun hfree'' => ?_⟩
          · exact index_ne_of_find?_waits hrest hfind hfree' hx hside
          · exact find?_waits_eq_closer?
              (fun r hr => hclose (b, r) (List.mem_append_left _ (hown r hr)))
              (fun r hr => hfree (b, r) (List.mem_append_left _ (hown r hr))) (hfree'' hb)

end Stack

end BracketPaint
