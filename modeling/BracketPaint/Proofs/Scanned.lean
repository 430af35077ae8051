import Mathlib.Data.List.Sort
import BracketPaint.Proofs.Located
/-!
# Brackets from left to right

Which brackets a buffer finds in a region can be said without a walk. A bracket is found at each
offset of the region that no bracket before it covers, whose name is suitable and where some text of
a pair stands, and nowhere else; the first pair with a text there decides which one it is, its left
text before its right one (`Scanned`). A list of brackets in order of their positions is scanned in
this sense if and only if it is what the buffer finds (`brackets_leftmost`).

The rule speaks of the list itself, at the offsets before the one in question. So one direction goes
along the walk, and the other one is an induction on the offset: two such lists have the same
brackets before it, hence the same bracket at it.
-/

namespace BracketPaint

namespace Buffer

variable {b : Buffer} {pairs : List BracketPair} {suitable : String → Bool} {r : Region}
variable {bracket other : Bracket} {bs cs : List Bracket} {p q stop : Nat} {text : String}

/-- The text stands at an offset, wholly inside the buffer. -/
def StandsAt (b : Buffer) (p : Nat) (text : String) : Prop :=
  ∃ before after, b.chars.toList = before ++ text.toList ++ after ∧ before.length = p

/-- The bracket is what the pairs have at its position: it comes from the first pair that has a text
there, and is the left one if that stands there. -/
def DecidedBy (b : Buffer) (pairs : List BracketPair) (bracket : Bracket) : Prop :=
  ∃ before pair after, pairs = before ++ pair :: after ∧
    (∀ earlier ∈ before, ¬ b.StandsAt bracket.position earlier.left ∧
      ¬ b.StandsAt bracket.position earlier.right) ∧
    (bracket.side = .left ∧ bracket.text = pair.left ∧ b.StandsAt bracket.position pair.left ∨
      bracket.side = .right ∧ bracket.text = pair.right ∧
        b.StandsAt bracket.position pair.right ∧ ¬ b.StandsAt bracket.position pair.left)

/-- The offset is suitable, and some text of a pair stands there. -/
def HasBracket (b : Buffer) (pairs : List BracketPair) (suitable : String → Bool) (p : Nat) :
    Prop :=
  suitable (b.scopeName p) ∧ ∃ pair ∈ pairs, b.StandsAt p pair.left ∨ b.StandsAt p pair.right

/-- The brackets are those of a region, taken from left to right. -/
structure Scanned (b : Buffer) (pairs : List BracketPair) (suitable : String → Bool) (r : Region)
    (bs : List Bracket) : Prop where
  /-- They come in the order of their positions. -/
  ordered : bs.Pairwise fun c d => c.position < d.position
  /-- There is one at each offset of the region that has a bracket and is not covered by one before
  it, and there is none anywhere else. -/
  found_iff : ∀ p, (∃ bracket ∈ bs, bracket.position = p) ↔
    r.start ≤ p ∧ p < min r.stop b.size ∧ (∀ c ∈ bs, c.position < p → p ∉ c.region) ∧
      b.HasBracket pairs suitable p
  /-- It is the one that the first pair has there. -/
  decided : ∀ bracket ∈ bs, b.DecidedBy pairs bracket

/-! ### Texts at an offset -/

theorem hasFrom_iff {cs : List Char} : b.hasFrom p cs ↔ cs <+: b.chars.toList.drop p := by
  induction cs generalizing p with
  | nil => exact iff_of_true rfl List.nil_prefix
  | cons c cs ih =>
      rw [hasFrom, Bool.and_eq_true, ih, beq_iff_eq, ← Array.getElem?_toList, ← List.head?_drop,
        ← List.tail_drop]
      cases b.chars.toList.drop p with
      | nil => simp
      | cons d ds => simp [List.cons_prefix_cons, eq_comm]

theorem matchesAt_iff : b.matchesAt p text ↔ b.StandsAt p text := by
  have hsize : b.chars.toList.length = b.size := Array.length_toList
  rw [matchesAt, Bool.and_eq_true, decide_eq_true_eq, hasFrom_iff, ← String.length_toList]
  constructor
  · rintro ⟨hle, after, hafter⟩
    refine ⟨b.chars.toList.take p, after, ?_, ?_⟩
    · rw [List.append_assoc, hafter, List.take_append_drop]
    · rw [List.length_take]
      omega
  · rintro ⟨before, after, hchars, rfl⟩
    rw [hchars, List.length_append, List.length_append] at hsize
    refine ⟨by omega, after, ?_⟩
    rw [hchars, List.append_assoc, List.drop_left]

/-! ### The bracket at an offset -/

theorem bracketOf?_eq_some_iff {pair : BracketPair} : b.bracketOf? p pair = some bracket ↔
    bracket.position = p ∧
      (bracket.side = .left ∧ bracket.text = pair.left ∧ b.StandsAt p pair.left ∨
        bracket.side = .right ∧ bracket.text = pair.right ∧ b.StandsAt p pair.right ∧
          ¬ b.StandsAt p pair.left) := by
  obtain ⟨side, position, text⟩ := bracket
  simp only [← matchesAt_iff, bracketOf?]
  by_cases hleft : b.matchesAt p pair.left
  · rw [if_pos hleft, Option.some.injEq, Bracket.mk.injEq]
    constructor
    · rintro ⟨rfl, rfl, rfl⟩
      exact ⟨rfl, Or.inl ⟨rfl, rfl, hleft⟩⟩
    · rintro ⟨rfl, ⟨rfl, rfl, -⟩ | ⟨-, -, -, hnot⟩⟩
      · exact ⟨rfl, rfl, rfl⟩
      · exact absurd hleft hnot
  · rw [if_neg hleft]
    by_cases hright : b.matchesAt p pair.right
    · rw [if_pos hright, Option.some.injEq, Bracket.mk.injEq]
      constructor
      · rintro ⟨rfl, rfl, rfl⟩
        exact ⟨rfl, Or.inr ⟨rfl, rfl, hright, hleft⟩⟩
      · rintro ⟨rfl, ⟨-, -, hleft'⟩ | ⟨rfl, rfl, -⟩⟩
        · exact absurd hleft' hleft
        · exact ⟨rfl, rfl, rfl⟩
    · rw [if_neg hright]
      simp [hleft, hright]

theorem bracketOf?_eq_none_iff {pair : BracketPair} : b.bracketOf? p pair = none ↔
    ¬ b.StandsAt p pair.left ∧ ¬ b.StandsAt p pair.right := by
  rw [← matchesAt_iff, ← matchesAt_iff, bracketOf?]
  split_ifs <;> simp_all

theorem bracketAt?_eq_some_iff : b.bracketAt? pairs suitable p = some bracket ↔
    suitable (b.scopeName p) ∧ bracket.position = p ∧ b.DecidedBy pairs bracket := by
  rw [bracketAt?]
  split
  · rename_i hsuitable
    rw [List.findSome?_eq_some_iff]
    simp only [bracketOf?_eq_some_iff, bracketOf?_eq_none_iff]
    constructor
    · rintro ⟨before, pair, after, hpairs, ⟨rfl, hside⟩, hbefore⟩
      exact ⟨hsuitable, rfl, before, pair, after, hpairs, hbefore, hside⟩
    · rintro ⟨-, rfl, before, pair, after, hpairs, hbefore, hside⟩
      exact ⟨before, pair, after, hpairs, ⟨rfl, hside⟩, hbefore⟩
  · rename_i hsuitable
    exact iff_of_false (by simp) fun h => hsuitable h.1

theorem isSome_bracketAt?_iff :
    (b.bracketAt? pairs suitable p).isSome ↔ b.HasBracket pairs suitable p := by
  rw [bracketAt?, HasBracket]
  split
  · rename_i hsuitable
    rw [List.findSome?_isSome_iff, and_iff_right hsuitable]
    simp only [← Option.ne_none_iff_isSome, Ne, bracketOf?_eq_none_iff]
    simp only [not_and_or, not_not]
  · rename_i hsuitable
    exact iff_of_false Bool.false_ne_true fun h => hsuitable h.1

/-- The pairs have one bracket at most at an offset. -/
theorem DecidedBy.unique (h : b.DecidedBy pairs bracket) (h' : b.DecidedBy pairs other)
    (hposition : bracket.position = other.position) : bracket = other := by
  have hfound : b.bracketAt? pairs (fun _ => true) bracket.position = some bracket :=
    bracketAt?_eq_some_iff.mpr ⟨rfl, rfl, h⟩
  have hfound' : b.bracketAt? pairs (fun _ => true) bracket.position = some other :=
    bracketAt?_eq_some_iff.mpr ⟨rfl, hposition.symm, h'⟩
  exact Option.some.inj (hfound.symm.trans hfound')

/-! ### The walk -/

/-- The walk finds a bracket at each offset that has one and is not covered, and nowhere else. -/
theorem exists_mem_bracketsFrom_iff : (∃ bracket ∈ b.bracketsFrom pairs suitable p stop,
      bracket.position = q) ↔
    p ≤ q ∧ q < stop ∧
      (∀ c ∈ b.bracketsFrom pairs suitable p stop, c.position < q → q ∉ c.region) ∧
      b.HasBracket pairs suitable q := by
  fun_induction bracketsFrom b pairs suitable p stop with
  | case1 p hlt found hfound ih =>
      obtain rfl := (bracketAt?_eq_some hfound).1
      have hbehind : ∀ c ∈ b.bracketsFrom pairs suitable (found.position + max found.size 1) stop,
          found.position + max found.size 1 ≤ c.position := fun c hc =>
        position_le_of_mem_bracketsFrom hc
      simp only [List.mem_cons, exists_eq_or_imp, forall_eq_or_imp, ih]
      rcases Nat.lt_trichotomy q found.position with hbefore | rfl | hafter
      · refine iff_of_false ?_ fun h => ?_ <;> omega
      · -- At the bracket itself: nothing before it covers it.
        have hhas : b.HasBracket pairs suitable found.position :=
          isSome_bracketAt?_iff.mp (by rw [hfound]; rfl)
        refine iff_of_true (Or.inl rfl) ⟨Nat.le_refl _, hlt, ⟨?_, fun c hc hc' => ?_⟩, hhas⟩
        · exact fun h => absurd h (Nat.lt_irrefl _)
        · have := hbehind c hc
          omega
      · -- Behind it, the walk goes on where it ends.
        have hnext : found.position + max found.size 1 ≤ q ↔
            (found.position < q → q ∉ found.region) := by
          rw [Region.mem_def]
          show _ ↔ (_ → ¬ (found.position ≤ q ∧ q < found.position + found.size))
          omega
        rw [or_iff_right (Nat.ne_of_lt hafter)]
        constructor
        · rintro ⟨hle, hstop, hfree, hhas⟩
          exact ⟨Nat.le_of_lt hafter, hstop, ⟨hnext.mp hle, hfree⟩, hhas⟩
        · rintro ⟨-, hstop, ⟨hfound, hfree⟩, hhas⟩
          exact ⟨hnext.mpr hfound, hstop, hfree, hhas⟩
  | case2 p hlt hnone ih =>
      rw [ih]
      have hne : b.HasBracket pairs suitable q → p ≠ q := by
        rintro hhas rfl
        rw [← isSome_bracketAt?_iff, hnone] at hhas
        cases hhas
      constructor
      · rintro ⟨hle, hrest⟩
        exact ⟨by omega, hrest⟩
      · rintro ⟨hle, hstop, hfree, hhas⟩
        have := hne hhas
        exact ⟨by omega, hstop, hfree, hhas⟩
  | case3 p hge =>
      refine iff_of_false (by simp) fun h => ?_
      omega

theorem pairwise_position_bracketsFrom :
    (b.bracketsFrom pairs suitable p stop).Pairwise fun c d => c.position < d.position := by
  fun_induction bracketsFrom b pairs suitable p stop with
  | case1 p hlt found hfound ih =>
      refine List.pairwise_cons.mpr ⟨fun c hc => ?_, ih⟩
      have hle := position_le_of_mem_bracketsFrom hc
      rw [(bracketAt?_eq_some hfound).1]
      omega
  | case2 p hlt hnone ih => exact ih
  | case3 p hge => exact List.Pairwise.nil

/-- What a buffer finds is scanned. -/
theorem scanned_brackets (b : Buffer) (pairs : List BracketPair) (suitable : String → Bool)
    (r : Region) : b.Scanned pairs suitable r (b.brackets pairs suitable r) where
  ordered := pairwise_position_bracketsFrom
  found_iff _ := exists_mem_bracketsFrom_iff
  decided _ hmem := (bracketAt?_eq_some_iff.mp (bracketAt?_of_mem_bracketsFrom hmem).2).2.2

/-! ### Scanned lists -/

/-- If two scanned lists have the same brackets before an offset, a bracket of one list at that
offset is in the other one too. -/
theorem Scanned.mem_of_mem (hbs : b.Scanned pairs suitable r bs)
    (hcs : b.Scanned pairs suitable r cs)
    (hsame : ∀ c, c.position < bracket.position → (c ∈ bs ↔ c ∈ cs)) (hmem : bracket ∈ bs) :
    bracket ∈ cs := by
  obtain ⟨hstart, hstop, hfree, hhas⟩ := (hbs.found_iff bracket.position).mp ⟨bracket, hmem, rfl⟩
  obtain ⟨other, hother, hposition⟩ := (hcs.found_iff bracket.position).mpr
    ⟨hstart, hstop, fun c hc hlt => hfree c ((hsame c hlt).mpr hc) hlt, hhas⟩
  rwa [(hbs.decided bracket hmem).unique (hcs.decided other hother) hposition.symm]

/-- There is one scanned list for a region. -/
theorem Scanned.unique (hbs : b.Scanned pairs suitable r bs) (hcs : b.Scanned pairs suitable r cs) :
    bs = cs := by
  -- The induction is on the position, the brackets before it being the same in both lists.
  have hsame : ∀ p c, c.position = p → (c ∈ bs ↔ c ∈ cs) := by
    intro p
    induction p using Nat.strongRecOn with
    | ind p ih =>
        rintro c rfl
        have hbefore : ∀ d, d.position < c.position → (d ∈ bs ↔ d ∈ cs) := fun d hlt =>
          ih _ hlt d rfl
        exact ⟨hbs.mem_of_mem hcs hbefore, hcs.mem_of_mem hbs fun d hlt => (hbefore d hlt).symm⟩
  have : Std.Irrefl fun c d : Bracket => c.position < d.position := ⟨fun _ => Nat.lt_irrefl _⟩
  have : Std.Antisymm fun c d : Bracket => c.position < d.position :=
    ⟨fun _ _ hlt hgt => absurd hlt (Nat.lt_asymm hgt)⟩
  exact hbs.ordered.eq_of_mem_iff hcs.ordered fun c => hsame _ c rfl

/-- The brackets of a scanned list do not overlap. -/
theorem Scanned.apart (h : b.Scanned pairs suitable r bs) :
    bs.Pairwise fun c d => c.region.stop ≤ d.region.start := by
  refine h.ordered.imp_of_mem fun {c d} hc hd hlt => ?_
  obtain ⟨-, -, hfree, -⟩ := (h.found_iff d.position).mp ⟨d, hd, rfl⟩
  have hnot := hfree c hc hlt
  rw [Region.mem_def] at hnot
  show c.region.stop ≤ d.position
  have hstart : c.region.start = c.position := rfl
  omega

/-- A text that stands at an offset ends inside the buffer. -/
theorem StandsAt.le_size (h : b.StandsAt p text) : p + text.length ≤ b.size := by
  obtain ⟨before, after, hchars, rfl⟩ := h
  have hsize := congrArg List.length hchars
  rw [Array.length_toList, List.length_append, List.length_append, String.length_toList] at hsize
  rw [size]
  omega

theorem DecidedBy.standsAt (h : b.DecidedBy pairs bracket) :
    b.StandsAt bracket.position bracket.text := by
  obtain ⟨-, pair, -, -, -, ⟨-, htext, hstands⟩ | ⟨-, htext, hstands, -⟩⟩ := h
  · rwa [htext]
  · rwa [htext]

/-- **Brackets from left to right.** The brackets of a region are the only list of brackets that is
scanned from left to right, the first pair with a text at an offset deciding. They do not overlap,
they lie in the buffer, and the keys by which the place of a cursor is searched ascend. -/
theorem brackets_leftmost (b : Buffer) (pairs : List BracketPair) (suitable : String → Bool)
    (r : Region) :
    (∀ bs, b.Scanned pairs suitable r bs ↔ bs = b.brackets pairs suitable r) ∧
      ((b.brackets pairs suitable r).Pairwise fun c d => c.region.stop ≤ d.region.start) ∧
      (∀ c ∈ b.brackets pairs suitable r, c.region.stop ≤ b.size) ∧
      (b.brackets pairs suitable r).Pairwise fun c d => c.lastBefore < d.lastBefore := by
  have hscanned := b.scanned_brackets pairs suitable r
  refine ⟨fun bs => ⟨fun hbs => hbs.unique hscanned, ?_⟩, hscanned.apart, fun c hc => ?_, ?_⟩
  · rintro rfl
    exact hscanned
  · exact (hscanned.decided c hc).standsAt.le_size
  · exact (hscanned.apart.and hscanned.ordered).imp fun h => Bracket.lastBefore_lt h.1 h.2

end Buffer
end BracketPaint
