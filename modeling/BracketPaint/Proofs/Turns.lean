import BracketPaint.Proofs.Partition
/-!
# The turns of the sweep

The sweep is a loop. Each turn of it takes the first fragment from the queue and builds at most two
regions: what a longer fragment keeps, or what is done of the first fragment and what sticks out of
it behind the second one. The bounds of these regions are read off different fragments, and only the
order of the queue makes sure that none is reversed (`Queued.le_of_mem_bounds`).

A turn may put back the fragment that it took, or a new one, so the queue does not become shorter.
What it loses is `weight`, its characters and fragments together. The loop therefore ends, and what
its turns have done is what `sweep` gives (`Queued.exists_turns_nil`).
-/

namespace BracketPaint

namespace Fragment

variable {fs gs : List Fragment} {out : List Span} {r : Region} {fault : Fault} {lo hi : Nat}

/-- The bounds of the regions that a turn builds. -/
def bounds : List Fragment → List (Nat × Nat)
  | a :: b :: _ =>
    if a.extent.stop ≤ b.extent.start then []
    else if b.extent.start = a.extent.start then [(a.extent.stop, b.extent.stop)]
    else (a.extent.start, b.extent.start) ::
      if b.extent.stop < a.extent.stop then [(b.extent.stop, a.extent.stop)] else []
  | _ => []

/-- One turn of the sweep: the pieces that are done in it, and the queue that is left. -/
def turn : List Fragment → Except Fault (List Span × List Fragment)
  | [] => .ok ([], [])
  | [a] => .ok (a.piece a.extent, [])
  | a :: b :: queue =>
    if a.extent.stop ≤ b.extent.start then .ok (a.piece a.extent, b :: queue)
    else if b.extent.start = a.extent.start then
      match Region.ofBounds a.extent.stop b.extent.stop with
      | .error f => .error f
      | .ok rest =>
        if rest.IsEmpty then .ok ([], a :: queue)
        else .ok ([], a :: insert { b with extent := rest } queue)
    else
      match Region.ofBounds a.extent.start b.extent.start with
      | .error f => .error f
      | .ok head =>
        if b.extent.stop < a.extent.stop then
          match Region.ofBounds b.extent.stop a.extent.stop with
          | .error f => .error f
          | .ok tail => .ok (a.piece head, b :: insert { a with extent := tail } queue)
        else .ok (a.piece head, b :: queue)

/-- A number of turns: the pieces that are done in them, and the queue that is left. -/
def turns : Nat → List Fragment → Except Fault (List Span × List Fragment)
  | 0, fs => .ok ([], fs)
  | n + 1, fs =>
    match turn fs with
    | .error f => .error f
    | .ok (out, gs) => (turns n gs).map fun (out', hs) => (out ++ out', hs)

/-! ### One turn -/

theorem le_of_ofBounds_eq_ok (h : Region.ofBounds lo hi = .ok r) : lo ≤ hi := by
  obtain ⟨rfl, rfl⟩ := Region.ofBounds_eq_ok_iff.mp h
  exact r.start_le_stop

theorem lt_of_ofBounds_eq_error (h : Region.ofBounds lo hi = .error fault) : hi < lo := by
  refine Nat.lt_of_not_le fun hle => ?_
  rw [Region.ofBounds_of_le hle] at h
  cases h

/-- A turn goes well if and only if none of the regions that it builds is reversed. -/
theorem exists_turn_iff :
    (∃ out gs, turn fs = .ok (out, gs)) ↔ ∀ p ∈ bounds fs, p.1 ≤ p.2 := by
  fun_cases turn fs with
  | case1 => simp [bounds]
  | case2 => simp [bounds]
  | case3 a b queue hapart => simp [bounds, hapart]
  | case4 a b queue hapart hstart fault hrest =>
      have hlt := lt_of_ofBounds_eq_error hrest
      simp only [bounds, if_neg hapart, if_pos hstart, List.forall_mem_singleton, reduceCtorEq,
        exists_false, false_iff]
      omega
  | case5 a b queue hapart hstart rest hrest =>
      simp [bounds, if_neg hapart, if_pos hstart, le_of_ofBounds_eq_ok hrest]
  | case6 a b queue hapart hstart rest hrest =>
      simp [bounds, if_neg hapart, if_pos hstart, le_of_ofBounds_eq_ok hrest]
  | case7 a b queue hapart hstart fault hhead =>
      have hlt := lt_of_ofBounds_eq_error hhead
      simp only [bounds, if_neg hapart, if_neg hstart, List.forall_mem_cons, reduceCtorEq,
        exists_false, false_iff]
      omega
  | case8 a b queue hapart hstart head hhead htail fault htail' =>
      have := lt_of_ofBounds_eq_error htail'
      omega
  | case9 a b queue hapart hstart head hhead htail tail htail' =>
      simp [bounds, if_neg hapart, if_neg hstart, if_pos htail, le_of_ofBounds_eq_ok hhead,
        le_of_ofBounds_eq_ok htail']
  | case10 a b queue hapart hstart head hhead htail =>
      simp [bounds, if_neg hapart, if_neg hstart, if_neg htail, le_of_ofBounds_eq_ok hhead]

/-- One turn: it goes well, keeps the order and makes the queue lighter, and the sweep goes on with
what it leaves. -/
theorem Queued.exists_turn (h : Queued fs) (hne : fs ≠ []) :
    ∃ out gs, turn fs = .ok (out, gs) ∧ Queued gs ∧ weight gs < weight fs ∧
      sweep fs = (sweep gs).map (out ++ ·) := by
  -- The cases are the branches of the sweep, each with the queue that it leaves.
  fun_cases sweep fs with
  | case1 => exact absurd rfl hne
  | case2 a => exact ⟨_, _, rfl, h.tail, by simp [weight], by simp [sweep, Except.map]⟩
  | case3 a b queue hapart =>
      refine ⟨_, _, if_pos hapart, h.tail, ?_, rfl⟩
      rw [weight_cons a]
      omega
  | case4 a b queue hapart hstart fault hrest =>
      -- The order of the queue puts the shorter one first.
      have hle := le_def.mp (h.head_le b List.mem_cons_self)
      rw [Region.ofBounds_of_le (by omega)] at hrest
      cases hrest
  | case5 a b queue hapart hstart rest hrest hempty =>
      refine ⟨[], a :: queue, ?_, h.drop_second, ?_, ?_⟩
      · rw [turn, if_neg hapart, if_pos hstart, hrest]
        exact if_pos hempty
      · simp only [weight_cons]
        omega
      · cases sweep (a :: queue) <;> rfl
  | case6 a b queue hapart hstart rest hrest hempty =>
      obtain ⟨hstart', hstop'⟩ := Region.ofBounds_eq_ok_iff.mp hrest
      refine ⟨[], a :: Fragment.insert { b with extent := rest } queue, ?_,
        h.rest (by omega) hstart hstart', ?_, ?_⟩
      · rw [turn, if_neg hapart, if_pos hstart, hrest]
        exact if_neg hempty
      · have := rest.start_le_stop
        simp only [weight_cons, weight_insert, Region.size]
        omega
      · cases sweep (a :: Fragment.insert { b with extent := rest } queue) <;> rfl
  | case7 a b queue hapart hstart fault hhead =>
      rw [Region.ofBounds_of_le (h.start_le b List.mem_cons_self)] at hhead
      cases hhead
  | case8 a b queue hapart hstart head hhead htail tail =>
      have hle := h.start_le b List.mem_cons_self
      refine ⟨_, _, ?_, h.tail_back (r := tail) (by omega) rfl rfl htail, ?_, rfl⟩
      · rw [turn, if_neg hapart, if_neg hstart, hhead]
        dsimp only
        rw [if_pos htail, Region.ofBounds_of_le (Nat.le_of_lt htail)]
      · have := b.extent.start_le_stop
        simp only [weight_cons, weight_insert, Region.size, tail]
        omega
  | case9 a b queue hapart hstart head hhead htail =>
      refine ⟨_, _, ?_, h.tail, ?_, rfl⟩
      · rw [turn, if_neg hapart, if_neg hstart, hhead]
        exact if_neg htail
      · rw [weight_cons a]
        omega

/-- In an ordered queue, no region that a turn builds is reversed. -/
theorem Queued.le_of_mem_bounds (h : Queued fs) : ∀ p ∈ bounds fs, p.1 ≤ p.2 := by
  refine exists_turn_iff.mp ?_
  by_cases hne : fs = []
  · subst hne
    exact ⟨[], [], rfl⟩
  · obtain ⟨out, gs, hturn, -⟩ := h.exists_turn hne
    exact ⟨out, gs, hturn⟩

/-! ### A run of turns -/

theorem turns_succ (hturn : turn fs = .ok (out, gs)) (n : Nat) :
    turns (n + 1) fs = (turns n gs).map fun (out', hs) => (out ++ out', hs) := by
  rw [turns, hturn]

/-- Any number of turns goes well, and none of the regions that come next is reversed. -/
theorem Queued.exists_turns (h : Queued fs) (n : Nat) :
    ∃ out gs, turns n fs = .ok (out, gs) ∧ Queued gs := by
  induction n generalizing fs with
  | zero => exact ⟨[], fs, rfl, h⟩
  | succ n ih =>
      by_cases hne : fs = []
      · subst hne
        obtain ⟨out, gs, hok, hgs⟩ := ih h
        exact ⟨_, gs, by rw [turns_succ rfl, hok]; rfl, hgs⟩
      · obtain ⟨out, gs, hturn, hgs, -⟩ := h.exists_turn hne
        obtain ⟨out', gs', hok, hgs'⟩ := ih hgs
        exact ⟨_, gs', by rw [turns_succ hturn, hok]; rfl, hgs'⟩

/-- The turns come to an end, at most one for each unit of weight, and do what the sweep does. -/
theorem Queued.exists_turns_nil (h : Queued fs) :
    ∃ n ≤ weight fs, ∃ out, turns n fs = .ok (out, []) ∧ sweep fs = .ok out := by
  -- The induction is on the weight, which each turn makes less.
  induction hweight : weight fs using Nat.strongRecOn generalizing fs with
  | ind w ih =>
      subst hweight
      by_cases hne : fs = []
      · subst hne
        exact ⟨0, Nat.zero_le _, [], rfl, by rw [sweep]⟩
      · obtain ⟨out, gs, hturn, hgs, hlt, hsweep⟩ := h.exists_turn hne
        obtain ⟨n, hn, out', hok, hrest⟩ := ih _ hlt hgs rfl
        refine ⟨n + 1, by omega, out ++ out', ?_, ?_⟩
        · rw [turns_succ hturn, hok]
          rfl
        · rw [hsweep, hrest]
          rfl

end Fragment

/-! ### The loop over spans and lines -/

/-- The queue that the loop starts with. Without spans there is nothing to do. -/
def queueOf (spans : List Span) (lines : List Region) : List Fragment :=
  if spans.isEmpty then [] else (fragments spans lines).foldr Fragment.insert []

theorem queued_queueOf (spans : List Span) (lines : List Region) :
    Fragment.Queued (queueOf spans lines) := by
  unfold queueOf
  split
  · exact ⟨List.Pairwise.nil, by simp⟩
  · exact queued_fragments spans lines

theorem splitDisjoint_eq_sweep (spans : List Span) (lines : List Region) :
    splitDisjoint spans lines = Fragment.sweep (queueOf spans lines) := by
  unfold splitDisjoint queueOf
  split
  · rw [Fragment.sweep]
  · rfl

/-- **The sweep ends.** For all spans and lines, the loop ends after no more turns than its queue has
characters and fragments, and what has been done in them is what `splitDisjoint` gives. However many
turns it has made, none of the regions that the next one builds is reversed. -/
theorem splitDisjoint_turns (spans : List Span) (lines : List Region) :
    (∃ n ≤ Fragment.weight (queueOf spans lines), ∃ out,
      Fragment.turns n (queueOf spans lines) = .ok (out, []) ∧
        splitDisjoint spans lines = .ok out) ∧
    ∀ n, ∃ out queue, Fragment.turns n (queueOf spans lines) = .ok (out, queue) ∧
      ∀ bounds ∈ Fragment.bounds queue, bounds.1 ≤ bounds.2 := by
  have h := queued_queueOf spans lines
  constructor
  · rw [splitDisjoint_eq_sweep]
    exact h.exists_turns_nil
  · intro n
    obtain ⟨out, queue, hok, hqueue⟩ := h.exists_turns n
    exact ⟨out, queue, hok, hqueue.le_of_mem_bounds⟩

end BracketPaint
