import Mathlib.Data.List.Pairwise
import BracketPaint.Proofs.Formed
import BracketPaint.Proofs.Nested
/-!
# The layers below a scope

The spans of a scope lie on the layers of a stack of scopes. The stack is only ever popped from its
top, and only where the next painted scope starts behind the end of the topmost one, so it is not
plain what it holds. It holds the scopes painted as a whole that **lead** to the place where the
scope starts: from their end on to that place, every character lies in a scope painted as a whole
that starts no earlier (`under`). A scope that goes on at that place leads there, since no character
lies between.

Around a scope lie the scopes painted as a whole that contain it (`around`). They lead to it. Other
scopes lead to it exactly if a scope painted as a whole stops where the scope, or a scope around it,
starts (`colorScopes_layers`): scopes that meet without a gap are not told from nested ones.
-/

namespace BracketPaint

variable {config : Configuration} {supported : List BracketPair} {cursors : List Nat}
variable {s : Scope} {scopes before : List Scope} {t u : PaintedScope}
variable {wholes stack later : List PaintedScope} {r : Region} {lo p q : Nat}

/-! ### What is painted of a scope -/

/-- The region and the role of a scope that is painted at all. -/
def Scope.painted? (config : Configuration) (supported : List BracketPair) (cursors : List Nat)
    (s : Scope) : Option PaintedScope :=
  match Role.ofScope supported cursors s, s.expressionRegion with
  | .ok role, .ok region =>
    if s.isSuitable config cursors role ∧ config.modes.get role.kind ≠ .none then
      some ⟨region, role⟩
    else none
  | _, _ => none

/-- The painted scope is painted as a whole. -/
def PaintedScope.IsWhole (config : Configuration) (t : PaintedScope) : Prop :=
  config.modes.get t.role.kind = .expression

instance : Decidable (t.IsWhole config) :=
  inferInstanceAs (Decidable (config.modes.get t.role.kind = .expression))

/-- The scopes that are painted as a whole, in order. -/
def wholesOf (config : Configuration) (supported : List BracketPair) (cursors : List Nat)
    (scopes : List Scope) : List PaintedScope :=
  (scopes.filterMap (Scope.painted? config supported cursors)).filter
    fun t => decide (t.IsWhole config)

/-- The spans of a scope that lies on the given layers. -/
def Scope.spansOn (config : Configuration) (supported : List BracketPair) (cursors : List Nat)
    (layers : List Layer) (s : Scope) : List Span :=
  match s.painted? config supported cursors with
  | some t =>
    (s.extents t.region (config.modes.get t.role.kind)).map fun extent => ⟨extent, t.role, layers⟩
  | none => []

/-- The scopes of the stack behind a painted scope. -/
def stackBehind (config : Configuration) (t : PaintedScope) (stack : List PaintedScope) :
    List PaintedScope :=
  if t.IsWhole config then t :: notLeft t.region stack else notLeft t.region stack

theorem Scope.start_of_painted? (h : s.painted? config supported cursors = some t) :
    s.expressionRegion = .ok t.region ∧ t.region.start = s.left.position ∧
      t.region.stop = s.right.region.stop := by
  unfold painted? at h
  split at h
  · rename_i role region hrole hregion
    split at h
    · obtain rfl := Option.some.inj h
      exact ⟨hregion, Region.ofBounds_eq_ok_iff.mp hregion⟩
    · cases h
  · cases h

/-- A scope that is painted gives its spans, and goes on the stack if it is painted as a whole. -/
theorem colorFrom_of_painted (h : s.painted? config supported cursors = some t)
    (stack : List PaintedScope) (scopes : List Scope) :
    colorFrom config supported cursors stack (s :: scopes) =
      (colorFrom config supported cursors (stackBehind config t stack) scopes).map
        (s.spansOn config supported cursors (layersOf (notLeft t.region stack)) ++ ·) := by
  rw [Scope.spansOn, h]
  unfold Scope.painted? at h
  split at h
  · rename_i role region hrole hregion
    split at h
    · rename_i hpainted
      obtain rfl := Option.some.inj h
      simp only [colorFrom, hrole, hregion, bind, Except.bind]
      rw [if_pos hpainted]
      rfl
    · cases h
  · cases h

/-- A scope that is not painted neither pushes nor pops. -/
theorem colorFrom_of_not_painted {role : Role}
    (hrole : Role.ofScope supported cursors s = .ok role) (hregion : s.expressionRegion = .ok r)
    (h : s.painted? config supported cursors = none) (stack : List PaintedScope)
    (scopes : List Scope) :
    colorFrom config supported cursors stack (s :: scopes) =
      colorFrom config supported cursors stack scopes := by
  unfold Scope.painted? at h
  rw [hrole, hregion] at h
  dsimp only at h
  split at h
  · cases h
  · rename_i hpainted
    simp only [colorFrom, hrole, bind, Except.bind]
    rw [if_neg hpainted]

/-! ### What the stack holds -/

/-- From the end of a scope up to a place, every character lies in a scope of the list that starts
no earlier. -/
def LeadsTo (wholes : List PaintedScope) (t : PaintedScope) (p : Nat) : Prop :=
  ∀ q < p, t.region.stop ≤ q → ∃ u ∈ wholes, t.region.start ≤ u.region.start ∧ q ∈ u.region

instance : Decidable (LeadsTo wholes t p) :=
  inferInstanceAs (Decidable (∀ q < p, t.region.stop ≤ q →
    ∃ u ∈ wholes, t.region.start ≤ u.region.start ∧ q ∈ u.region))

/-- The scopes that start before a place and lead to it. -/
def under (wholes : List PaintedScope) (p : Nat) : List PaintedScope :=
  wholes.filter fun t => decide (t.region.start < p ∧ LeadsTo wholes t p)

/-- The other scopes that contain a region. -/
def around (wholes : List PaintedScope) (r : Region) : List PaintedScope :=
  wholes.filter fun t => decide (t.region ≠ r ∧ t.region.Contains r)

theorem leadsTo_of_le (h : p ≤ t.region.stop) : LeadsTo wholes t p := by
  intro q hq hstop
  omega

/-- Scopes that start at the place or behind it do not matter. -/
theorem under_append (hbefore : ∀ t ∈ wholes, t.region.start < p)
    (hlater : ∀ t ∈ later, p ≤ t.region.start) :
    under (wholes ++ later) p = wholes.filter fun t => decide (LeadsTo wholes t p) := by
  have hnone : later.filter (fun t =>
      decide (t.region.start < p ∧ LeadsTo (wholes ++ later) t p)) = [] := by
    rw [List.filter_eq_nil_iff]
    intro t ht hlead
    have := hlater t ht
    have := (of_decide_eq_true hlead).1
    omega
  rw [under, List.filter_append, hnone, List.append_nil]
  refine List.filter_congr fun t ht => decide_eq_decide.mpr ?_
  rw [and_iff_right (hbefore t ht)]
  refine forall_congr' fun q => forall_congr' fun hq => forall_congr' fun _ => ?_
  constructor
  · rintro ⟨u, hu, hle, hmem⟩
    rcases List.mem_append.mp hu with hu | hu
    · exact ⟨u, hu, hle, hmem⟩
    · have := hlater u hu
      have := (Region.mem_def.mp hmem).1
      omega
  · rintro ⟨u, hu, hle, hmem⟩
    exact ⟨u, List.mem_append_left _ hu, hle, hmem⟩

/-- From some place on, what is not left of the stack are the scopes that lead to the place. -/
def Keeps (stack wholes : List PaintedScope) (lo : Nat) : Prop :=
  ∀ p, lo ≤ p → (stack.dropWhile (·.region.stop < p)).reverse =
    wholes.filter fun t => decide (LeadsTo wholes t p)

theorem keeps_nil (lo : Nat) : Keeps [] [] lo := by
  intro p _
  rfl

theorem Keeps.mono {hi : Nat} (h : Keeps stack wholes lo) (hle : lo ≤ hi) : Keeps stack wholes hi :=
  fun p hp => h p (Nat.le_trans hle hp)

/-- What is left at an earlier place is left at a later one. -/
theorem dropWhile_notLeft (hle : r.start ≤ p) (stack : List PaintedScope) :
    (notLeft r stack).dropWhile (·.region.stop < p) = stack.dropWhile (·.region.stop < p) := by
  induction stack with
  | nil => rfl
  | cons t stack ih =>
      by_cases hleft : t.region.stop < r.start
      · have hleft' : t.region.stop < p := by omega
        simpa [notLeft, hleft, hleft'] using ih
      · simp [notLeft, hleft]

/-- A scope that is left leads nowhere. -/
theorem not_leadsTo_of_left (hstart : ∀ u ∈ wholes, u.region.start < t.region.start)
    (hleft : t.region.stop < p) : ¬ LeadsTo (wholes ++ [t]) t p := by
  intro hlead
  obtain ⟨u, hu, hge, hmem⟩ := hlead _ hleft (Nat.le_refl _)
  rw [Region.mem_def] at hmem
  rcases List.mem_append.mp hu with hu | hu
  · have := hstart u hu
    omega
  · rw [List.mem_singleton.mp hu] at hmem
    omega

/-- A scope that is left is no help to the others: what goes on where it stops covers it. -/
theorem leadsTo_append_iff_of_left (hstart : ∀ u ∈ wholes, u.region.start < t.region.start)
    (hleft : t.region.stop < p) : LeadsTo (wholes ++ [t]) u p ↔ LeadsTo wholes u p := by
  refine ⟨fun hlead q hq hstop => ?_, fun hlead q hq hstop => ?_⟩
  · obtain ⟨v, hv, hge, hmem⟩ := hlead q hq hstop
    rcases List.mem_append.mp hv with hv | hv
    · exact ⟨v, hv, hge, hmem⟩
    · rw [List.mem_singleton.mp hv, Region.mem_def] at hmem
      obtain ⟨w, hw, hge', hmem'⟩ := hlead t.region.stop hleft (by omega)
      rw [Region.mem_def] at hmem'
      rcases List.mem_append.mp hw with hw | hw
      · have := hstart w hw
        exact ⟨w, hw, hge', Region.mem_def.mpr (by omega)⟩
      · rw [List.mem_singleton.mp hw] at hmem'
        omega
  · obtain ⟨v, hv, hge, hmem⟩ := hlead q hq hstop
    exact ⟨v, List.mem_append_left _ hv, hge, hmem⟩

/-- As long as a scope is not left, those lead on that lead to its start. -/
theorem leadsTo_append_iff_of_le (hle : t.region.start ≤ p) (hstop : p ≤ t.region.stop)
    (hlt : u.region.start < t.region.start) :
    LeadsTo (wholes ++ [t]) u p ↔ LeadsTo wholes u t.region.start := by
  refine ⟨fun hlead q hq hge => ?_, fun hlead q hq hge => ?_⟩
  · obtain ⟨v, hv, hle', hmem⟩ := hlead q (by omega) hge
    rcases List.mem_append.mp hv with hv | hv
    · exact ⟨v, hv, hle', hmem⟩
    · rw [List.mem_singleton.mp hv, Region.mem_def] at hmem
      omega
  · by_cases hbefore : q < t.region.start
    · obtain ⟨v, hv, hle', hmem⟩ := hlead q hbefore hge
      exact ⟨v, List.mem_append_left _ hv, hle', hmem⟩
    · exact ⟨t, List.mem_append_right _ List.mem_cons_self, Nat.le_of_lt hlt,
        Region.mem_def.mpr (by omega)⟩

/-- A scope that is painted at its brackets only takes off what is left where it starts. -/
theorem Keeps.notLeft (h : Keeps stack wholes lo) (hle : lo ≤ r.start) :
    Keeps (notLeft r stack) wholes r.start := by
  intro p hp
  rw [dropWhile_notLeft hp]
  exact h p (Nat.le_trans hle hp)

/-- A scope that is painted as a whole goes on top of what is not left where it starts. -/
theorem Keeps.push (h : Keeps stack wholes lo) (hle : lo ≤ t.region.start)
    (hstart : ∀ u ∈ wholes, u.region.start < t.region.start) :
    Keeps (t :: BracketPaint.notLeft t.region stack) (wholes ++ [t]) t.region.start := by
  intro p hp
  rw [List.filter_append, List.filter_singleton]
  by_cases hleft : t.region.stop < p
  · have hothers : wholes.filter (fun u => decide (LeadsTo (wholes ++ [t]) u p)) =
        wholes.filter fun u => decide (LeadsTo wholes u p) :=
      List.filter_congr fun u _ => decide_eq_decide.mpr (leadsTo_append_iff_of_left hstart hleft)
    rw [List.dropWhile_cons_of_pos (by simpa using hleft), dropWhile_notLeft hp,
      h p (Nat.le_trans hle hp), hothers, decide_eq_false (not_leadsTo_of_left hstart hleft)]
    exact (List.append_nil _).symm
  · have hstop : p ≤ t.region.stop := Nat.le_of_not_lt hleft
    have hothers : wholes.filter (fun u => decide (LeadsTo (wholes ++ [t]) u p)) =
        wholes.filter fun u => decide (LeadsTo wholes u t.region.start) :=
      List.filter_congr fun u hu => decide_eq_decide.mpr
        (leadsTo_append_iff_of_le hp hstop (hstart u hu))
    rw [List.dropWhile_cons_of_neg (by simpa using hstop), List.reverse_cons, hothers,
      decide_eq_true (leadsTo_of_le hstop), ← h t.region.start hle]
    rfl

/-! ### The layers of all scopes -/

theorem mem_wholesOf : t ∈ wholesOf config supported cursors scopes ↔
    ∃ s ∈ scopes, s.painted? config supported cursors = some t ∧ t.IsWhole config := by
  rw [wholesOf, List.mem_filter, List.mem_filterMap, decide_eq_true_iff]
  constructor
  · rintro ⟨⟨s, hs, ht⟩, hwhole⟩
    exact ⟨s, hs, ht, hwhole⟩
  · rintro ⟨s, hs, ht, hwhole⟩
    exact ⟨⟨s, hs, ht⟩, hwhole⟩

theorem wholesOf_append (scopes later : List Scope) :
    wholesOf config supported cursors (scopes ++ later) =
      wholesOf config supported cursors scopes ++ wholesOf config supported cursors later := by
  rw [wholesOf, List.filterMap_append, List.filter_append]
  rfl

/-- The stack behind a scope keeps what the stack before it kept, and the scope itself. -/
theorem Keeps.behind (h : Keeps stack (wholesOf config supported cursors before) lo)
    (hpainted : s.painted? config supported cursors = some t) (hle : lo ≤ s.left.position)
    (hstart : ∀ u ∈ wholesOf config supported cursors before,
      u.region.start < s.left.position) :
    Keeps (stackBehind config t stack) (wholesOf config supported cursors (before ++ [s]))
      s.left.position := by
  obtain ⟨-, hposition, -⟩ := Scope.start_of_painted? hpainted
  rw [← hposition] at hle hstart ⊢
  rw [stackBehind, wholesOf_append, wholesOf, wholesOf, List.filterMap_cons_some hpainted,
    List.filterMap_nil, List.filter_singleton]
  by_cases hwhole : t.IsWhole config
  · rw [if_pos hwhole, decide_eq_true hwhole]
    exact h.push hle hstart
  · rw [if_neg hwhole, decide_eq_false hwhole]
    simp only [Bool.cond_false, List.append_nil]
    exact h.notLeft hle

/-- The layers of the scopes that lead to a place. -/
def layersUnder (wholes : List PaintedScope) (p : Nat) : List Layer :=
  (under wholes p).map fun t => .scope t.role

theorem start_lt_of_mem_wholesOf (hlt : ∀ s' ∈ before, s'.left.position < p) :
    ∀ t ∈ wholesOf config supported cursors before, t.region.start < p := by
  intro t ht
  obtain ⟨s', hs', hpainted, -⟩ := mem_wholesOf.mp ht
  rw [(Scope.start_of_painted? hpainted).2.1]
  exact hlt s' hs'

/-- The scopes that come behind others lie on the layers that lead to them. -/
theorem colorFrom_eq (hroles : ∀ s ∈ scopes, ∃ role, Role.ofScope supported cursors s = .ok role)
    (hregions : ∀ s ∈ scopes, ∃ r, s.expressionRegion = .ok r)
    (horder : (before ++ scopes).Pairwise fun s t => s.left.position < t.left.position)
    (hlo : ∀ s ∈ scopes, lo ≤ s.left.position)
    (hkeeps : Keeps stack (wholesOf config supported cursors before) lo) :
    colorFrom config supported cursors stack scopes = .ok (scopes.flatMap fun s =>
      s.spansOn config supported cursors
        (layersUnder (wholesOf config supported cursors (before ++ scopes)) s.left.position)) := by
  induction scopes generalizing before stack lo with
  | nil => rfl
  | cons s scopes ih =>
      obtain ⟨role, hrole⟩ := hroles s List.mem_cons_self
      obtain ⟨r, hregion⟩ := hregions s List.mem_cons_self
      have hsplit : before ++ s :: scopes = before ++ [s] ++ scopes := by simp
      obtain ⟨-, hbehind, hbetween⟩ := List.pairwise_append.mp horder
      have hbefore : ∀ t ∈ wholesOf config supported cursors before,
          t.region.start < s.left.position :=
        start_lt_of_mem_wholesOf fun s' hs' => hbetween s' hs' s List.mem_cons_self
      have hlater : ∀ s' ∈ scopes, s.left.position ≤ s'.left.position := fun s' hs' =>
        Nat.le_of_lt (List.rel_of_pairwise_cons hbehind hs')
      have ih' : ∀ stack', Keeps stack' (wholesOf config supported cursors (before ++ [s]))
          s.left.position → colorFrom config supported cursors stack' scopes =
            .ok (scopes.flatMap fun s' => s'.spansOn config supported cursors (layersUnder
              (wholesOf config supported cursors (before ++ [s] ++ scopes)) s'.left.position)) :=
        fun stack' hkeeps' => ih (fun s hs => hroles s (List.mem_cons_of_mem _ hs))
          (fun s hs => hregions s (List.mem_cons_of_mem _ hs)) (hsplit ▸ horder) hlater hkeeps'
      cases hpainted : s.painted? config supported cursors with
      | none =>
          have hwholes : wholesOf config supported cursors (before ++ [s]) =
              wholesOf config supported cursors before := by
            rw [wholesOf, List.filterMap_append, List.filterMap_cons_none hpainted,
              List.filterMap_nil, List.append_nil]
            rfl
          rw [colorFrom_of_not_painted hrole hregion hpainted,
            ih' stack (hwholes ▸ hkeeps.mono (hlo s List.mem_cons_self)), List.flatMap_cons,
            Scope.spansOn, hpainted, hsplit]
          rfl
      | some t =>
          obtain ⟨-, hposition, -⟩ := Scope.start_of_painted? hpainted
          have hlayers : layersOf (notLeft t.region stack) = layersUnder
              (wholesOf config supported cursors (before ++ s :: scopes)) s.left.position := by
            have hlater' : ∀ u ∈ wholesOf config supported cursors (s :: scopes),
                s.left.position ≤ u.region.start := by
              intro u hu
              obtain ⟨s', hs', hpainted', -⟩ := mem_wholesOf.mp hu
              rw [(Scope.start_of_painted? hpainted').2.1]
              rcases List.mem_cons.mp hs' with rfl | hs'
              · exact Nat.le_refl _
              · exact hlater s' hs'
            rw [layersUnder, wholesOf_append, under_append hbefore hlater', layersOf,
              ← hkeeps _ (hlo s List.mem_cons_self), notLeft, hposition]
          rw [colorFrom_of_painted hpainted, hlayers,
            ih' _ (hkeeps.behind hpainted (hlo s List.mem_cons_self) hbefore), List.flatMap_cons,
            hsplit]
          rfl

/-! ### Scopes that are nested or apart -/

/-- The scopes come in the order of their left brackets, and of any two of them one lies in the
other, or they have no character in common. None of them is empty. -/
structure NestedInOrder (scopes : List Scope) : Prop where
  start_lt_stop : ∀ s ∈ scopes, s.left.position < s.right.region.stop
  order : scopes.Pairwise fun s t => s.left.position < t.left.position
  nested_or_apart : scopes.Pairwise fun s t =>
    s.right.region.stop ≤ t.left.position ∨ t.right.region.stop ≤ s.right.region.stop

/-- The region of one of the scopes. -/
def IsRegionOf (scopes : List Scope) (r : Region) : Prop :=
  ∃ s ∈ scopes, s.expressionRegion = .ok r

theorem isRegionOf_of_mem_wholesOf (ht : t ∈ wholesOf config supported cursors scopes) :
    IsRegionOf scopes t.region := by
  obtain ⟨s, hs, hpainted, -⟩ := mem_wholesOf.mp ht
  exact ⟨s, hs, (Scope.start_of_painted? hpainted).1⟩

theorem NestedInOrder.exists_region (h : NestedInOrder scopes) (hs : s ∈ scopes) :
    ∃ r, s.expressionRegion = .ok r ∧ r.start = s.left.position :=
  ⟨_, Region.ofBounds_of_le (Nat.le_of_lt (h.start_lt_stop s hs)), rfl⟩

theorem NestedInOrder.nonempty (h : NestedInOrder scopes) (hr : IsRegionOf scopes r) :
    r.start < r.stop := by
  obtain ⟨s, hs, hregion⟩ := hr
  obtain ⟨hstart, hstop⟩ := Region.ofBounds_eq_ok_iff.mp hregion
  rw [hstart, hstop]
  exact h.start_lt_stop s hs

/-- Of two scopes that start at different places, the later one lies in the other or behind it. -/
theorem NestedInOrder.of_lt (h : NestedInOrder scopes) {s' : Scope} (hs : s ∈ scopes)
    (hs' : s' ∈ scopes) (hlt : s.left.position < s'.left.position) :
    s.right.region.stop ≤ s'.left.position ∨ s'.right.region.stop ≤ s.right.region.stop := by
  obtain ⟨i, hi, rfl⟩ := List.getElem_of_mem hs
  obtain ⟨j, hj, rfl⟩ := List.getElem_of_mem hs'
  have horder := List.pairwise_iff_getElem.mp h.order
  rcases Nat.lt_trichotomy i j with hij | rfl | hij
  · exact List.pairwise_iff_getElem.mp h.nested_or_apart i j hi hj hij
  · exact absurd hlt (Nat.lt_irrefl _)
  · exact absurd hlt (Nat.lt_asymm (horder j i hj hi hij))

theorem NestedInOrder.eq_of_position_eq (h : NestedInOrder scopes) {s' : Scope} (hs : s ∈ scopes)
    (hs' : s' ∈ scopes) (heq : s.left.position = s'.left.position) : s = s' := by
  obtain ⟨i, hi, rfl⟩ := List.getElem_of_mem hs
  obtain ⟨j, hj, rfl⟩ := List.getElem_of_mem hs'
  have horder := List.pairwise_iff_getElem.mp h.order
  rcases Nat.lt_trichotomy i j with hij | rfl | hij
  · exact absurd heq (Nat.ne_of_lt (horder i j hi hj hij))
  · rfl
  · exact absurd heq.symm (Nat.ne_of_lt (horder j i hj hi hij))

section Regions

variable {a b : Region}

/-- What starts inside a scope lies in it. -/
theorem NestedInOrder.stop_le (h : NestedInOrder scopes) (ha : IsRegionOf scopes a)
    (hb : IsRegionOf scopes b) (hlt : a.start < b.start) (hinside : b.start < a.stop) :
    b.stop ≤ a.stop := by
  obtain ⟨s, hs, hregion⟩ := ha
  obtain ⟨s', hs', hregion'⟩ := hb
  obtain ⟨hstart, hstop⟩ := Region.ofBounds_eq_ok_iff.mp hregion
  obtain ⟨hstart', hstop'⟩ := Region.ofBounds_eq_ok_iff.mp hregion'
  have := h.of_lt hs hs' (by omega)
  omega

theorem NestedInOrder.eq_of_start_eq (h : NestedInOrder scopes) (ha : IsRegionOf scopes a)
    (hb : IsRegionOf scopes b) (heq : a.start = b.start) : a = b := by
  obtain ⟨s, hs, hregion⟩ := ha
  obtain ⟨s', hs', hregion'⟩ := hb
  obtain ⟨hstart, -⟩ := Region.ofBounds_eq_ok_iff.mp hregion
  obtain ⟨hstart', -⟩ := Region.ofBounds_eq_ok_iff.mp hregion'
  obtain rfl := h.eq_of_position_eq hs hs' (by omega)
  exact Except.ok.inj (hregion.symm.trans hregion')

/-- Another scope contains a region exactly if it starts before it and goes on behind its start. -/
theorem NestedInOrder.contains_iff (h : NestedInOrder scopes) (ha : IsRegionOf scopes a)
    (hb : IsRegionOf scopes b) : (a ≠ b ∧ a.Contains b) ↔ a.start < b.start ∧ b.start < a.stop := by
  have hnonempty := h.nonempty hb
  constructor
  · rintro ⟨hne, hcontains⟩
    have hstart : a.start ≠ b.start := fun heq => hne (h.eq_of_start_eq ha hb heq)
    omega
  · rintro ⟨hlt, hinside⟩
    refine ⟨fun heq => ?_, Nat.le_of_lt hlt, h.stop_le ha hb hlt hinside⟩
    rw [heq] at hlt
    exact Nat.lt_irrefl _ hlt

end Regions

/-! ### Which scopes lead to a scope -/

/-- A scope painted as a whole stops where the region, or a scope around it, starts. -/
def IsMet (wholes : List PaintedScope) (r : Region) : Prop :=
  ∃ t ∈ wholes, t.region.stop = r.start ∨
    ∃ u ∈ around wholes r, t.region.stop = u.region.start

instance : Decidable (IsMet wholes r) :=
  inferInstanceAs (Decidable (∃ t ∈ wholes, t.region.stop = r.start ∨
    ∃ u ∈ around wholes r, t.region.stop = u.region.start))

section Wholes

variable (h : NestedInOrder scopes) (hwholes : ∀ t ∈ wholes, IsRegionOf scopes t.region)
variable (hr : IsRegionOf scopes r)

include h hwholes hr

theorem mem_around_iff : t ∈ around wholes r ↔
    t ∈ wholes ∧ t.region.start < r.start ∧ r.start < t.region.stop := by
  rw [around, List.mem_filter, decide_eq_true_iff]
  exact and_congr_right fun ht => h.contains_iff (hwholes t ht) hr

/-- The scopes around a region are each inside the one before. -/
theorem pairwise_around (horder : wholes.Pairwise fun t u => t.region.start < u.region.start) :
    (around wholes r).Pairwise fun t u => t.region.Contains u.region := by
  refine (List.Pairwise.filter _ horder).imp_of_mem fun {t u} ht hu hlt => ?_
  obtain ⟨ht, -, hstop⟩ := (mem_around_iff h hwholes hr).mp ht
  obtain ⟨hu, hstart, -⟩ := (mem_around_iff h hwholes hr).mp hu
  exact ⟨Nat.le_of_lt hlt, h.stop_le (hwholes t ht) (hwholes u hu) hlt (by omega)⟩

/-- What leads to a region that is not met contains it. -/
theorem mem_around_of_leadsTo (hmet : ¬ IsMet wholes r) (ht : t ∈ wholes)
    (hlt : t.region.start < r.start) (hlead : LeadsTo wholes t r.start) :
    t ∈ around wholes r := by
  -- The scope stops where the next one on the way starts, and that one is around the region.
  induction hn : r.start - t.region.stop using Nat.strongRecOn generalizing t with
  | ind n ih =>
      rcases Nat.lt_trichotomy t.region.stop r.start with hstop | hstop | hstop
      · obtain ⟨u, hu, hle, hmem⟩ := hlead _ hstop (Nat.le_refl _)
        rw [Region.mem_def] at hmem
        have hstart : u.region.start ≠ t.region.start := by
          intro heq
          have hsame := h.eq_of_start_eq (hwholes u hu) (hwholes t ht) heq
          rw [hsame] at hmem
          omega
        have hmeet : t.region.stop = u.region.start := by
          by_contra hne
          have := h.stop_le (hwholes t ht) (hwholes u hu) (by omega) (by omega)
          omega
        refine absurd ⟨t, ht, Or.inr ⟨u, ?_, hmeet⟩⟩ hmet
        refine ih _ (by omega) hu (by omega) (fun q hq hge => ?_) rfl
        obtain ⟨v, hv, hle', hmem'⟩ := hlead q hq (by omega)
        refine ⟨v, hv, ?_, hmem'⟩
        rw [Region.mem_def] at hmem'
        by_contra hbefore
        have hne : v.region.start ≠ t.region.start := by
          intro heq
          have hsame := h.eq_of_start_eq (hwholes v hv) (hwholes t ht) heq
          rw [hsame] at hmem'
          omega
        have := h.stop_le (hwholes t ht) (hwholes v hv) (by omega) (by omega)
        omega
      · exact absurd ⟨t, ht, Or.inl hstop⟩ hmet
      · exact (mem_around_iff h hwholes hr).mpr ⟨ht, hlt, hstop⟩

/-- A scope that meets the region, or a scope around it, leads to the region and is not around. -/
theorem exists_leadsTo_of_isMet (hmet : IsMet wholes r) :
    ∃ t ∈ under wholes r.start, t ∉ around wholes r := by
  obtain ⟨t, ht, hmeet⟩ := hmet
  have hnonempty := h.nonempty (hwholes t ht)
  have hafter : ∀ {a : Region}, t.region.stop = a.start → a.start ≤ r.start →
      t ∉ around wholes r := by
    intro a heq hle hmem
    have := ((mem_around_iff h hwholes hr).mp hmem).2.2
    omega
  rcases hmeet with hmeet | ⟨u, hu, hmeet⟩
  · refine ⟨t, ?_, hafter hmeet (Nat.le_refl _)⟩
    rw [under, List.mem_filter, decide_eq_true_iff]
    exact ⟨ht, by omega, leadsTo_of_le (Nat.le_of_eq hmeet.symm)⟩
  · obtain ⟨hmem, hlt, hstop⟩ := (mem_around_iff h hwholes hr).mp hu
    refine ⟨t, ?_, hafter hmeet (Nat.le_of_lt hlt)⟩
    rw [under, List.mem_filter, decide_eq_true_iff]
    refine ⟨ht, by omega, fun q hq hge => ⟨u, hmem, by omega, ?_⟩⟩
    rw [Region.mem_def]
    omega

theorem under_eq_around (hmet : ¬ IsMet wholes r) : under wholes r.start = around wholes r := by
  refine List.filter_congr fun t ht => decide_eq_decide.mpr ?_
  rw [h.contains_iff (hwholes t ht) hr]
  refine and_congr_right fun hlt => ⟨fun hlead => ?_, fun hstop => leadsTo_of_le (Nat.le_of_lt hstop)⟩
  exact ((mem_around_iff h hwholes hr).mp
    (mem_around_of_leadsTo h hwholes hr hmet ht hlt hlead)).2.2

/-- What is around a region leads to it, and more than that if the region is met. -/
theorem length_around_lt (hmet : IsMet wholes r) :
    (around wholes r).length < (under wholes r.start).length := by
  obtain ⟨t, ht, hnot⟩ := exists_leadsTo_of_isMet h hwholes hr hmet
  rw [under, List.mem_filter, decide_eq_true_iff] at ht
  rw [around, List.mem_filter, decide_eq_true_iff, not_and] at hnot
  rw [around, under, ← List.countP_eq_length_filter, ← List.countP_eq_length_filter]
  refine countP_lt_countP (fun u hu haround => ?_) ht.1 ht.2 (hnot ht.1)
  obtain ⟨hlt, hstop⟩ := (h.contains_iff (hwholes u hu) hr).mp haround
  exact ⟨hlt, leadsTo_of_le (Nat.le_of_lt hstop)⟩

end Wholes

/-! ### The background of a scope -/

/-- The layers of the scopes around a region. -/
def layersAround (wholes : List PaintedScope) (r : Region) : List Layer :=
  (around wholes r).map fun t => .scope t.role

theorem NestedInOrder.pairwise_wholesOf (h : NestedInOrder scopes) :
    (wholesOf config supported cursors scopes).Pairwise
      fun t u => t.region.start < u.region.start := by
  refine List.Pairwise.filter _ (List.pairwise_filterMap.mpr (h.order.imp ?_))
  intro s s' hlt t ht u hu
  rwa [(Scope.start_of_painted? ht).2.1, (Scope.start_of_painted? hu).2.1]

/-- **The background of a scope.** Scopes that are nested or apart are painted on the layers of the
scopes painted as a whole that lead to them. Those that contain a scope lead to it, the outermost
first, and they are the only ones exactly if no scope painted as a whole stops where the scope, or a
scope around it, starts. -/
theorem colorScopes_layers (config : Configuration) (h : NestedInOrder scopes)
    (hroles : ∀ s ∈ scopes, ∃ role, Role.ofScope supported cursors s = .ok role) :
    colorScopes config supported cursors scopes = .ok (scopes.flatMap fun s =>
      s.spansOn config supported cursors
        (layersUnder (wholesOf config supported cursors scopes) s.left.position)) ∧
    ∀ s ∈ scopes, ∀ r, s.expressionRegion = .ok r →
      ((around (wholesOf config supported cursors scopes) r).Pairwise
        fun t u => t.region.Contains u.region) ∧
      (layersUnder (wholesOf config supported cursors scopes) s.left.position =
          layersAround (wholesOf config supported cursors scopes) r ↔
        ¬ IsMet (wholesOf config supported cursors scopes) r) := by
  constructor
  · have hregions : ∀ s ∈ scopes, ∃ r, s.expressionRegion = .ok r := fun s hs =>
      (h.exists_region hs).imp fun _ hr => hr.1
    have hkeeps : Keeps [] (wholesOf config supported cursors []) 0 := keeps_nil 0
    have hnil : ([] ++ scopes) = scopes := List.nil_append scopes
    have hspans := colorFrom_eq hroles hregions (hnil.symm ▸ h.order) (fun _ _ => Nat.zero_le _)
      hkeeps
    rwa [hnil] at hspans
  · intro s hs r hregion
    have hr : IsRegionOf scopes r := ⟨s, hs, hregion⟩
    have hwholes : ∀ t ∈ wholesOf config supported cursors scopes, IsRegionOf scopes t.region :=
      fun t ht => isRegionOf_of_mem_wholesOf ht
    refine ⟨pairwise_around h hwholes hr h.pairwise_wholesOf, ?_⟩
    rw [← (Region.ofBounds_eq_ok_iff.mp hregion).1]
    constructor
    · intro hlayers hmet
      have hlength := congrArg List.length hlayers
      rw [layersUnder, layersAround, List.length_map, List.length_map] at hlength
      exact Nat.ne_of_gt (length_around_lt h hwholes hr hmet) hlength
    · intro hmet
      rw [layersUnder, layersAround, under_eq_around h hwholes hr hmet]

/-- The default configuration, but that all scopes are painted as a whole. -/
def paintingWholes : Configuration :=
  { Configuration.default with modes := .replicate .expression }

/-- The scopes of `(()[])`, seen from before the text. -/
def pairInPair : List Scope :=
  [⟨⟨.unreachable, 1⟩, ⟨.left, 0, "("⟩, ⟨.right, 5, ")"⟩⟩,
    ⟨⟨.unreachable, 2⟩, ⟨.left, 1, "("⟩, ⟨.right, 2, ")"⟩⟩,
    ⟨⟨.unreachable, 2⟩, ⟨.left, 3, "["⟩, ⟨.right, 4, "]"⟩⟩]

/-- Of two scopes that meet inside a third one, the first lies on that one only. -/
theorem colorScopes_layers_pairInPair :
    NestedInOrder pairInPair ∧
    (∀ s ∈ pairInPair, ∃ role, Role.ofScope paintingWholes.brackets [0] s = .ok role) ∧
    colorScopes paintingWholes paintingWholes.brackets [0] pairInPair =
      .ok [⟨⟨0, 6, by decide⟩, .adjacent, []⟩, ⟨⟨1, 3, by decide⟩, .offside 2, [.scope .adjacent]⟩,
        ⟨⟨3, 5, by decide⟩, .offside 2, [.scope .adjacent, .scope (.offside 2)]⟩] ∧
    layersUnder (wholesOf paintingWholes paintingWholes.brackets [0] pairInPair) 1 =
      layersAround (wholesOf paintingWholes paintingWholes.brackets [0] pairInPair)
        ⟨1, 3, by decide⟩ := by
  have hnested : NestedInOrder pairInPair := ⟨by decide, by decide, by decide⟩
  have hroles : ∀ s ∈ pairInPair,
      ∃ role, Role.ofScope paintingWholes.brackets [0] s = .ok role := by
    intro s hs
    simp only [pairInPair, List.mem_cons, List.not_mem_nil, or_false] at hs
    rcases hs with rfl | rfl | rfl <;> exact ⟨_, rfl⟩
  obtain ⟨hspans, hlayers⟩ := colorScopes_layers paintingWholes hnested hroles
  refine ⟨hnested, hroles, hspans, ?_⟩
  exact (hlayers _ (List.mem_cons_of_mem _ List.mem_cons_self) ⟨1, 3, by decide⟩ rfl).2.mpr
    (by decide)

/-- The scopes of `()()`, seen from before the text. -/
def pairBehindPair : List Scope :=
  [⟨⟨.unreachable, 1⟩, ⟨.left, 0, "("⟩, ⟨.right, 1, ")"⟩⟩,
    ⟨⟨.unreachable, 1⟩, ⟨.left, 2, "("⟩, ⟨.right, 3, ")"⟩⟩]

/-- The second one of two scopes that meet lies on the layer of the first one, which does not
contain it. -/
theorem layer_of_scope_before :
    NestedInOrder pairBehindPair ∧
    colorScopes paintingWholes paintingWholes.brackets [0] pairBehindPair =
      .ok [⟨⟨0, 2, by decide⟩, .adjacent, []⟩,
        ⟨⟨2, 4, by decide⟩, .offside 1, [.scope .adjacent]⟩] ∧
    ¬ (⟨0, 2, by decide⟩ : Region).Contains ⟨2, 4, by decide⟩ :=
  ⟨⟨by decide, by decide, by decide⟩, by decide, by decide⟩

end BracketPaint
