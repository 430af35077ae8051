import BracketPaint.Proofs.Formed
/-!
# Painted parts

What a configuration asks to paint of a scope are its **parts**: regions, each with the role of the
scope. A scope that is ruled out has none; of any other scope, the mode of its kind names them.

A formed scope has its whole region for a part, or its two brackets, or nothing
(`Scope.Formed.parts_cases`). The spans of formed scopes are their parts, in whatever layers they
lie (`exists_colorScopes`).
-/

namespace BracketPaint

variable {config : Configuration} {cursors : List Nat} {s : Scope} {scopes : List Scope}

/-- The parts of a scope that the configuration asks to paint, with the role of the scope. -/
def Scope.parts (config : Configuration) (cursors : List Nat) (s : Scope) : List (Region × Role) :=
  match Role.ofScope config.brackets cursors s, s.expressionRegion with
  | .ok role, .ok expression =>
    if s.isSuitable config cursors role then
      (s.extents expression (config.modes.get role.kind)).map (·, role)
    else []
  | _, _ => []

/-- The parts of scopes, scope by scope. -/
def partsOf (config : Configuration) (cursors : List Nat) (scopes : List Scope) :
    List (Region × Role) :=
  scopes.flatMap (Scope.parts config cursors)

theorem mem_partsOf {part : Region × Role} :
    part ∈ partsOf config cursors scopes ↔ ∃ s ∈ scopes, part ∈ s.parts config cursors :=
  List.mem_flatMap

/-! ### The parts of one scope -/

theorem Scope.parts_eq {role : Role} {expression : Region}
    (hrole : Role.ofScope config.brackets cursors s = .ok role)
    (hexpression : s.expressionRegion = .ok expression) :
    s.parts config cursors =
      if s.isSuitable config cursors role then
        (s.extents expression (config.modes.get role.kind)).map (·, role)
      else [] := by
  rw [parts, hrole, hexpression]

/-- A formed scope is painted as a whole, at its two brackets, or not at all. -/
theorem Scope.Formed.parts_cases (h : s.Formed) (config : Configuration) (cursors : List Nat) :
    s.parts config cursors = [] ∨
    (∃ r role, s.parts config cursors = [(r, role)] ∧
      r.start = s.left.position ∧ r.stop = s.right.region.stop) ∨
    ∃ role, s.parts config cursors = [(s.left.region, role), (s.right.region, role)] := by
  obtain ⟨role, hrole⟩ := h.exists_role config.brackets cursors
  obtain ⟨expression, hexpression, hstart, hstop⟩ := h.exists_expression
  rw [Scope.parts_eq hrole hexpression]
  by_cases hsuitable : s.isSuitable config cursors role
  · rw [if_pos hsuitable]
    cases config.modes.get role.kind with
    | none => exact Or.inl rfl
    | brackets => exact Or.inr (Or.inr ⟨role, rfl⟩)
    | expression => exact Or.inr (Or.inl ⟨expression, role, rfl, hstart, hstop⟩)
  · exact Or.inl (if_neg hsuitable)

theorem Scope.Formed.bounds (h : s.Formed) : s.left.position < s.left.region.stop ∧
    s.left.region.stop ≤ s.right.position ∧ s.right.position < s.right.region.stop :=
  ⟨Nat.lt_add_of_pos_right h.left_pos, h.stop_le, Nat.lt_add_of_pos_right h.right_pos⟩

/-- A part goes from one bracket of its scope to the same one or to the other one. -/
theorem Scope.Formed.mem_parts (h : s.Formed) {part : Region × Role}
    (hpart : part ∈ s.parts config cursors) :
    (part.1.start = s.left.position ∧ part.1.stop = s.right.region.stop) ∨
      (part.1.start = s.left.position ∧ part.1.stop = s.left.region.stop) ∨
      (part.1.start = s.right.position ∧ part.1.stop = s.right.region.stop) := by
  rcases h.parts_cases config cursors with hnil | ⟨r, role, hwhole, hstart, hstop⟩ | ⟨role, hboth⟩
  · rw [hnil] at hpart
    cases hpart
  · rw [hwhole, List.mem_singleton] at hpart
    rw [hpart]
    exact Or.inl ⟨hstart, hstop⟩
  · rw [hboth, List.mem_pair] at hpart
    rcases hpart with rfl | rfl
    · exact Or.inr (Or.inl ⟨rfl, rfl⟩)
    · exact Or.inr (Or.inr ⟨rfl, rfl⟩)

theorem Scope.Formed.within_of_mem_parts (h : s.Formed) {part : Region × Role}
    (hpart : part ∈ s.parts config cursors) :
    s.left.position ≤ part.1.start ∧ part.1.start < part.1.stop ∧
      part.1.stop ≤ s.right.region.stop := by
  have hbounds := h.bounds
  have hends := h.mem_parts hpart
  omega

/-! ### From parts to spans -/

/-- The spans of the first scope are its parts, in the layers of a stack. -/
theorem colorFrom_cons (stack : List PaintedScope) (scopes : List Scope) {role : Role}
    {expression : Region} (hrole : Role.ofScope config.brackets cursors s = .ok role)
    (hexpression : s.expressionRegion = .ok expression) :
    ∃ layers rest, colorFrom config config.brackets cursors stack (s :: scopes) =
      (colorFrom config config.brackets cursors rest scopes).map
        ((s.parts config cursors).map (fun part => ⟨part.1, part.2, layers⟩) ++ ·) := by
  rw [Scope.parts_eq hrole hexpression]
  simp only [colorFrom, hrole, hexpression, bind, Except.bind]
  by_cases hsuitable : s.isSuitable config cursors role
  · by_cases hmode : config.modes.get role.kind = .none
    · -- The scope is skipped, and the mode names no parts.
      refine ⟨[], stack, ?_⟩
      rw [if_neg fun h => h.2 hmode, if_pos hsuitable, hmode]
      cases colorFrom config config.brackets cursors stack scopes <;> rfl
    · refine ⟨layersOf (notLeft expression stack), if config.modes.get role.kind = .expression then
        ⟨expression, role⟩ :: notLeft expression stack else notLeft expression stack, ?_⟩
      rw [if_pos ⟨hsuitable, hmode⟩, if_pos hsuitable, List.map_map]
      rfl
  · refine ⟨[], stack, ?_⟩
    rw [if_neg fun h => hsuitable h.1, if_neg hsuitable]
    cases colorFrom config config.brackets cursors stack scopes <;> rfl

theorem exists_colorFrom (hformed : ∀ s ∈ scopes, s.Formed) (stack : List PaintedScope) :
    ∃ spans, colorFrom config config.brackets cursors stack scopes = .ok spans ∧
      spans.map (fun span => (span.extent, span.foreground)) =
        partsOf config cursors scopes := by
  induction scopes generalizing stack with
  | nil => exact ⟨[], rfl, rfl⟩
  | cons s scopes ih =>
      obtain ⟨role, hrole⟩ := (hformed s List.mem_cons_self).exists_role config.brackets cursors
      obtain ⟨expression, hexpression, -⟩ := (hformed s List.mem_cons_self).exists_expression
      obtain ⟨layers, rest, hcons⟩ := colorFrom_cons stack scopes hrole hexpression
      obtain ⟨spans, hok, hparts⟩ := ih (fun s hs => hformed s (List.mem_cons_of_mem _ hs)) rest
      rw [hcons, hok]
      refine ⟨_, rfl, ?_⟩
      rw [List.map_append, hparts, List.map_map]
      simp [partsOf, Function.comp_def]

/-- The spans of formed scopes are their parts. -/
theorem exists_colorScopes (config : Configuration) (cursors : List Nat)
    (hformed : ∀ s ∈ scopes, s.Formed) :
    ∃ spans, colorScopes config config.brackets cursors scopes = .ok spans ∧
      spans.map (fun span => (span.extent, span.foreground)) = partsOf config cursors scopes :=
  exists_colorFrom hformed []

end BracketPaint
