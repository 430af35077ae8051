import BracketPaint.Scope.Basic
/-!
# Roles of scopes

The **role** of a scope says how it is to be painted. A scope whose brackets do not belong together
is inconsistent, whatever its index. Of the others, those of the mainline are primary or secondary,
and those beside it are adjacent if a cursor stands at one of their brackets, and offside if not.
-/

namespace BracketPaint

/-- The roles that a scope can play, levels aside. -/
inductive Kind where
  | primary
  | secondary
  | offside
  | adjacent
  | inconsistent
  deriving Repr, DecidableEq

/-- The name of a kind. -/
def Kind.name : Kind → String
  | primary => "primary"
  | secondary => "secondary"
  | offside => "offside"
  | adjacent => "adjacent"
  | inconsistent => "inconsistent"

/-- One value for each kind. -/
structure PerKind (α : Type) where
  primary : α
  secondary : α
  offside : α
  adjacent : α
  inconsistent : α
  deriving Repr, DecidableEq

namespace PerKind

variable {α β γ : Type}

/-- The value for a kind. -/
def get (values : PerKind α) : Kind → α
  | .primary => values.primary
  | .secondary => values.secondary
  | .offside => values.offside
  | .adjacent => values.adjacent
  | .inconsistent => values.inconsistent

/-- The same value for all kinds. -/
def replicate (a : α) : PerKind α := ⟨a, a, a, a, a⟩

/-- Combines the values of two records, kind by kind. -/
def zipWith (f : α → β → γ) (as : PerKind α) (bs : PerKind β) : PerKind γ where
  primary := f as.primary bs.primary
  secondary := f as.secondary bs.secondary
  offside := f as.offside bs.offside
  adjacent := f as.adjacent bs.adjacent
  inconsistent := f as.inconsistent bs.inconsistent

@[simp] theorem get_zipWith (f : α → β → γ) (as : PerKind α) (bs : PerKind β) (k : Kind) :
    (zipWith f as bs).get k = f (as.get k) (bs.get k) := by
  cases k <;> rfl

end PerKind

/-- The role that a scope plays relative to the cursors. -/
inductive Role where
  /-- The scope encloses a cursor immediately. -/
  | primary
  /-- The scope encloses a cursor, with so many scopes between. -/
  | secondary (level : Nat)
  /-- The scope lies beside the mainline, at such a depth. -/
  | offside (level : Nat)
  /-- The scope lies beside the mainline and a cursor stands at one of its brackets. -/
  | adjacent
  /-- The brackets of the scope do not belong together. -/
  | inconsistent
  deriving Repr, DecidableEq

namespace Role

/-- The role without its level. -/
def kind : Role → Kind
  | primary => .primary
  | secondary _ => .secondary
  | offside _ => .offside
  | adjacent => .adjacent
  | inconsistent => .inconsistent

/-- The written form of a role. -/
def display : Role → String
  | secondary level => s!"secondary({level})"
  | offside level => s!"offside({level})"
  | role => role.kind.name

/-- The role of a scope. A scope of the mainline has an outer level, and any other scope lies beside
it, or else a promise is broken. -/
def ofScope (supported : List BracketPair) (cursors : List Nat) (s : Scope) : Except Fault Role :=
  if ¬ s.IsConsistent supported then .ok inconsistent
  else if s.IsPrimary then .ok primary
  else if s.IsSecondary then
    match s.index.outer with
    | .level level => .ok (secondary level)
    | .unreachable => .error .unreachableMainline
  else if s.IsAdjacent cursors then .ok adjacent
  else if s.IsOffside then .ok (offside s.index.inner)
  else .error .unclassifiableScope

end Role
end BracketPaint
