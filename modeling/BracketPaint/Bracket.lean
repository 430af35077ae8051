import BracketPaint.Buffer
/-!
# Brackets

A bracket may be any non-empty text; brackets come in pairs of a left and a right one. Finding them
in a buffer means to walk through a region from left to right: at an offset whose name is suitable,
the first pair of the list that has a bracket there decides, its left one before its right one, and
the walk goes on behind that bracket. A bracket has to start inside the region but may reach out.
-/

namespace BracketPaint

/-- The two sides of a pair. -/
inductive Side where
  | left
  | right
  deriving Repr, DecidableEq

/-- A bracket that stands in a text. -/
structure Bracket where
  /-- Whether it opens or closes. -/
  side : Side
  /-- Where it starts. -/
  position : Nat
  /-- The text of the bracket. -/
  text : String
  deriving Repr, DecidableEq

namespace Bracket

/-- The number of characters of a bracket. -/
def size (b : Bracket) : Nat := b.text.length

/-- The region that a bracket covers. -/
def region (b : Bracket) : Region where
  start := b.position
  stop := b.position + b.size

/-- The last place at which a cursor still has the bracket to its right: where a right bracket
starts, and where the last character of a left one does. -/
def lastBefore (b : Bracket) : Nat :=
  match b.side with
  | .left => b.position + (b.size - 1)
  | .right => b.position

end Bracket

/-- Two bracket texts that belong together. -/
structure BracketPair where
  /-- The text that opens. -/
  left : String
  /-- The text that closes. -/
  right : String
  deriving Repr, DecidableEq

/-! ### Suitable offsets -/

/-- The first text occurs in the second one, at some place; the empty text occurs everywhere. -/
def Text.occursIn (needle : List Char) : List Char → Bool
  | [] => needle.isEmpty
  | c :: cs => needle.isPrefixOf (c :: cs) || occursIn needle cs

/-- A text occurs in another exactly if it is an infix of it. -/
theorem Text.occursIn_iff {needle cs : List Char} : occursIn needle cs ↔ needle <:+: cs := by
  induction cs with
  | nil => simp [occursIn]
  | cons c cs ih => simp [occursIn, ih, List.infix_cons_iff]

/-- An offset is suitable if its name contains none of the given texts. -/
def scopeAllowed (blacklist : List String) (name : String) : Bool :=
  !blacklist.any fun banned => Text.occursIn banned.toList name.toList

/-! ### Finding brackets -/

namespace Buffer

/-- The bracket of a pair that stands at an offset, the left one being preferred. -/
def bracketOf? (b : Buffer) (p : Nat) (pair : BracketPair) : Option Bracket :=
  if b.matchesAt p pair.left then some ⟨.left, p, pair.left⟩
  else if b.matchesAt p pair.right then some ⟨.right, p, pair.right⟩
  else none

/-- The bracket that stands at an offset, if the offset is suitable. -/
def bracketAt? (b : Buffer) (pairs : List BracketPair) (suitable : String → Bool) (p : Nat) :
    Option Bracket :=
  if suitable (b.scopeName p) then pairs.findSome? (b.bracketOf? p) else none

/-- The brackets that start between two offsets, from left to right. -/
def bracketsFrom (b : Buffer) (pairs : List BracketPair) (suitable : String → Bool)
    (p stop : Nat) : List Bracket :=
  if p < stop then
    match b.bracketAt? pairs suitable p with
    | some bracket =>
      bracket :: b.bracketsFrom pairs suitable (p + max bracket.size 1) stop
    | none => b.bracketsFrom pairs suitable (p + 1) stop
  else []
termination_by stop - p

/-- The brackets that start inside a region, from left to right. -/
def brackets (b : Buffer) (pairs : List BracketPair) (suitable : String → Bool) (r : Region) :
    List Bracket :=
  b.bracketsFrom pairs suitable r.start (min r.stop b.size)

end Buffer
end BracketPaint
