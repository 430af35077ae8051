import Std.Data.HashMap
import BracketPaint.Scope.Basic
/-!
# Putting brackets together

Every left bracket takes the first right bracket behind it that has an equal nesting index and is
not taken yet; where there is none, it stays alone. The scopes come in the order of their left
brackets.

The right brackets wait in queues, one for each index, in text order. A right bracket that lies
before one left bracket lies before all later ones, so it leaves its queue for good, and every right
bracket is looked at once.
-/

namespace BracketPaint

/-- A bracket with its nesting index and its place in the list. -/
structure IndexedBracket where
  /-- The bracket. -/
  bracket : Bracket
  /-- Its nesting index. -/
  index : NestingIndex
  /-- The number of brackets before it. -/
  place : Nat
  deriving Repr, DecidableEq

/-- The brackets with their indices and places. -/
def indexed (bs : List Bracket) (indices : List NestingIndex) : List IndexedBracket :=
  (bs.zip indices).zipIdx.map fun ((bracket, index), place) => ⟨bracket, index, place⟩

/-- The right brackets that are not taken yet, by their index. -/
abbrev Queues := Std.HashMap NestingIndex (List IndexedBracket)

/-- Puts a bracket in front of its queue, if it is a right one. -/
def Queues.enqueue (b : IndexedBracket) (queues : Queues) : Queues :=
  if b.bracket.side = .right then queues.insert b.index (b :: queues.getD b.index [])
  else queues

/-- All right brackets, each queue being in text order. -/
def Queues.ofList (bs : List IndexedBracket) : Queues := bs.foldr enqueue ∅

/-- Lets every left bracket take the first right bracket behind it that waits in its queue. -/
def pairWith (queues : Queues) : List IndexedBracket → List Scope
  | [] => []
  | b :: bs =>
    if b.bracket.side = .left then
      match (queues.getD b.index []).dropWhile (·.place < b.place) with
      | [] => pairWith queues bs
      | right :: rest =>
        ⟨b.index, b.bracket, right.bracket⟩ :: pairWith (queues.insert b.index rest) bs
    else pairWith queues bs

/-- The scopes that brackets with the given indices form. -/
def pairBrackets (bs : List Bracket) (indices : List NestingIndex) : List Scope :=
  let all := indexed bs indices
  pairWith (Queues.ofList all) all

end BracketPaint
