import BracketPaint.Annotation
/-!
# Comments and strings

`LexicalRules` tell a plain text's comments and strings apart from its code: the texts that open a
comment, which lasts to the end of the line, and the characters that open and close a string, in
which a backslash takes the next character out of consideration.

A text is read as a sequence of **lexemes**: a comment, a string, or a single character of code
(`lexemeOf`). A comment stops before the line feed that ends it. Where a comment opens with a line
feed it is therefore empty, and the scan cannot move on: `annotate` has no answer then. For all
other rules it always has one.
-/

namespace BracketPaint

/-- What opens a comment, and what opens and closes a string. -/
structure LexicalRules where
  /-- Each of these opens a comment that lasts to the end of the line; empty ones are ignored. -/
  lineComments : List String
  /-- Each of these opens a string that lasts until it stands there again. -/
  stringDelimiters : List Char
  deriving Repr, DecidableEq

/-- A piece of text that the scan takes at once, with its number of characters. -/
inductive Lexeme where
  /-- A character of code. -/
  | code
  /-- A comment. -/
  | comment (size : Nat)
  /-- A string with its delimiters; the last one may be missing at the end of the text. -/
  | string (size : Nat)
  deriving Repr, DecidableEq

namespace Lexeme

/-- The number of characters of a lexeme. -/
def size : Lexeme → Nat
  | code => 1
  | comment size => size
  | string size => size

/-- The name under which a lexeme is annotated; code is not. -/
def name? : Lexeme → Option String
  | code => none
  | comment _ => some "comment.line"
  | string _ => some "string.quoted"

end Lexeme

namespace LexicalRules

/-- The rules of the Lisp family. -/
def lisp : LexicalRules := ⟨[";"], ['"']⟩

/-- The rules of the languages that took their comments and strings from C. -/
def cLike : LexicalRules := ⟨["//"], ['"', '\'']⟩

/-- The rules of a syntax, if its name is known. -/
def forSyntax? (syntaxName : String) : Option LexicalRules :=
  if syntaxName ∈ ["lisp", "scheme", "clojure", "racket", "elisp"] then some lisp
  else if syntaxName ∈ ["rust", "c", "cpp", "java", "javascript", "go"] then some cLike
  else none

/-- The rules of a syntax; one whose name is not known is taken for one of the Lisp family. -/
def forSyntax (syntaxName : String) : LexicalRules := (forSyntax? syntaxName).getD lisp

/-- A comment opens at the start of the text. -/
def opensComment (rules : LexicalRules) (cs : List Char) : Bool :=
  rules.lineComments.any fun opener =>
    !opener.toList.isEmpty && opener.toList.isPrefixOf cs

/-- The number of characters from inside a string up to and including what closes it, or to the end
of the text. -/
def restOfString (delimiter : Char) : List Char → Nat
  | [] => 0
  | c :: cs =>
    if c = delimiter then 1
    else if c = '\\' then
      match cs with
      | [] => 1
      | _ :: rest => restOfString delimiter rest + 2
    else restOfString delimiter cs + 1

/-- The lexeme that the text starts with, its first character being given apart. -/
def lexemeOf (rules : LexicalRules) (c : Char) (cs : List Char) : Lexeme :=
  if rules.opensComment (c :: cs) then .comment ((c :: cs).takeWhile (· ≠ '\n')).length
  else if c ∈ rules.stringDelimiters then .string (restOfString c cs + 1)
  else .code

/-- Annotates the lexemes of a text whose first character has the given offset. `none` means that
the scan meets an empty comment and stays there. -/
def scan (rules : LexicalRules) (offset : Nat) (m : AnnotationMap) :
    List Char → Option AnnotationMap
  | [] => some m
  | c :: cs =>
    let lexeme := rules.lexemeOf c cs
    match _hsize : lexeme.size with
    | 0 => none
    | size + 1 =>
      let region : Region := { start := offset, stop := offset + (size + 1) }
      let m := match lexeme.name? with
        | some name => m.push ⟨region, name⟩
        | none => m
      scan rules (offset + (size + 1)) m (cs.drop size)
termination_by cs => cs.length
decreasing_by simp only [List.length_drop, List.length_cons]; omega

/-- The comments and strings of a text. `none` means that the scan does not get through it. -/
def annotate (rules : LexicalRules) (text : List Char) : Option AnnotationMap :=
  rules.scan 0 ∅ text

end LexicalRules
end BracketPaint
