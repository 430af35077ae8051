import BracketPaint.Toml.Quoted
import BracketPaint.Toml.Scalar
/-!
# Statements of a settings document

A document is a sequence of lines; some of them make a **statement**: an entry `key = value`, or the
header `[key]` of a table or `[[key]]` of an element of an array of tables. A key is one or more
names with dots between them. What the statements mean together is told in
`BracketPaint.Toml.Document`.

All readers here take the text from some place on and give what they read with the text behind it. A
reader that repeats another one stops with `none` where that one makes no headway, so that it is
seen to end.
-/

namespace BracketPaint.Toml

/-- The greatest number of names in a key and of values around a value, plus one. -/
def nestingLimit : Nat := 80

/-- A line of a document that says something. -/
inductive Statement (α : Type) where
  /-- An entry of the current table, under a key. -/
  | entry (key : List String) (value : α)
  /-- The entries that follow belong to the table of this key. -/
  | header (key : List String)
  /-- The entries that follow belong to a new element of the array of this key. -/
  | arrayHeader (key : List String)
  deriving Repr

/-! ### Blanks, comments and ends of lines -/

/-- The text without the blanks before it. -/
def skipSpaces (cs : List Char) : List Char := cs.dropWhile isSpace

/-- The text without a comment before it. -/
def skipComment : List Char → List Char
  | '#' :: cs => cs.dropWhile isPrintable
  | cs => cs

/-- What follows the end of a line, before which blanks and a comment may stand. -/
def afterLine? (cs : List Char) : Option (List Char) :=
  match skipComment (skipSpaces cs) with
  | [] => some []
  | rest => afterNewline? rest

/-- The text without the blanks, comments and line breaks before it. -/
def skipTrivia (cs : List Char) : List Char :=
  match _hrest : skipLines cs with
  | '#' :: rest => skipTrivia (rest.dropWhile isPrintable)
  | rest => rest
termination_by cs.length
decreasing_by
  have h₁ := length_skipLines_le cs
  have h₂ := (List.dropWhile_sublist isPrintable (l := rest)).length_le
  simp only [_hrest, List.length_cons] at h₁
  omega

/-! ### Keys -/

/-- The character may stand in a name without quotes. -/
def isBareChar (c : Char) : Bool := c.isAlphanum || c == '-' || c == '_'

/-- Reads a name, quoted on one line or bare. -/
def name? : List Char → Option (String × List Char)
  | '"' :: cs => (basic? cs).map fun (text, rest) => (String.ofList text, rest)
  | '\'' :: cs => (literal? cs).map fun (text, rest) => (String.ofList text, rest)
  | cs =>
    if (cs.takeWhile isBareChar).isEmpty then none
    else some (String.ofList (cs.takeWhile isBareChar), cs.dropWhile isBareChar)

/-- Reads a key, with the blanks around it and around its dots. -/
def names? (cs : List Char) : Option (List String × List Char) :=
  match name? (skipSpaces cs) with
  | none => none
  | some (name, rest) =>
    match skipSpaces rest with
    | '.' :: more =>
      if _h : more.length < cs.length then
        (names? more).map fun (names, rest) => (name :: names, rest)
      else none
    | rest => some ([name], rest)
termination_by cs.length

/-- Reads a key that does not have too many names. -/
def key? (cs : List Char) : Option (List String × List Char) :=
  (names? cs).filter fun (names, _) => names.length < nestingLimit

/-- Reads a key, the equals sign behind it, and a value. -/
def pair? {α : Type} (item : List Char → Option (α × List Char)) (cs : List Char) :
    Option ((List String × α) × List Char) := do
  let (key, rest) ← key? cs
  match rest with
  | '=' :: rest => do
    let (value, rest) ← item (skipSpaces rest)
    return ((key, value), rest)
  | _ => none

/-! ### Lists of items -/

/-- Reads the items of an array and its closing bracket. A comma may stand behind the last one. -/
def items? {α : Type} (item : List Char → Option (α × List Char)) (cs : List Char) :
    Option (List α × List Char) :=
  match skipTrivia cs with
  | ']' :: rest => some ([], rest)
  | cs' =>
    match item cs' with
    | none => none
    | some (value, rest) =>
      match skipTrivia rest with
      | ',' :: more =>
        if _h : more.length < cs.length then
          (items? item more).map fun (values, rest) => (value :: values, rest)
        else none
      | ']' :: rest => some ([value], rest)
      | _ => none
termination_by cs.length

/-- Reads the pairs of a table on one line and its closing brace. -/
def pairs? {α : Type} (item : List Char → Option (α × List Char)) (cs : List Char) :
    Option (List (List String × α) × List Char) :=
  match pair? item cs with
  | none => none
  | some (pair, rest) =>
    match skipSpaces rest with
    | ',' :: more =>
      if _h : more.length < cs.length then
        (pairs? item more).map fun (pairs, rest) => (pair :: pairs, rest)
      else none
    | '}' :: rest => some ([pair], rest)
    | _ => none
termination_by cs.length

/-- Reads the pairs of a table on one line, of which there may be none, and its closing brace. -/
def inlinePairs? {α : Type} (item : List Char → Option (α × List Char)) (cs : List Char) :
    Option (List (List String × α) × List Char) :=
  match skipSpaces cs with
  | '}' :: rest => some ([], rest)
  | _ => pairs? item cs

/-! ### Lines -/

/-- Reads a statement, from its first character on. -/
def statement? {α : Type} (item : List Char → Option (α × List Char)) :
    List Char → Option (Statement α × List Char)
  | '[' :: '[' :: cs => do
    match ← key? cs with
    | (key, ']' :: ']' :: rest) => return (.arrayHeader key, rest)
    | _ => none
  | '[' :: cs => do
    match ← key? cs with
    | (key, ']' :: rest) => return (.header key, rest)
    | _ => none
  | cs => (pair? item cs).map fun ((key, value), rest) => (.entry key value, rest)

/-- The line starts with a statement, and not with a comment or its end. -/
def startsStatement : List Char → Bool
  | [] => false
  | c :: _ => c != '#' && c != '\n' && c != '\r'

/-- Reads one line: the statement on it, if there is one. -/
def line? {α : Type} (item : List Char → Option (α × List Char)) (cs : List Char) :
    Option (List (Statement α) × List Char) :=
  if startsStatement (skipSpaces cs) then do
    let (statement, rest) ← statement? item (skipSpaces cs)
    return ([statement], ← afterLine? rest)
  else do return ([], ← afterLine? cs)

/-- Reads all statements of a document. -/
def statements? {α : Type} (item : List Char → Option (α × List Char)) (cs : List Char) :
    Option (List (Statement α)) :=
  match cs with
  | [] => some []
  | c :: cs =>
    match line? item (c :: cs) with
    | none => none
    | some (here, rest) =>
      if _h : rest.length < (c :: cs).length then (statements? item rest).map (here ++ ·)
      else none
termination_by cs.length
decreasing_by simp only [List.length_cons] at _h ⊢; omega

end BracketPaint.Toml
