import BracketPaint.Text.Hexadecimal
/-!
# JSON

JSON values as far as plans need them, and their form over several lines: each level is indented by
two blanks, and lists and records without members stay on one line.
-/

namespace BracketPaint.Text

/-- A JSON value. -/
inductive Json where
  /-- A number. -/
  | number (n : Nat)
  /-- A text. -/
  | string (text : String)
  /-- A list of values. -/
  | array (items : List Json)
  /-- A list of values with names. -/
  | object (members : List (String × Json))
  deriving Repr

namespace Json

/-- A character of a text, with an escape if it must have one. -/
def escaped (c : Char) : List Char :=
  if c = '"' then ['\\', '"']
  else if c = '\\' then ['\\', '\\']
  else if c = '\x08' then ['\\', 'b']
  else if c = '\x0c' then ['\\', 'f']
  else if c = '\n' then ['\\', 'n']
  else if c = '\r' then ['\\', 'r']
  else if c = '\t' then ['\\', 't']
  else if c.toNat < 0x20 then '\\' :: 'u' :: '0' :: '0' :: (Text.hexPad 2 c.toNat).map Char.toLower
  else [c]

/-- The written form of a text. -/
def renderString (text : String) : List Char := '"' :: text.toList.flatMap escaped ++ ['"']

/-- The start of a line at a level. -/
def lineStart (level : Nat) : List Char := '\n' :: List.replicate (2 * level) ' '

/-- The lines of a list or a record whose members are written already. -/
def enclose (opening closing : Char) (level : Nat) : List (List Char) → List Char
  | [] => [opening, closing]
  | members =>
    opening :: [','].intercalate (members.map (lineStart (level + 1) ++ ·)) ++
      lineStart level ++ [closing]

mutual

/-- The written form of a value at a level. -/
def render (level : Nat) : Json → List Char
  | number n => (toString n).toList
  | string text => renderString text
  | array items => enclose '[' ']' level (renderItems (level + 1) items)
  | object members => enclose '{' '}' level (renderMembers (level + 1) members)

/-- The written forms of the items of a list. -/
def renderItems (level : Nat) : List Json → List (List Char)
  | [] => []
  | item :: items => render level item :: renderItems level items

/-- The written forms of the members of a record. -/
def renderMembers (level : Nat) : List (String × Json) → List (List Char)
  | [] => []
  | (name, v) :: members =>
    (renderString name ++ ':' :: ' ' :: render level v) :: renderMembers level members

end

/-- The form of a value over several lines. -/
def pretty (v : Json) : String := String.ofList (render 0 v)

end Json
end BracketPaint.Text
