import BracketPaint.Toml.Statement
/-!
# Writing settings documents

The written form of a document. The plain entries of a table come first, one on a line, and then its
tables, each under a header of its own and after an empty line; a table that holds nothing but
tables goes without a header. An array of tables has a header for each element.

Lists of two and more items take a line for each. A text is written in the plainest way that shows
it without escapes; if there is none, it is written with them.
-/

namespace BracketPaint.Toml

/-! ### Texts -/

/-- The character cannot be shown as itself, not even in a text over several lines. -/
def needsEscape (c : Char) : Bool := !isPrintable c && c != '\n'

/-- The greatest number of times that a character stands in a row. -/
def longestRun (c : Char) (cs : List Char) : Nat :=
  (cs.foldl (fun (longest, run) d =>
    if d = c then (max longest (run + 1), run + 1) else (longest, 0)) (0, 0)).1

/-- A character with an escape, if it has one or needs one. -/
def escaped (c : Char) : List Char :=
  if c = '\x08' then ['\\', 'b']
  else if c = '\t' then ['\\', 't']
  else if c = '\n' then ['\\', 'n']
  else if c = '\x0c' then ['\\', 'f']
  else if c = '\r' then ['\\', 'r']
  else if c = '"' then ['\\', '"']
  else if c = '\\' then ['\\', '\\']
  else if needsEscape c then '\\' :: 'u' :: Text.hexPad 4 c.toNat
  else [c]

/-- The inside of a text over several lines: breaks stand for themselves, and so do up to two quotes
in a row. `run` is the number of quotes right before. -/
def multilineBody (run : Nat) : List Char → List Char
  | [] => []
  | '"' :: cs =>
    if run < 2 then '"' :: multilineBody (run + 1) cs else '\\' :: '"' :: multilineBody 0 cs
  | '\n' :: cs => '\n' :: multilineBody 0 cs
  | c :: cs => escaped c ++ multilineBody 0 cs

/-- A text between quotes that may be followed by a line break. -/
def enclose (quotes : String) (newline : Bool) (body : List Char) : List Char :=
  quotes.toList ++ (if newline then ['\n'] else []) ++ body ++ quotes.toList

/-- The written form of a text. -/
def renderString (text : String) : List Char :=
  let cs := text.toList
  let newline := '\n' ∈ cs
  let backslash := '\\' ∈ cs
  let control := cs.any needsEscape
  let quotes := longestRun '"' cs
  let apostrophes := longestRun '\'' cs
  if !control && !backslash && quotes == 0 && !newline then
    enclose "\"" false (cs.flatMap escaped)
  else if !control && apostrophes == 0 && !newline then enclose "'" false cs
  else if !control && !backslash && quotes ≤ 2 then
    enclose "\"\"\"" newline (multilineBody 0 cs)
  else if !control && apostrophes ≤ 2 then enclose "'''" newline cs
  else if newline then enclose "\"\"\"" true (multilineBody 0 cs)
  else enclose "\"" false (cs.flatMap escaped)

/-- The written form of a name. -/
def renderName (name : String) : List Char :=
  if !name.isEmpty && name.toList.all isBareChar then name.toList
  else enclose "\"" false (name.toList.flatMap escaped)

/-- The written form of a key. -/
def renderKey (key : List String) : List Char :=
  ['.'].intercalate (key.map renderName)

/-! ### Values -/

/-- The written form of a list whose items are written already. -/
def renderItems : List (List Char) → List Char
  | [] => "[]".toList
  | [item] => '[' :: item ++ [']']
  | items =>
    '[' :: '\n' :: items.flatMap (fun item => "    ".toList ++ item ++ [',', '\n']) ++ [']']

mutual

/-- The written form of a value behind its key. -/
def renderValue : Value → List Char
  | .string text => renderString text
  | .integer n => (toString n).toList
  | .float written => written.toList
  | .boolean b => (toString b).toList
  | .dateTime written => written.toList
  | .array items => renderItems (renderValues items)
  | .table entries =>
    if entries.isEmpty then "\x7b\x7d".toList
    else "\x7b ".toList ++ [',', ' '].intercalate (renderPairs entries) ++ " \x7d".toList

/-- The written forms of values. -/
def renderValues : List Value → List (List Char)
  | [] => []
  | v :: vs => renderValue v :: renderValues vs

/-- The written forms of entries. -/
def renderPairs : Entries → List (List Char)
  | [] => []
  | (name, v) :: entries =>
    (renderName name ++ " = ".toList ++ renderValue v) :: renderPairs entries

end

/-! ### Tables -/

/-- The plain entries of a table, a line for each. -/
def renderPlain (entries : Entries) : List Char :=
  (renderPairs (entries.filter fun (_, v) => v.isPlain)).flatMap (· ++ ['\n'])

/-- The table needs a header: it has plain entries, or none at all. -/
def needsHeader (entries : Entries) : Bool :=
  entries.isEmpty || entries.any fun (_, v) => v.isPlain

/-- The block of a table: its header and its plain entries. -/
def renderBlock (opening closing : String) (key : List String) (entries : Entries) : List Char :=
  opening.toList ++ renderKey key ++ closing.toList ++ '\n' :: renderPlain entries

mutual

/-- The blocks of the tables inside a value, from the value of the given key on. -/
def blocksOf (key : List String) : Value → List (List Char)
  | .table entries =>
    (if needsHeader entries then [renderBlock "[" "]" key entries] else []) ++
      blocksOfEntries key entries
  | .array items =>
    if (Value.array items).isPlain then [] else blocksOfElements key items
  | _ => []

/-- The blocks of the tables inside the entries of a table. -/
def blocksOfEntries (key : List String) : Entries → List (List Char)
  | [] => []
  | (name, v) :: entries => blocksOf (key ++ [name]) v ++ blocksOfEntries key entries

/-- The blocks of the elements of an array of tables. -/
def blocksOfElements (key : List String) : List Value → List (List Char)
  | [] => []
  | .table entries :: items =>
    renderBlock "[[" "]]" key entries :: blocksOfEntries key entries ++
      blocksOfElements key items
  | _ :: items => blocksOfElements key items

end

/-- The written form of a document. -/
def write (entries : Entries) : String :=
  let plain := renderPlain entries
  let blocks := (if plain.isEmpty then [] else [plain]) ++ blocksOfEntries [] entries
  String.ofList (['\n'].intercalate blocks)

end BracketPaint.Toml
