import BracketPaint.Toml.Statement
/-!
# Settings documents

What the statements of a document mean together. The document is a tree of tables that grows
statement by statement. The tree remembers how each table came about, since that decides what may
still be done to it:

* a table with a header of its own may have none again, and no key of another table reaches into it;
* a table that came about as a part of a longer header may still get its own;
* a table that came about by a key with dots takes more entries by such keys only.

Tables that are written on one line are grown in the same way, and are closed once they are read.
-/

namespace BracketPaint.Toml

/-- How a table came about. -/
inductive Origin where
  /-- By a header of its own. -/
  | header
  /-- As a part of the key of a header. -/
  | passage
  /-- As a part of the key of an entry. -/
  | dotted
  deriving Repr, DecidableEq

/-- A part of a document that may still grow. -/
inductive Node where
  /-- A value; it does not grow. -/
  | leaf (v : Value)
  /-- A table. -/
  | table (origin : Origin) (entries : List (String × Node))
  /-- An array of tables, the last of which may grow. -/
  | tables (elements : List (List (String × Node)))
  deriving Repr

/-- The entries of a table that may still grow. -/
abbrev Nodes := List (String × Node)

/-- Replaces the entry of a name, or adds one at the end. -/
def alter? (name : String) (f : Option Node → Option Node) : Nodes → Option Nodes
  | [] => do return [(name, ← f none)]
  | (other, node) :: nodes =>
    if other = name then do return (other, ← f (some node)) :: nodes
    else do return (other, node) :: (← alter? name f nodes)

/-- Replaces the last element of a list. -/
def alterLast? {α : Type} (f : α → Option α) : List α → Option (List α)
  | [] => none
  | [a] => do return [← f a]
  | a :: as => do return a :: (← alterLast? f as)

/-- Acts on the table of a key, given the table to start from. Tables on the way that do not exist
come about as `made` says. The way leads into the last element of an array of tables; a dotted key
does not lead into a table with a header of its own. -/
def within? (made : Origin) (act : Origin → Nodes → Option Nodes) :
    (key : List String) → Origin → Nodes → Option Nodes
  | [], origin, nodes => act origin nodes
  | name :: key, _, nodes =>
    alter? name (fun
      | none => do return .table made (← within? made act key made [])
      | some (.table origin inner) =>
        if made = .dotted ∧ origin = .header then none
        else do return .table origin (← within? made act key origin inner)
      | some (.tables elements) => do
        return .tables (← alterLast? (within? made act key .header) elements)
      | some (.leaf _) => none) nodes

/-- Adds an entry to a table. A dotted key ends in a table that came about by one, a plain key in
one that did not. -/
def addEntry? (key : List String) (v : Value) (nodes : Nodes) : Option Nodes :=
  match key.getLast? with
  | none => none
  | some name =>
    within? .dotted (fun origin nodes =>
      if origin = .dotted ↔ key.dropLast ≠ [] then
        alter? name (fun node? => if node?.isNone then some (.leaf v) else none) nodes
      else none) key.dropLast .header nodes

/-- Opens the table of a header, which must not have had one. -/
def openTable? (key : List String) (nodes : Nodes) : Option Nodes :=
  match key.getLast? with
  | none => none
  | some name =>
    within? .passage (fun _ =>
      alter? name fun
        | none => some (.table .header [])
        | some (.table .passage inner) => some (.table .header inner)
        | _ => none) key.dropLast .header nodes

/-- Adds an element to the array of a header. -/
def openElement? (key : List String) (nodes : Nodes) : Option Nodes :=
  match key.getLast? with
  | none => none
  | some name =>
    within? .passage (fun _ =>
      alter? name fun
        | none => some (.tables [[]])
        | some (.tables elements) => some (.tables (elements ++ [[]]))
        | _ => none) key.dropLast .header nodes

mutual

/-- The value that a part of a document has in the end. -/
def Node.toValue : Node → Value
  | .leaf v => v
  | .table _ nodes => .table (toEntries nodes)
  | .tables elements => .array (toTables elements)

/-- The values of all entries. -/
def toEntries : Nodes → Entries
  | [] => []
  | (name, node) :: nodes => (name, node.toValue) :: toEntries nodes

/-- The values of all tables. -/
def toTables : List Nodes → List Value
  | [] => []
  | nodes :: elements => .table (toEntries nodes) :: toTables elements

end

/-- The table of pairs that are written on one line. -/
def inlineTable? (pairs : List (List String × Value)) : Option Value := do
  let nodes ← pairs.foldlM (fun nodes (key, v) => addEntry? key v nodes) []
  return .table (toEntries nodes)

/-- Reads a value; `depth` is the number of arrays and tables that may still open. -/
def value? : (depth : Nat) → List Char → Option (Value × List Char)
  | depth, cs =>
    match cs with
    | '"' :: _ | '\'' :: _ =>
      (quoted? cs).map fun (text, rest) => (.string (String.ofList text), rest)
    | '[' :: rest =>
      match depth with
      | 0 => none
      | depth + 1 => (items? (value? depth) rest).map fun (items, rest) => (.array items, rest)
    | '{' :: rest =>
      match depth with
      | 0 => none
      | depth + 1 => do
        let (pairs, rest) ← inlinePairs? (value? depth) rest
        return (← inlineTable? pairs, rest)
    | _ =>
      let (run, rest) := scalarRun cs
      (scalar? run).map (·, rest)

/-- A document while it is read: its tables, and the key of the table that entries go to. -/
structure Reading where
  /-- All tables. -/
  nodes : Nodes := []
  /-- The key of the last header. -/
  current : List String := []

/-- Takes one statement into account. -/
def Reading.add? (r : Reading) : Statement Value → Option Reading
  | .entry key v => do
    let nodes ← within? .passage (fun _ => addEntry? key v) r.current .header r.nodes
    return { r with nodes }
  | .header key => do return ⟨← openTable? key r.nodes, key⟩
  | .arrayHeader key => do return ⟨← openElement? key r.nodes, key⟩

/-- The text without the mark of its encoding before it. -/
def withoutMark : List Char → List Char
  | '\ufeff' :: cs => cs
  | cs => cs

/-- Reads a document: the entries of its outermost table. -/
def read? (text : String) : Option Entries := do
  let statements ← statements? (value? (nestingLimit - 1)) (withoutMark text.toList)
  let reading ← statements.foldlM Reading.add? {}
  return toEntries reading.nodes

end BracketPaint.Toml
