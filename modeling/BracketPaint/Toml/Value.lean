/-!
# Values of a settings document

What a document in the TOML format says, once its layout is forgotten: scalars, arrays, and tables
whose entries keep the order in which they were written. Of floats and of dates and times only the
written form is kept, since no setting is one.
-/

namespace BracketPaint.Toml

/-- A value of a document. -/
inductive Value where
  /-- A text. -/
  | string (text : String)
  /-- An integer of 64 bits. -/
  | integer (n : Int)
  /-- A float, as it is written. -/
  | float (written : String)
  /-- A truth value. -/
  | boolean (b : Bool)
  /-- A date, a time, or both, as it is written. -/
  | dateTime (written : String)
  /-- A list of values. -/
  | array (items : List Value)
  /-- A list of values with names, no name twice. -/
  | table (entries : List (String × Value))
  deriving Repr

/-- The entries of a table. -/
abbrev Entries := List (String × Value)

namespace Value

/-- The entries, if the value is a table. -/
def entries? : Value → Option Entries
  | table entries => some entries
  | _ => none

/-- The tables of a non-empty array that holds nothing else. -/
def tables? : Value → Option (List Entries)
  | array (item :: items) => (item :: items).mapM entries?
  | _ => none

/-- The value is written behind its key, and not under a header of its own. -/
def isPlain (v : Value) : Bool := v.entries?.isNone && v.tables?.isNone

end Value
end BracketPaint.Toml
